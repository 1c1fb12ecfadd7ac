import AqlQuery.Proofs.Binding.Growth

/-!
# Queries with their literals in place

The reference for what placeholders stand for: the same queries and the same steps without a bind
table. Where a query has an operand, an inline query has the literal itself. `Query.inline` replaces
each placeholder of a query by what the query's own table holds for it.
-/

namespace AqlQuery

namespace Inline

/-- A condition with its literals in place. -/
inductive Condition where
  | compare (column : String) (operator : Operator) (value : Literal)
  | member (column : String) (values : List Literal)
  | notMember (column : String) (values : List Literal)
  | isNull (column : String)
  | notNull (column : String)
  | compareColumns (first : String) (operator : Operator) (second : String)
  | group (members : List (Connective × Condition))

abbrev Predicate := Connective × Condition

structure Join where
  collection : String
  conditions : List Predicate

inductive Assignment where
  | set (column : String) (value : Literal)
  | adjust (column : String) (op : AdjustOp) (amount : Number)

inductive Mutation where
  | insert (records : List (OrderedMap Literal))
  | update (assignments : List Assignment)
  | delete

def Mutation.shape : Mutation → Shape
  | .insert _ => .insert
  | .update _ => .update
  | .delete => .delete

/-- A query without a bind table. -/
structure Query where
  source : String
  predicates : List Predicate := []
  joins : List Join := []
  projection : Projection := .all
  groups : List String := []
  ordering : List OrderBy := []
  limit : Option UInt64 := none
  offset : Option UInt64 := none
  aggregate : Option Aggregate := none
  mutation : Option Mutation := none

end Inline

/-! ## Replacing operands by literals -/

mutual
def Condition.inlineWith (f : Operand → Literal) : Condition → Inline.Condition
  | .compare column operator value => .compare column operator (f value)
  | .member column values => .member column (values.map f)
  | .notMember column values => .notMember column (values.map f)
  | .isNull column => .isNull column
  | .notNull column => .notNull column
  | .compareColumns first operator second => .compareColumns first operator second
  | .group members => .group (Condition.inlineMembers f members)
def Condition.inlineMembers (f : Operand → Literal) :
    List (Connective × Condition) → List (Connective × Inline.Condition)
  | [] => []
  | (link, condition) :: rest =>
    (link, condition.inlineWith f) :: Condition.inlineMembers f rest
end

def Join.inlineWith (f : Operand → Literal) (j : Join) : Inline.Join :=
  ⟨j.collection, Condition.inlineMembers f j.conditions⟩

def Assignment.inlineWith (f : Operand → Literal) : Assignment → Inline.Assignment
  | .set column value => .set column (f value)
  | .adjust column op amount => .adjust column op amount

def Mutation.inlineWith (f : Operand → Literal) : Mutation → Inline.Mutation
  | .insert records => .insert (records.map fun record => record.map f)
  | .update assignments => .update (assignments.map (Assignment.inlineWith f))
  | .delete => .delete

namespace Query

def inlineWith (f : Operand → Literal) (q : Query) : Inline.Query where
  source := q.source
  predicates := Condition.inlineMembers f q.predicates
  joins := q.joins.map (Join.inlineWith f)
  projection := q.projection
  groups := q.groups
  ordering := q.ordering
  limit := q.limit
  offset := q.offset
  aggregate := q.aggregate
  mutation := q.mutation.map (Mutation.inlineWith f)

/-- The query with each placeholder replaced by what its own table holds for it. -/
def inline (q : Query) : Inline.Query := q.inlineWith (literalOf q.bindings)

end Query

/-! ## The builder without a table -/

namespace Inline.Query

def table (collection : String) : Query := { source := collection }

def push (q : Query) (link : Connective) (condition : Condition) : Query :=
  { q with predicates := q.predicates ++ [(link, condition)] }

def pushJoin (q : Query) (collection : String) (conditions : List Predicate) : Query :=
  { q with joins := q.joins ++ [⟨collection, conditions⟩] }

/-- Compares a column with a literal. Null is tested for, by the operators of equality only. -/
def filter (link : Connective) (column : String) (operator : Operator) (value : Literal)
    (q : Query) : Except BuildError Query :=
  match value, operator with
  | .value .null, .eq => .ok (q.push link (.isNull column))
  | .value .null, .ne => .ok (q.push link (.notNull column))
  | .value .null, operator => .error (.illegalOperatorValue operator)
  | value, operator => .ok (q.push link (.compare column operator value))

def filterEq (link : Connective) (column : String) (value : Literal) (q : Query) : Query :=
  match value with
  | .value .null => q.push link (.isNull column)
  | value => q.push link (.compare column .eq value)

def whereIn (link : Connective) (negated : Bool) (column : String) (values : List Literal)
    (q : Query) : Query :=
  q.push link (if negated then .notMember column values else .member column values)

/-- Strictly between two literals, or its complement. -/
def whereBetween (link : Connective) (negated : Bool) (column : String) (low high : Literal)
    (q : Query) : Query :=
  q.push link (.group
    (if negated then [(.and, .compare column .le low), (.or, .compare column .ge high)]
    else [(.and, .compare column .gt low), (.and, .compare column .lt high)]))

/-- Asks for an aggregate; only a count may go without a column. -/
def withAggregate (function : AggregateFunction) (columns : List String) (q : Query) :
    Except BuildError Query :=
  let columns := if columns = [] then [wholeDocument] else columns
  if function ≠ .count ∧ columns = [wholeDocument] then
    .error (.aggregateWithoutColumn function)
  else
    .ok { q with
      ordering := if q.groups = [] then [] else q.ordering
      aggregate := some ⟨function, columns⟩ }

/-- Sets the mutation of a query that has none yet. -/
def mutate (q : Query) (mutation : Except BuildError Mutation) : Except BuildError Query :=
  match q.mutation with
  | some m => .error (.mutationAlreadySet m.shape)
  | none => mutation.map fun m => { q with mutation := some m }

/-- The mutation that inserts records: each of them cut down to the columns of the first. -/
def insertion (records : List (OrderedMap Literal)) : Except BuildError Mutation :=
  match records with
  | [] => .error .emptyInsert
  | first :: _ =>
    if first.isEmpty then .error .emptyInsert
    else .ok (.insert (records.map fun record =>
      OrderedMap.ofList (Query.recordPairs first.keys record)))

def insert (records : List (List (String × Literal))) (q : Query) : Except BuildError Query :=
  q.mutate (insertion (records.map OrderedMap.ofList))

def assignments (pairs : List (String × Literal)) : List Assignment :=
  pairs.map fun pair => .set pair.1 pair.2

end Inline.Query

namespace Inline

mutual
/-- What a step makes of an inline query. -/
def apply : Step → Query → Except BuildError Query
  | .table name, _ => .ok (.table name)
  | .load query, _ => .ok query.inline
  | .filter link column operator value, q => q.filter link column operator value
  | .filterEq link column value, q => .ok (q.filterEq link column value)
  | .whereKey key, q => .ok (q.filterEq .and (q.source ++ "." ++ primaryKey) key)
  | .whereIn link negated column values, q => .ok (q.whereIn link negated column values)
  | .whereNull link negated column, q =>
    .ok (q.push link (if negated then .notNull column else .isNull column))
  | .whereColumn link first operator second, q =>
    .ok (q.push link (.compareColumns first operator second))
  | .whereBetween link negated column low high, q =>
    .ok (q.whereBetween link negated column low high)
  | .whereNested link steps, q =>
    (applyAll steps { source := q.source }).map fun built => q.push link (.group built.predicates)
  | .join collection first operator second, q =>
    .ok (q.pushJoin collection [(.and, .compareColumns first operator second)])
  | .joinWhere collection steps, q =>
    (applyAll steps { source := q.source }).map fun built => q.pushJoin collection built.predicates
  | .crossJoin collection, q => .ok (q.pushJoin collection [])
  | .select columns, q =>
    .ok { q with
      projection := if columns = [] ∨ columns = [wholeDocument] then .all else .columns columns }
  | .addSelect column, q =>
    .ok { q with
      projection := match q.projection with
        | .columns columns => .columns (columns ++ [column])
        | .all => .columns [column] }
  | .groupBy columns, q => .ok { q with groups := q.groups ++ columns }
  | .orderBy column direction, q => .ok { q with ordering := q.ordering ++ [⟨column, direction⟩] }
  | .take n, q => .ok { q with limit := some n }
  | .skip n, q => .ok { q with offset := some n }
  | .forPage page perPage, q =>
    .ok { q with offset := some (Query.rowsBefore page perPage), limit := some perPage }
  | .aggregate function columns, q => q.withAggregate function columns
  | .insert records, q => q.insert records
  | .insertJson records, q => do
    let objects ← Query.recordMembers 0 records
    q.insert (objects.map (Entries.mapValues Literal.value))
  | .update values, q => q.mutate (.ok (.update (Query.assignments values)))
  | .adjust op column amount extra, q =>
    q.mutate ((Query.numericAmount op amount).map fun n =>
      .update (.adjust column op n :: Query.assignments extra))
  | .delete, q => q.mutate (.ok .delete)
/-- Runs steps in order and stops at the first that fails. -/
def applyAll : List Step → Query → Except BuildError Query
  | [], q => .ok q
  | step :: rest, q => do applyAll rest (← apply step q)
end

/-- Runs steps in order; one that fails leaves the query as it was. -/
def runLenient (steps : List Step) (q : Query) : Query :=
  steps.foldl (fun q step => (apply step q).toOption.getD q) q

namespace Query

/-- Whether records are to be inserted. -/
def isInsert (q : Query) : Bool :=
  match q.mutation with
  | some (.insert _) => true
  | _ => false

/-- The query without the parts that its statement would not show. -/
def normalize (q : Query) : Query :=
  { q with
    predicates := if q.isInsert then [] else q.predicates
    joins := if q.isInsert then [] else q.joins
    ordering :=
      if q.isInsert || q.aggregate.isSome && q.groups.isEmpty then [] else q.ordering
    limit := if q.isInsert then none else q.limit
    offset := if q.isInsert then none else q.offset
    projection := match q.projection with
      | .columns [] => .all
      | projection => projection }

end Query

end Inline

end AqlQuery

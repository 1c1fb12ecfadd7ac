import AqlQuery.Json.Reader
import AqlQuery.Query.Error

/-!
# Building queries

Each function takes a query one step further. Literals are bound the moment they are supplied, in
the order in which they are supplied, and an error is reported by the step that causes it; the query
before the step is what remains then.
-/

namespace AqlQuery.Query

/-- Binds a literal in the table of the query. -/
def bind (q : Query) (literal : Literal) : Operand × Query :=
  let (operand, table) := q.bindings.allocate literal
  (operand, { q with bindings := table })

/-- Adds a condition after the ones that are there. -/
def push (q : Query) (link : Connective) (condition : Condition) : Query :=
  { q with predicates := q.predicates ++ [(link, condition)] }

/-! ## Conditions -/

/-- Compares a column with a literal. Equality with null is a test for null, and no other operator
may meet null. -/
def filter (link : Connective) (column : String) (operator : Operator) (value : Literal)
    (q : Query) : Except BuildError Query :=
  if value.isNull then
    match operator with
    | .eq => .ok (q.push link (.isNull column))
    | .ne => .ok (q.push link (.notNull column))
    | _ => .error (.illegalOperatorValue operator)
  else
    let (operand, q) := q.bind value
    .ok (q.push link (.compare column operator operand))

/-- Equality with a literal, null included. -/
def filterEq (link : Connective) (column : String) (value : Literal) (q : Query) : Query :=
  if value.isNull then q.push link (.isNull column)
  else
    let (operand, q) := q.bind value
    q.push link (.compare column .eq operand)

/-- The source's document with the given key; the column is qualified, so that joins do not make it
ambiguous. -/
def whereKey (key : Literal) (q : Query) : Query :=
  q.filterEq .and (q.source ++ "." ++ primaryKey) key

/-- Membership in a set of literals, or its negation. -/
def whereIn (link : Connective) (negated : Bool) (column : String) (values : List Literal)
    (q : Query) : Query :=
  let (operands, table) := q.bindings.allocateAll values
  let condition := if negated then .notMember column operands else .member column operands
  { q with bindings := table }.push link condition

def whereNull (link : Connective) (negated : Bool) (column : String) (q : Query) : Query :=
  q.push link (if negated then .notNull column else .isNull column)

def whereColumn (link : Connective) (first : String) (operator : Operator) (second : String)
    (q : Query) : Query :=
  q.push link (.compareColumns first operator second)

/-- Strictly between two bounds, or its complement, as a group of two comparisons. -/
def whereBetween (link : Connective) (negated : Bool) (column : String) (low high : Literal)
    (q : Query) : Query :=
  let (low, q) := q.bind low
  let (high, q) := q.bind high
  let members :=
    if negated then [(.and, .compare column .le low), (.or, .compare column .ge high)]
    else [(.and, .compare column .gt low), (.and, .compare column .lt high)]
  q.push link (.group members)

/-! ## Groups and joins -/

/-- The query that a group is built on: the same source and bindings, nothing else. -/
def scratch (q : Query) : Query :=
  { source := q.source, bindings := q.bindings }

/-- A group of conditions, built by `build` on a scratch query. -/
def whereNested (link : Connective) (build : Query → Except BuildError Query) (q : Query) :
    Except BuildError Query :=
  match build q.scratch with
  | .error e => .error e
  | .ok built => .ok ({ q with bindings := built.bindings }.push link (.group built.predicates))

/-- Adds a joined collection after the ones that are there. -/
def pushJoin (q : Query) (collection : String) (conditions : List Predicate) : Query :=
  { q with joins := q.joins ++ [⟨collection, conditions⟩] }

/-- Joins a collection on the comparison of two columns. -/
def join (collection first : String) (operator : Operator) (second : String) (q : Query) : Query :=
  q.pushJoin collection [(.and, .compareColumns first operator second)]

/-- Joins a collection on conditions built by `build` on a scratch query. -/
def joinWhere (collection : String) (build : Query → Except BuildError Query) (q : Query) :
    Except BuildError Query :=
  match build q.scratch with
  | .error e => .error e
  | .ok built => .ok ({ q with bindings := built.bindings }.pushJoin collection built.predicates)

def crossJoin (collection : String) (q : Query) : Query :=
  q.pushJoin collection []

/-! ## Projection, grouping, ordering and paging -/

/-- Selects columns; none, or the whole document alone, selects whole documents. -/
def select (columns : List String) (q : Query) : Query :=
  { q with
    projection :=
      if columns = [] ∨ columns = [wholeDocument] then .all else .columns columns }

def addSelect (column : String) (q : Query) : Query :=
  { q with
    projection :=
      match q.projection with
      | .columns columns => .columns (columns ++ [column])
      | .all => .columns [column] }

def groupBy (columns : List String) (q : Query) : Query :=
  { q with groups := q.groups ++ columns }

def orderBy (column : String) (direction : Direction) (q : Query) : Query :=
  { q with ordering := q.ordering ++ [⟨column, direction⟩] }

def take (n : UInt64) (q : Query) : Query :=
  { q with limit := some n }

def skip (n : UInt64) (q : Query) : Query :=
  { q with offset := some n }

/-- Number of rows before a page; pages are counted from one. It stops at the largest word. -/
def rowsBefore (page perPage : UInt64) : UInt64 :=
  UInt64.ofNat (min ((page.toNat - 1) * perPage.toNat) (UInt64.size - 1))

def forPage (page perPage : UInt64) (q : Query) : Query :=
  (q.skip (rowsBefore page perPage)).take perPage

/-- Asks for an aggregate. Only a count may go without a column, and a single value has no order. -/
def withAggregate (function : AggregateFunction) (columns : List String) (q : Query) :
    Except BuildError Query :=
  let columns := if columns = [] then [wholeDocument] else columns
  if function ≠ .count ∧ columns = [wholeDocument] then
    .error (.aggregateWithoutColumn function)
  else
    .ok { q with
      ordering := if q.groups = [] then [] else q.ordering
      aggregate := some ⟨function, columns⟩ }

/-! ## Mutations -/

/-- A query takes one mutation only. -/
def ensureNoMutation (q : Query) : Except BuildError Unit :=
  match q.mutation with
  | some m => .error (.mutationAlreadySet m.shape)
  | none => .ok ()

/-- Binds the values that records have for the given columns, in the order of the columns. -/
def bindRecords (columns : List String) (table : BindTable) :
    List (OrderedMap Literal) → List (OrderedMap Operand) × BindTable
  | [] => ([], table)
  | record :: rest =>
    let chosen := columns.filterMap fun column => (record.get? column).map fun v => (column, v)
    let (pairs, table) := table.allocatePairs chosen
    let (rows, table) := bindRecords columns table rest
    (OrderedMap.ofList pairs :: rows, table)

/-- Inserts records. The first one fixes the columns; the others leave out what they do not have,
and what they have besides is dropped. -/
def insert (records : List (List (String × Literal))) (q : Query) : Except BuildError Query := do
  q.ensureNoMutation
  let records := records.map OrderedMap.ofList
  match records with
  | [] => .error .emptyInsert
  | first :: _ =>
    if first.isEmpty then .error .emptyInsert
    else
      let (rows, table) := bindRecords first.keys q.bindings records
      .ok { q with mutation := some (.insert rows), bindings := table }

/-- The members of each record; the first one that is no object is an error. -/
def recordMembers (index : Nat) : List Json → Except BuildError (List (List (String × Json)))
  | [] => .ok []
  | .object members :: rest => do
    let others ← recordMembers (index + 1) rest
    .ok (members :: others)
  | _ :: _ => .error (.invalidRecord index)

/-- Inserts JSON objects. -/
def insertJson (records : List Json) (q : Query) : Except BuildError Query := do
  let objects ← recordMembers 0 records
  q.insert (objects.map fun members => Entries.mapValues Literal.value members)

def setAll (pairs : List (String × Operand)) : List Assignment :=
  pairs.map fun (column, operand) => .set column operand

def update (values : List (String × Literal)) (q : Query) : Except BuildError Query := do
  q.ensureNoMutation
  let (pairs, table) := q.bindings.allocatePairs values
  .ok { q with mutation := some (.update (setAll pairs)), bindings := table }

/-- A number, or a text that is one number between blanks. -/
def numericAmount (op : AdjustOp) (amount : Json) : Except BuildError Number :=
  match amount with
  | .number n => .ok n
  | .string s =>
    match Json.numberOnly? (Text.trim s) with
    | some n => .ok n
    | none => .error (.nonNumericAmount op amount)
  | _ => .error (.nonNumericAmount op amount)

/-- Adds to a column or subtracts from it, and sets further columns in the same update. -/
def adjust (op : AdjustOp) (column : String) (amount : Json) (extra : List (String × Literal))
    (q : Query) : Except BuildError Query := do
  q.ensureNoMutation
  let amount ← numericAmount op amount
  let (pairs, table) := q.bindings.allocatePairs extra
  .ok { q with
    mutation := some (.update (.adjust column op amount :: setAll pairs))
    bindings := table }

def delete (q : Query) : Except BuildError Query := do
  q.ensureNoMutation
  .ok { q with mutation := some .delete }

end AqlQuery.Query

import AqlQuery.Aql.Expr

/-!
# Clauses

The clauses of a statement in the order in which they are written. A frame is a query together
with the scope of its columns and, for a select, its resolved groups: once rows are collected into
groups, only the group variables can be read.
-/

namespace AqlQuery.Aql

/-! ## Trees and their text -/

/-- One loop over a collection. -/
structure Loop where
  entity : String
  collection : String
  deriving DecidableEq

def Loop.text (l : Loop) : String :=
  "FOR " ++ l.entity ++ " IN " ++ Collection.inBackticks l.collection

/-- An expression, or an object of expressions under their keys. -/
inductive Output where
  | value (e : Expr)
  | object (pairs : List (String × Expr))
  deriving DecidableEq

/-- The text of an object of expressions. -/
def pairsText (pairs : List (String × Expr)) : String :=
  objectText (pairs.map fun (key, e) => (key, e.text))

def Output.text : Output → String
  | .value e => e.text
  | .object pairs => pairsText pairs

/-- The kinds of clauses (`SelectClause`). -/
inductive ClauseKind where
  | loop
  | joins
  | filter
  | collect
  | sort
  | limit
  | returning
  deriving DecidableEq

namespace ClauseKind

def name : ClauseKind → String
  | .loop => "for"
  | .joins => "joins"
  | .filter => "filter"
  | .collect => "collect"
  | .sort => "sort"
  | .limit => "limit"
  | .returning => "return"

/-- The clauses of a select. -/
def selectOrder : List ClauseKind :=
  [.loop, .joins, .filter, .collect, .sort, .limit, .returning]

/-- The clauses before an update or a removal. -/
def mutationOrder : List ClauseKind :=
  [.loop, .joins, .filter, .sort, .limit]

end ClauseKind

inductive Clause where
  | loop (l : Loop)
  | joins (ls : List Loop)
  | filter (chain : Chain)
  | collect (groups : List ResolvedColumn) (aggregate : Option (AggregateFunction × Expr))
  | sort (items : List (Expr × Direction))
  | limit (offset : Option UInt64) (count : UInt64)
  | returning (output : Output)

namespace Clause

def kind : Clause → ClauseKind
  | .loop _ => .loop
  | .joins _ => .joins
  | .filter _ => .filter
  | .collect _ _ => .collect
  | .sort _ => .sort
  | .limit _ _ => .limit
  | .returning _ => .returning

/-- `group_1 = expression, group_2 = expression, …`, counted from `index`. -/
def groupTexts (index : Nat) : List ResolvedColumn → List String
  | [] => []
  | c :: rest => (groupVariable index ++ " = " ++ c.expression) :: groupTexts (index + 1) rest

def text : Clause → String
  | .loop l => l.text
  | .joins ls => " ".intercalate (ls.map Loop.text)
  | .filter chain => "FILTER " ++ Formula.chainText chain
  | .collect groups aggregate =>
    "COLLECT " ++ ", ".intercalate (groupTexts 1 groups) ++
      match aggregate with
      | some (function, argument) =>
        " AGGREGATE " ++ aggregateVariable ++ " = " ++ function.keyword ++ "(" ++
          argument.text ++ ")"
      | none => ""
  | .sort items =>
    "SORT " ++ ", ".intercalate (items.map fun (e, direction) =>
      e.text ++ " " ++ direction.keyword)
  | .limit (some offset) count =>
    "LIMIT " ++ Text.decimal offset.toNat ++ ", " ++ Text.decimal count.toNat
  | .limit none count => "LIMIT " ++ Text.decimal count.toNat
  | .returning output => "RETURN " ++ output.text

end Clause

/-- Clauses are separated by one blank. -/
def clausesText (clauses : List Clause) : String :=
  " ".intercalate (clauses.map Clause.text)

/-! ## Frames -/

/-- A query with the scope of its columns and its resolved groups (`ClauseContext`). -/
structure Frame where
  query : Query
  scope : Scope
  groups : List ResolvedColumn

namespace Frame

/-- The frame of a select (`for_select`). -/
def forSelect (q : Query) : Except ResolveError Frame := do
  let scope := Scope.ofQuery q
  let groups ← q.groups.mapM scope.resolve
  .ok ⟨q, scope, groups⟩

/-- A mutation does not group (`for_mutation`). -/
def forMutation (q : Query) : Frame := ⟨q, Scope.ofQuery q, []⟩

def isGrouped (f : Frame) : Bool := !f.groups.isEmpty

/-- Position, counted from one, of the first group with the same expression. -/
def groupIndex? (f : Frame) (c : ResolvedColumn) : Option Nat :=
  (f.groups.findIdx? fun g => g.expression == c.expression).map (· + 1)

/-- A column and the expression that reads it: among groups, the variable of its group
(`column_expression`). -/
def read (f : Frame) (raw : String) : Except ResolveError (ResolvedColumn × Expr) := do
  let c ← f.scope.resolve raw
  if f.isGrouped then
    match f.groupIndex? c with
    | some index => .ok (c, .group index)
    | none => .error (.notGrouped raw)
  else .ok (c, .column c)

/-- The column that an aggregate reads; none if it reads whole documents (`aggregate_target`). -/
def aggregateColumn (f : Frame) (a : Aggregate) :
    Except ResolveError (Option ResolvedColumn) :=
  match a.columns with
  | [] => .ok none
  | raw :: _ => do
    let c ← f.scope.resolve raw
    .ok (if c.column.isSome then some c else none)

def sourceDocument (f : Frame) : Expr := .document f.scope.sourceVariable

/-- The loop over the source (`for_clause`). -/
def loopClause (f : Frame) : Clause :=
  .loop ⟨f.scope.sourceVariable, Collection.bareName f.scope.source⟩

def joinLoop (j : Join) : Loop :=
  ⟨Collection.variableName j.collection, Collection.bareName j.collection⟩

/-- The loops of the joins (`joins_clause`). -/
def joinsClause (f : Frame) : Option Clause :=
  if f.query.joins.isEmpty then none else some (.joins (f.query.joins.map joinLoop))

/-- The conditions of the joins and the query's own (`filter_clause`). -/
def filterClause (f : Frame) : Except ResolveError (Option Clause) := do
  let chain ← filterChain f.scope f.query
  .ok (if chain.isEmpty then none else some (.filter chain))

/-- What a grouped aggregate is applied to. A count of whole documents counts rows. -/
def aggregateArgument (f : Frame) (a : Aggregate) : Except ResolveError Expr := do
  match ← f.aggregateColumn a with
  | some c => .ok (.column c)
  | none => .ok (if a.function = .count then .one else f.sourceDocument)

/-- The groups, and the aggregate over each of them (`collect_clause`). -/
def collectClause (f : Frame) : Except ResolveError (Option Clause) :=
  if f.isGrouped then
    match f.query.aggregate with
    | none => .ok (some (.collect f.groups none))
    | some a => do
      let argument ← f.aggregateArgument a
      .ok (some (.collect f.groups (some (a.function, argument))))
  else .ok none

/-- The ordering; a single value has none (`sort_clause`). -/
def sortClause (f : Frame) : Except ResolveError (Option Clause) :=
  if f.query.ordering.isEmpty || f.query.isScalarAggregate then .ok none
  else do
    let items ← f.query.ordering.mapM fun order => do
      let (_, e) ← f.read order.column
      .ok (e, order.direction)
    .ok (some (.sort items))

/-- The window; an offset needs a limit (`limit_clause`). -/
def limitClause (f : Frame) : Except StructuralError (Option Clause) :=
  match f.query.limit, f.query.offset with
  | some count, offset => .ok (some (.limit offset count))
  | none, some _ => .error .offsetWithoutLimit
  | none, none => .ok none

/-- Returned columns under their output keys. -/
def outputPairs (f : Frame) (columns : List String) :
    Except ResolveError (List (String × Expr)) :=
  columns.mapM fun raw => do
    let (c, e) ← f.read raw
    .ok (c.outputKey, e)

/-- All groups under their output keys, counted from `index`. -/
def groupPairs (index : Nat) : List ResolvedColumn → List (String × Expr)
  | [] => []
  | c :: rest => (c.outputKey, .group index) :: groupPairs (index + 1) rest

/-- The aggregate goes last into a returned object. -/
def aggregatePair (q : Query) : List (String × Expr) :=
  if q.aggregate.isSome then [(aggregateKey, .aggregateValue)] else []

/-- What a row is returned as (`return_clause`). -/
def output (f : Frame) : Except ResolveError Output :=
  if f.isGrouped then do
    let pairs ← match f.query.projection with
      | .all => .ok (groupPairs 1 f.groups)
      | .columns columns => f.outputPairs columns
    .ok (.object (pairs ++ aggregatePair f.query))
  else
    match f.query.aggregate, f.query.projection with
    | some a, _ => do
      match ← f.aggregateColumn a with
      | some c => .ok (.value (.column c))
      | none => .ok (.value f.sourceDocument)
    | none, .all => .ok (.value f.sourceDocument)
    | none, .columns columns => do
      let pairs ← f.outputPairs columns
      .ok (.object pairs)

/-- A clause of a frame; none if it has nothing to say (`render`). -/
def clause (f : Frame) : ClauseKind → Except CompileError (Option Clause)
  | .loop => .ok (some f.loopClause)
  | .joins => .ok f.joinsClause
  | .filter => f.filterClause.mapError .resolve
  | .collect => f.collectClause.mapError .resolve
  | .sort => f.sortClause.mapError .resolve
  | .limit => f.limitClause.mapError .structural
  | .returning => (f.output.mapError .resolve).map fun output => some (.returning output)

/-- Clauses in order, those with nothing to say left out (`render_all`). -/
def clauses (f : Frame) : List ClauseKind → Except CompileError (List Clause)
  | [] => .ok []
  | kind :: rest =>
    match f.clause kind with
    | .error e => .error e
    | .ok none => f.clauses rest
    | .ok (some c) =>
      match f.clauses rest with
      | .error e => .error e
      | .ok cs => .ok (c :: cs)

/-- The clauses before the first that fails, or all of them. -/
def clausesBeforeError (f : Frame) : List ClauseKind → List Clause
  | [] => []
  | kind :: rest =>
    match f.clause kind with
    | .error _ => []
    | .ok none => f.clausesBeforeError rest
    | .ok (some c) => c :: f.clausesBeforeError rest

end Frame

end AqlQuery.Aql

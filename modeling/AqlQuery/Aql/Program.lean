import AqlQuery.Aql.Clause

/-!
# Whole statements

The four forms of a statement, and the aggregate over all rows, which wraps a select.
-/

namespace AqlQuery.Aql

inductive Program where
  | select (clauses : List Clause)
  | scalar (function : AggregateFunction) (clauses : List Clause)
  | insert (entity : String) (documents : List (List (String × Operand))) (collection : String)
  | update (clauses : List Clause) (entity : String) (pairs : List (String × Expr))
      (collection : String)
  | remove (clauses : List Clause) (entity : String) (collection : String)

namespace Program

/-- A document of an insert. -/
def documentText (members : List (String × Operand)) : String :=
  objectText (members.map fun (key, value) => (key, value.text))

def text : Program → String
  | .select clauses => clausesText clauses
  | .scalar function clauses =>
    "RETURN " ++ objectText
      [(aggregateKey, function.keyword ++ "(" ++ clausesText clauses ++ ")")]
  | .insert entity documents collection =>
    "FOR " ++ entity ++ " IN [" ++ ", ".intercalate (documents.map documentText) ++
      "] INSERT " ++ entity ++ " INTO " ++ Collection.inBackticks collection
  | .update clauses entity pairs collection =>
    clausesText clauses ++ " UPDATE " ++ entity ++ " WITH " ++ pairsText pairs ++ " IN " ++
      Collection.inBackticks collection
  | .remove clauses entity collection =>
    clausesText clauses ++ " REMOVE " ++ entity ++ " IN " ++
      Collection.inBackticks collection

/-! ## From queries -/

/-- The statement that returns rows (`render_select`). -/
def ofSelect (q : Query) : Except CompileError Program := do
  let frame ← (Frame.forSelect q).mapError .resolve
  let clauses ← frame.clauses ClauseKind.selectOrder
  match q.aggregate with
  | some a => if q.groups.isEmpty then .ok (.scalar a.function clauses) else .ok (.select clauses)
  | none => .ok (.select clauses)

/-- The statement that writes records (`render_insert`). -/
def ofInsert (q : Query) (records : List (OrderedMap Operand)) : Program :=
  .insert (Collection.variableName q.source) (records.map OrderedMap.entries)
    (Collection.bareName q.source)

/-- The pair that an assignment writes; an adjustment reads the attribute that it writes. -/
def assignmentPair (scope : Scope) (a : Assignment) : Except ResolveError (String × Expr) := do
  let target ← scope.resolveTarget a.column
  match a with
  | .set _ value => .ok (target.outputKey, .operand value)
  | .adjust _ op amount => .ok (target.outputKey, .adjusted target op amount)

/-- The statement that changes the rows of a query (`render_update`). -/
def ofUpdate (q : Query) (assignments : List Assignment) : Except CompileError Program := do
  let frame := Frame.forMutation q
  let clauses ← frame.clauses ClauseKind.mutationOrder
  let pairs ← (assignments.mapM (assignmentPair frame.scope)).mapError .resolve
  .ok (.update clauses frame.scope.sourceVariable pairs (Collection.bareName frame.scope.source))

/-- The statement that removes the rows of a query (`render_delete`). -/
def ofDelete (q : Query) : Except CompileError Program := do
  let frame := Frame.forMutation q
  let clauses ← frame.clauses ClauseKind.mutationOrder
  .ok (.remove clauses frame.scope.sourceVariable (Collection.bareName frame.scope.source))

/-- The statement that a query describes. -/
def ofQuery (q : Query) : Except CompileError Program :=
  match q.mutation with
  | none => ofSelect q
  | some (.insert records) => .ok (ofInsert q records)
  | some (.update assignments) => ofUpdate q assignments
  | some .delete => ofDelete q

/-- The clauses that are written for a query, up to the first that fails. -/
def clausesWritten (q : Query) : List Clause :=
  match q.mutation with
  | none =>
    match Frame.forSelect q with
    | .error _ => []
    | .ok frame => frame.clausesBeforeError ClauseKind.selectOrder
  | some (.insert _) => []
  | some _ => (Frame.forMutation q).clausesBeforeError ClauseKind.mutationOrder

end Program

end AqlQuery.Aql

import AqlQuery.Exec.Executor
import AqlQuery.Query.Builder

/-!
# Operations on a database

An operation compiles a query, hands the statement to an executor and shapes the rows into what it
promises. Nothing reaches the executor unless it compiles, and a reading operation only ever hands
over a select.
-/

namespace AqlQuery

namespace Connection

variable {σ : Type} (x : Executor σ)

/-- The text of a statement that is not run. -/
def toAql (q : Query) : Exec σ String := do
  let statement ← Exec.ofCompile q.compile
  pure statement.text

/-- Compiles a query of the given form and runs it. -/
def runAs (shape : Shape) (q : Query) : Exec σ CursorResult := do
  let statement ← Exec.ofCompile (q.compileAs shape)
  x.execute statement

/-! ## Reading -/

def get (q : Query) : Exec σ (List Row) := do
  let result ← runAs x .select q
  pure result.rows

def first (q : Query) : Exec σ (Option Row) := do
  let rows ← get x (q.take 1)
  pure rows.head?

/-- The source's document with the given key. -/
def find (q : Query) (key : Literal) : Exec σ (Option Row) := first x (q.whereKey key)

/-- The first value of a row. -/
def firstValue (row : Row) : Json :=
  match row with
  | [] => .null
  | (_, value) :: _ => value

/-- The values of one column. -/
def pluck (q : Query) (column : String) : Exec σ (List Json) := do
  let rows ← get x (q.select [column])
  pure (rows.map firstValue)

/-- One column of the first row. -/
def value (q : Query) (column : String) : Exec σ (Option Json) := do
  let values ← pluck x (q.take 1) column
  pure values.head?

/-- An aggregate over a column; null if there is no row. -/
def aggregate (function : AggregateFunction) (q : Query) (column : String) : Exec σ Json := do
  let q ← Exec.ofBuild (q.withAggregate function [column])
  let rows ← get x q
  pure ((rows.head?.bind fun row => row.lookup Aql.aggregateKey).getD .null)

/-- The number that a count returned; null counts as zero. -/
def countOf (v : Json) : Except ResponseFault UInt64 :=
  if v.isNull then .ok 0
  else
    match v.uint64? with
    | some n => .ok n
    | none => .error (.notCount v)

def count (q : Query) : Exec σ UInt64 := do
  let v ← aggregate x .count q wholeDocument
  match countOf v with
  | .ok n => pure n
  | .error fault => Exec.fail (.invalidResponse fault)

def exists? (q : Query) : Exec σ Bool := do
  let n ← count x q
  pure (decide (0 < n))

/-! ## Writing -/

def insert (collection : String) (records : List Json) : Exec σ UInt64 := do
  let q ← Exec.ofBuild ((Query.table collection).insertJson records)
  let result ← runAs x .insert q
  pure result.writes

/-- The key of the first returned document. -/
def keyOf (result : CursorResult) : Except ResponseFault String :=
  match result.rows.head?.bind fun row => row.lookup primaryKey with
  | some (.string key) => .ok key
  | _ => .error .noDocumentKey

/-- Inserts one document and returns its key. -/
def insertGetId (collection : String) (record : Json) : Exec σ String := do
  let q ← Exec.ofBuild ((Query.table collection).insertJson [record])
  let statement ← Exec.ofCompile q.compileInsertGetId
  let result ← x.execute statement
  match keyOf result with
  | .ok key => pure key
  | .error fault => Exec.fail (.invalidResponse fault)

def update (q : Query) (values : List (String × Literal)) : Exec σ UInt64 := do
  let q ← Exec.ofBuild (q.update values)
  let result ← runAs x .update q
  pure result.writes

/-- Adds to a column or subtracts from it. -/
def adjust (op : AdjustOp) (q : Query) (column : String) (amount : Json) : Exec σ UInt64 := do
  let q ← Exec.ofBuild (q.adjust op column amount [])
  let result ← runAs x .update q
  pure result.writes

def delete (q : Query) : Exec σ UInt64 := do
  let q ← Exec.ofBuild q.delete
  let result ← runAs x .delete q
  pure result.writes

def deleteByKey (collection : String) (key : Literal) : Exec σ UInt64 :=
  delete x ((Query.table collection).whereKey key)

def truncate (collection : String) : Exec σ Unit := x.truncate collection

end Connection

/-- The operations as data. -/
inductive Operation where
  | toAql (q : Query)
  | get (q : Query)
  | first (q : Query)
  | find (q : Query) (key : Literal)
  | pluck (q : Query) (column : String)
  | value (q : Query) (column : String)
  | exists (q : Query)
  | count (q : Query)
  | aggregate (function : AggregateFunction) (q : Query) (column : String)
  | insert (collection : String) (records : List Json)
  | insertGetId (collection : String) (record : Json)
  | update (q : Query) (values : List (String × Literal))
  | adjust (op : AdjustOp) (q : Query) (column : String) (amount : Json)
  | delete (q : Query)
  | deleteByKey (collection : String) (key : Literal)
  | truncate (collection : String)

/-- What an operation promises. -/
inductive Outcome where
  | text (s : String)
  | rows (rows : List Row)
  | row (row : Option Row)
  | values (values : List Json)
  | optional (value : Option Json)
  | flag (b : Bool)
  | number (n : UInt64)
  | json (value : Json)
  | done

/-- Runs an operation through an executor. -/
def Operation.run {σ : Type} (x : Executor σ) : Operation → Exec σ Outcome
  | .toAql q => do pure (.text (← Connection.toAql q))
  | .get q => do pure (.rows (← Connection.get x q))
  | .first q => do pure (.row (← Connection.first x q))
  | .find q key => do pure (.row (← Connection.find x q key))
  | .pluck q column => do pure (.values (← Connection.pluck x q column))
  | .value q column => do pure (.optional (← Connection.value x q column))
  | .exists q => do pure (.flag (← Connection.exists? x q))
  | .count q => do pure (.number (← Connection.count x q))
  | .aggregate function q column => do pure (.json (← Connection.aggregate x function q column))
  | .insert collection records => do pure (.number (← Connection.insert x collection records))
  | .insertGetId collection record => do
    pure (.text (← Connection.insertGetId x collection record))
  | .update q values => do pure (.number (← Connection.update x q values))
  | .adjust op q column amount => do pure (.number (← Connection.adjust x op q column amount))
  | .delete q => do pure (.number (← Connection.delete x q))
  | .deleteByKey collection key => do pure (.number (← Connection.deleteByKey x collection key))
  | .truncate collection => do
    Connection.truncate x collection
    pure .done

end AqlQuery

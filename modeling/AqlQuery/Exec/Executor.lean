import AqlQuery.Exec.Error
import AqlQuery.Statement

/-!
# Executors

An executor runs statements on a state of its own, and the state survives an error. Results are
rows: an object is a row as it is, and anything else becomes the single member of one.
-/

namespace AqlQuery

/-- A computation on a state that may fail; the state is kept either way. -/
def Exec (σ α : Type) : Type := σ → Except ExecError α × σ

namespace Exec

variable {σ α β : Type}

protected def pure (a : α) : Exec σ α := fun s => (.ok a, s)

protected def bind (x : Exec σ α) (f : α → Exec σ β) : Exec σ β := fun s =>
  match x s with
  | (.ok a, s) => f a s
  | (.error e, s) => (.error e, s)

instance : Monad (Exec σ) where
  pure := Exec.pure
  bind := Exec.bind

def fail (e : ExecError) : Exec σ α := fun s => (.error e, s)

/-- The outcome of a compilation, which does not touch the state. -/
def ofCompile : Except CompileError α → Exec σ α
  | .ok a => Exec.pure a
  | .error e => fail (.compile e)

/-- The outcome of building a query, which does not touch the state. -/
def ofBuild : Except BuildError α → Exec σ α
  | .ok a => Exec.pure a
  | .error e => fail (.compile (.build e))

/-- Runs a computation and hands over how it ended. -/
def outcome (x : Exec σ α) : Exec σ (Except ExecError α) := fun s =>
  (.ok (x s).1, (x s).2)

/-- Changes the state. -/
def modify (f : σ → σ) : Exec σ Unit := fun s => (.ok (), f s)

end Exec

/-- A result row: members in order. -/
abbrev Row := List (String × Json)

/-- Key of a result that is not an object. -/
def scalarKey : String := "value"

/-- The row of a result. -/
def Row.ofJson : Json → Row
  | .object members => members
  | value => [(scalarKey, value)]

/-- All rows of a statement, and how many documents it wrote. -/
structure CursorResult where
  rows : List Row := []
  writes : UInt64 := 0
  deriving DecidableEq, Inhabited

/-- What runs statements. -/
structure Executor (σ : Type) where
  execute : Statement → Exec σ CursorResult
  truncate : String → Exec σ Unit

end AqlQuery

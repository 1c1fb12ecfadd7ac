import AqlQuery.Json.Basic

/-!
# Literals, operands and the bind table

A value that a caller supplies never reaches the text of a statement: it is stored in the bind
table under the next name `B1`, `B2`, … and the text mentions the name only. The one exception is a
raw expression, which is spliced into the text as it is and never stored.
-/

namespace AqlQuery

/-- What a caller supplies: data, or trusted text of a raw expression. -/
inductive Literal where
  | value (v : Json)
  | raw (text : String)
  deriving DecidableEq, Repr, Inhabited

/-- What stands in a statement for a literal: the name of a binding, or the raw text. -/
inductive Operand where
  | bound (name : String)
  | raw (text : String)
  deriving DecidableEq, Repr, Inhabited

/-- Whether the literal is the datum `null`. -/
def Literal.isNull : Literal → Bool
  | .value v => v.isNull
  | .raw _ => false

/-- An operand as it is written in a statement. -/
def Operand.text : Operand → String
  | .bound name => "@" ++ name
  | .raw text => text

/-- The name of the binding that an operand stands for. -/
def Operand.name? : Operand → Option String
  | .bound name => some name
  | .raw _ => none

/-- The bindings of one query, in order of allocation, and the number given out last. -/
structure BindTable where
  counter : UInt32
  entries : OrderedMap Json
  deriving DecidableEq, Inhabited

namespace BindTable

def empty : BindTable := ⟨0, .empty⟩

/-- The `n`-th generated name. -/
def nameOf (n : UInt32) : String := "B" ++ Text.decimal n.toNat

/-- Stores a datum under the next name; a raw expression leaves the table as it is. -/
def allocate (table : BindTable) : Literal → Operand × BindTable
  | .value v =>
    let counter := table.counter + 1
    let name := nameOf counter
    (.bound name, ⟨counter, table.entries.insert name v⟩)
  | .raw text => (.raw text, table)

/-- Allocates one literal after the other. -/
def allocateAll (table : BindTable) : List Literal → List Operand × BindTable
  | [] => ([], table)
  | literal :: rest =>
    let (operand, table) := table.allocate literal
    let (operands, table) := table.allocateAll rest
    (operand :: operands, table)

/-- Allocates the literals of a list of pairs and keeps their keys. -/
def allocatePairs (table : BindTable) :
    List (String × Literal) → List (String × Operand) × BindTable
  | [] => ([], table)
  | (key, literal) :: rest =>
    let (operand, table) := table.allocate literal
    let (pairs, table) := table.allocatePairs rest
    ((key, operand) :: pairs, table)

def get? (table : BindTable) (name : String) : Option Json := table.entries.get? name

def names (table : BindTable) : List String := table.entries.keys

def size (table : BindTable) : Nat := table.entries.size

/-- The table as the object that goes with a statement. -/
def toJson (table : BindTable) : Json := .object table.entries.entries

end BindTable

end AqlQuery

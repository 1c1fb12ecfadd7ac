import AqlQuery.OrderedMap

/-!
# TOML values and the tree of a document

A document grows key by key. A table remembers how it came to be, since that decides whether it may
be opened again: a table that a header passed through may get a header of its own, one that a dotted
key made may only get further dotted keys, and one with a header or in braces is complete.
-/

namespace AqlQuery.Toml

/-- A value of a document. Numbers with a fraction or an exponent and dates keep their text, the
former also whether they are too large for a double. -/
inductive Value where
  | string (s : String)
  | integer (n : Int)
  | float (literal : String) (overflows : Bool)
  | boolean (b : Bool)
  | datetime (literal : String)
  | array (items : List Value)
  | table (entries : List (String × Value))
  deriving Repr, Inhabited

/-- Whether an integer fits 128 bits, with or without sign. -/
def fitsInteger (n : Int) : Bool :=
  decide (-Int.ofNat (Nat.pow 2 127) ≤ n ∧ n < Int.ofNat (Nat.pow 2 128))

mutual
/-- Whether every number in a value can be represented. A document may hold numbers that cannot, as
long as nobody looks at them. -/
def Value.isReadable : Value → Bool
  | .integer n => fitsInteger n
  | .float _ overflows => !overflows
  | .array items => Value.areReadable items
  | .table entries => Value.entriesReadable entries
  | .string _ => true
  | .boolean _ => true
  | .datetime _ => true
/-- Whether all items are readable. -/
def Value.areReadable : List Value → Bool
  | [] => true
  | item :: rest => item.isReadable && Value.areReadable rest
/-- Whether all entries are readable. -/
def Value.entriesReadable : List (String × Value) → Bool
  | [] => true
  | (_, value) :: rest => value.isReadable && Value.entriesReadable rest
end

/-- How a table came to be. -/
inductive Origin where
  /-- Opened by a header of its own. -/
  | header
  /-- Passed through by a header. -/
  | passed
  /-- Made by a dotted key. -/
  | dotted
  deriving DecidableEq, Repr

/-- A node of a document under construction. Of an array of tables the last one is open. -/
inductive Node where
  | leaf (value : Value)
  | table (origin : Origin) (entries : List (String × Node))
  | tables (elements : List (List (String × Node)))
  deriving Inhabited

abbrev Nodes := List (String × Node)

/-- A key that is not there yet. -/
def addKey (key : String) (node : Node) (nodes : Nodes) : Option Nodes :=
  if (nodes.lookup key).isSome then none else some (nodes ++ [(key, node)])

/-- Changes the last element of an array of tables. -/
def changeLast (f : Nodes → Option Nodes) : List Nodes → Option (List Nodes)
  | [] => none
  | [last] => (f last).map fun nodes => [nodes]
  | first :: rest => (changeLast f rest).map (first :: ·)

/-- Adds a value under a dotted key. The tables on the way must have been made by dotted keys, or
passed through by headers as long as the last one was not. -/
def addDotted : List String → String → Value → Nodes → Option Nodes
  | [], key, value, nodes => addKey key (.leaf value) nodes
  | step :: path, key, value, nodes =>
    match nodes.lookup step with
    | none => do
      let inner ← addDotted path key value []
      some (nodes ++ [(step, .table .dotted inner)])
    | some (.table .dotted inner) => do
      let inner ← addDotted path key value inner
      some (Entries.put step (.table .dotted inner) nodes)
    | some (.table .passed inner) => do
      if path.isEmpty then none
      else
        let inner ← addDotted path key value inner
        some (Entries.put step (.table .passed inner) nodes)
    | some (.tables elements) => do
      if path.isEmpty then none
      else
        let elements ← changeLast (addDotted path key value) elements
        some (Entries.put step (.tables elements) nodes)
    | some _ => none

/-- Changes the table that the path of a header leads to; missing tables are made on the way. -/
def changeAt : List String → (Nodes → Option Nodes) → Nodes → Option Nodes
  | [], f, nodes => f nodes
  | step :: path, f, nodes =>
    match nodes.lookup step with
    | none => do
      let inner ← changeAt path f []
      some (nodes ++ [(step, .table .passed inner)])
    | some (.table origin inner) => do
      let inner ← changeAt path f inner
      some (Entries.put step (.table origin inner) nodes)
    | some (.tables elements) => do
      let elements ← changeLast (changeAt path f) elements
      some (Entries.put step (.tables elements) nodes)
    | some (.leaf _) => none

/-- Opens a table by its header. -/
def openTable (key : String) (nodes : Nodes) : Option Nodes :=
  match nodes.lookup key with
  | none => some (nodes ++ [(key, .table .header [])])
  | some (.table .passed inner) => some (Entries.put key (.table .header inner) nodes)
  | some _ => none

/-- Opens the next element of an array of tables by its header. -/
def openElement (key : String) (nodes : Nodes) : Option Nodes :=
  match nodes.lookup key with
  | none => some (nodes ++ [(key, .tables [[]])])
  | some (.tables elements) => some (Entries.put key (.tables (elements ++ [[]])) nodes)
  | some _ => none

mutual
/-- The value of a finished node. -/
def Node.value : Node → Value
  | .leaf value => value
  | .table _ entries => .table (nodeEntries entries)
  | .tables elements => .array (nodeElements elements)
/-- The entries of a finished table. -/
def nodeEntries : List (String × Node) → List (String × Value)
  | [] => []
  | (key, node) :: rest => (key, node.value) :: nodeEntries rest
/-- The elements of a finished array of tables. -/
def nodeElements : List (List (String × Node)) → List Value
  | [] => []
  | entries :: rest => .table (nodeEntries entries) :: nodeElements rest
end

end AqlQuery.Toml

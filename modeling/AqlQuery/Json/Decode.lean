import AqlQuery.Fields
import AqlQuery.Json.Basic

/-!
# Reading typed data out of JSON values

A record is an object, in which unknown members are ignored, or an array of its fields in order. A
choice between named alternatives is the name alone, or an object with the name as its only key.
Whole numbers are never taken from a double.
-/

namespace AqlQuery.Json

def string? : Json → Option String
  | .string s => some s
  | _ => none

def bool? : Json → Option Bool
  | .bool b => some b
  | _ => none

def number? : Json → Option Number
  | .number n => some n
  | _ => none

def array? : Json → Option (List Json)
  | .array items => some items
  | _ => none

def members? : Json → Option (List (String × Json))
  | .object members => some members
  | _ => none

/-- A whole number below `bound`. -/
def natBelow? (bound : Nat) (value : Json) : Option Nat :=
  match value with
  | .number n => n.toNat?.filter (· < bound)
  | _ => none

def uint64? (value : Json) : Option UInt64 :=
  (value.natBelow? UInt64.size).map UInt64.ofNat

def uint32? (value : Json) : Option UInt32 :=
  (value.natBelow? UInt32.size).map UInt32.ofNat

def uint16? (value : Json) : Option UInt16 :=
  (value.natBelow? UInt16.size).map UInt16.ofNat

/-- A whole number from `low` to `high`. -/
def intBetween? (low high : Int) (value : Json) : Option Int :=
  match value with
  | .number n => n.toInt?.filter fun i => low ≤ i ∧ i ≤ high
  | _ => none

/-- An array with every item read by `f`. -/
def listOf? {α : Type} (f : Json → Option α) (value : Json) : Option (List α) :=
  value.array?.bind (·.mapM f)

/-- `null` is nothing; anything else is read by `f`. -/
def nullable? {α : Type} (f : Json → Option α) (value : Json) : Option (Option α) :=
  if value.isNull then some none else (f value).map some

/-- The fields of a record whose field names are `names`, by name. An array lists all of them. -/
def record? (names : List String) : Json → Option (Fields Json)
  | .object members => some (.ofPairs members)
  | .array items =>
    if items.length = names.length then some (.ofPairs (names.zip items)) else none
  | _ => none

/-- The fields of a record in which every field may be missing. An array lists the first ones. -/
def partialRecord? (names : List String) : Json → Option (Fields Json)
  | .object members => some (.ofPairs members)
  | .array items =>
    if items.length ≤ names.length then some (.ofPairs (names.zip items)) else none
  | _ => none

/-- The name of an alternative and its content, if it has one. -/
def variant? : Json → Option (String × Option Json)
  | .string name => some (name, none)
  | .object [(name, content)] => some (name, some content)
  | _ => none

/-- An alternative without content: the name alone, or with `null` for content. -/
def unitVariant? {α : Type} (alternatives : List (String × α)) (value : Json) : Option α :=
  match value.variant? with
  | some (name, none) => alternatives.lookup name
  | some (name, some .null) => alternatives.lookup name
  | _ => none

end AqlQuery.Json

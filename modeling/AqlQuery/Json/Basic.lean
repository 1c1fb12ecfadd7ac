import AqlQuery.Double
import AqlQuery.OrderedMap

/-!
# JSON values

Objects keep the order of their members, and integers are kept apart from doubles: `1` and `1.0`
are different numbers. Equality of values is decidable.
-/

namespace AqlQuery

/-- A JSON number: an integer between `-2 ^ 63` and `2 ^ 64 - 1`, or a finite double. -/
inductive Number where
  | int (n : Int)
  | double (x : Double)
  deriving DecidableEq, Repr, Inhabited

/-- A JSON value. -/
inductive Json where
  | null
  | bool (b : Bool)
  | number (n : Number)
  | string (s : String)
  | array (items : List Json)
  | object (members : List (String × Json))
  deriving Repr, Inhabited

namespace Number

/-- The number as a double. -/
def toDouble : Number → Double
  | .int n => Double.ofInt n
  | .double x => x

/-- A number without sign, fraction or exponent. -/
def toNat? : Number → Option Nat
  | .int (.ofNat n) => some n
  | _ => none

/-- A number without fraction or exponent. -/
def toInt? : Number → Option Int
  | .int n => some n
  | .double _ => none

/-- The text of a number. -/
def text : Number → String
  | .int n => Text.signedDecimal n
  | .double x => x.text

end Number

namespace Json

mutual
/-- Decides equality of two values. -/
def decEq : (a b : Json) → Decidable (a = b)
  | .null, b => by
    cases b <;> first | exact isTrue rfl | exact isFalse (by simp)
  | .bool x, b => by
    cases b with
    | bool y => exact if h : x = y then isTrue (by simp [h]) else isFalse (by simp [h])
    | _ => exact isFalse (by simp)
  | .number x, b => by
    cases b with
    | number y => exact if h : x = y then isTrue (by simp [h]) else isFalse (by simp [h])
    | _ => exact isFalse (by simp)
  | .string x, b => by
    cases b with
    | string y => exact if h : x = y then isTrue (by simp [h]) else isFalse (by simp [h])
    | _ => exact isFalse (by simp)
  | .array xs, b => by
    cases b with
    | array ys =>
      exact match decEqList xs ys with
        | isTrue h => isTrue (by simp [h])
        | isFalse h => isFalse (by simp [h])
    | _ => exact isFalse (by simp)
  | .object xs, b => by
    cases b with
    | object ys =>
      exact match decEqMembers xs ys with
        | isTrue h => isTrue (by simp [h])
        | isFalse h => isFalse (by simp [h])
    | _ => exact isFalse (by simp)
/-- Decides equality of two lists of values. -/
def decEqList : (xs ys : List Json) → Decidable (xs = ys)
  | [], [] => isTrue rfl
  | [], _ :: _ => isFalse (by simp)
  | _ :: _, [] => isFalse (by simp)
  | x :: xs, y :: ys =>
    match decEq x y, decEqList xs ys with
    | isTrue h, isTrue hs => isTrue (by simp [h, hs])
    | isFalse h, _ => isFalse (by simp [h])
    | _, isFalse hs => isFalse (by simp [hs])
/-- Decides equality of two lists of members. -/
def decEqMembers : (xs ys : List (String × Json)) → Decidable (xs = ys)
  | [], [] => isTrue rfl
  | [], _ :: _ => isFalse (by simp)
  | _ :: _, [] => isFalse (by simp)
  | (k, x) :: xs, (l, y) :: ys =>
    match decEq x y, decEqMembers xs ys with
    | isTrue h, isTrue hs =>
      if hk : k = l then isTrue (by simp [hk, h, hs]) else isFalse (by simp [hk])
    | isFalse h, _ => isFalse (by simp [h])
    | _, isFalse hs => isFalse (by simp [hs])
end

instance : DecidableEq Json := decEq

/-- Whether the value is `null`. -/
def isNull : Json → Bool
  | .null => true
  | _ => false

/-- The member of an object under a key. -/
def get? (key : String) : Json → Option Json
  | .object members => members.lookup key
  | _ => none

mutual
/-- Every object with repeated keys resolved: a key keeps its first place and takes its last
value. -/
def unique : Json → Json
  | .array items => .array (uniqueList items)
  | .object members => .object (Entries.ofList (uniqueMembers members))
  | value => value
/-- `unique` on every item. -/
def uniqueList : List Json → List Json
  | [] => []
  | item :: rest => item.unique :: uniqueList rest
/-- `unique` on the value of every member. -/
def uniqueMembers : List (String × Json) → List (String × Json)
  | [] => []
  | (key, value) :: rest => (key, value.unique) :: uniqueMembers rest
end

end Json

end AqlQuery

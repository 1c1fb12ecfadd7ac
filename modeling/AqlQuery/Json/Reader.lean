import AqlQuery.Json.Basic

/-!
# Reading JSON text

The reader works on a list of characters and hands back what it did not use. `document?` keeps
repeated keys as they stand in the text, `parse?` resolves them.

A number without fraction and exponent is an integer if it lies between `-2 ^ 63` and `2 ^ 64 - 1`
and is not `-0`; every other number is a double, and one too large for a double is refused. The
significand of a double has at most 64 bits: whole digits that do not fit raise the exponent, and
fraction digits that do not fit are dropped.
-/

namespace AqlQuery.Json

namespace Reader

/-! ## Numbers -/

/-- Largest significand that is read. -/
def maxSignificand : Nat := UInt64.size - 1

/-- Value of a decimal digit. -/
def digitValue (c : Char) : Nat := c.toNat - '0'.toNat

/-- Takes whole digits into a significand while they fit; the others are counted. -/
def wholeDigits (significand : Nat) : List Char → Nat × Nat
  | [] => (significand, 0)
  | d :: ds =>
    let next := significand * 10 + digitValue d
    if next ≤ maxSignificand then wholeDigits next ds else (significand, ds.length + 1)

/-- Takes fraction digits into a significand while they fit, and counts those taken. -/
def fractionDigits (significand : Nat) : List Char → Nat × Nat
  | [] => (significand, 0)
  | d :: ds =>
    let next := significand * 10 + digitValue d
    if next ≤ maxSignificand then
      let (s, n) := fractionDigits next ds
      (s, n + 1)
    else (significand, 0)

/-- Value of a list of decimal digits. -/
def digitsValue (ds : List Char) : Nat :=
  ds.foldl (fun n d => n * 10 + digitValue d) 0

/-- The parts of a number in the text. -/
structure NumberParts where
  negative : Bool
  whole : List Char
  fraction : List Char
  exponent : Int
  /-- There is neither a point nor an exponent mark. -/
  integral : Bool

/-- The number that its parts stand for. -/
def NumberParts.number? (p : NumberParts) : Option Number :=
  let n := digitsValue p.whole
  let (significand, dropped) := wholeDigits 0 p.whole
  let (significand, taken) := fractionDigits significand p.fraction
  let double? := (Double.ofScaled? p.negative significand
    (Int.ofNat dropped - Int.ofNat taken + p.exponent)).map Number.double
  if p.integral then
    if p.negative then
      if 0 < n ∧ n ≤ UInt64.size / 2 then some (.int (-Int.ofNat n)) else double?
    else if n ≤ maxSignificand then some (.int (Int.ofNat n))
    else double?
  else double?

/-- The sign and digits after an exponent mark. -/
def exponent? (cs : List Char) : Option (Int × List Char) :=
  let (negative, cs) := match cs with
    | '+' :: rest => (false, rest)
    | '-' :: rest => (true, rest)
    | _ => (false, cs)
  let ds := cs.takeWhile Char.isDigit
  if ds.isEmpty then none
  else
    let n := Int.ofNat (digitsValue ds)
    some (if negative then -n else n, cs.dropWhile Char.isDigit)

/-- The digits after a point, at least one; none and no point is fine too. -/
def fraction? : List Char → Option (Option (List Char) × List Char)
  | '.' :: rest =>
    let ds := rest.takeWhile Char.isDigit
    if ds.isEmpty then none else some (some ds, rest.dropWhile Char.isDigit)
  | cs => some (none, cs)

/-- A number at the front of the text. A leading zero stands alone. -/
def number? (cs : List Char) : Option (Number × List Char) := do
  let (negative, cs) := match cs with
    | '-' :: rest => (true, rest)
    | _ => (false, cs)
  let whole := cs.takeWhile Char.isDigit
  let rest := cs.dropWhile Char.isDigit
  if whole.isEmpty then none
  else if whole.head? = some '0' ∧ 1 < whole.length then none
  else
    let (fraction, rest) ← fraction? rest
    let (exponent, rest) ← match rest with
      | c :: after =>
        if c = 'e' ∨ c = 'E' then (exponent? after).map fun (e, r) => (some e, r)
        else some (none, rest)
      | [] => some (none, rest)
    let number ← NumberParts.number?
      { negative, whole, fraction := fraction.getD [], exponent := exponent.getD 0
        integral := fraction.isNone && exponent.isNone }
    some (number, rest)

/-! ## Texts in quotes -/

/-- Value of a hexadecimal digit in either case. -/
def hexValue? (c : Char) : Option Nat :=
  if c.isDigit then some (c.toNat - '0'.toNat)
  else if 'a' ≤ c ∧ c ≤ 'f' then some (c.toNat - 'a'.toNat + 10)
  else if 'A' ≤ c ∧ c ≤ 'F' then some (c.toNat - 'A'.toNat + 10)
  else none

/-- Value of four hexadecimal digits. -/
def hexFour? (a b c d : Char) : Option Nat := do
  let a ← hexValue? a
  let b ← hexValue? b
  let c ← hexValue? c
  let d ← hexValue? d
  some (((a * 16 + b) * 16 + c) * 16 + d)

/-- The character that a one-letter escape stands for. -/
def simpleEscape? : Char → Option Char
  | '"' => some '"'
  | '\\' => some '\\'
  | '/' => some '/'
  | 'b' => some '\x08'
  | 'f' => some '\x0c'
  | 'n' => some '\n'
  | 'r' => some '\r'
  | 't' => some '\t'
  | _ => none

/-- First half of a pair of code units. -/
def isHighHalf (n : Nat) : Bool := 0xD800 ≤ n && n < 0xDC00

/-- Second half of a pair of code units. -/
def isLowHalf (n : Nat) : Bool := 0xDC00 ≤ n && n < 0xE000

/-- The rest of a text after its opening quote. Control characters, unknown escapes and halves of a
pair without the other half are refused. -/
def stringBody? : List Char → Option (List Char × List Char)
  | [] => none
  | '"' :: rest => some ([], rest)
  | '\\' :: 'u' :: a :: b :: c :: d :: rest =>
    match hexFour? a b c d with
    | none => none
    | some n =>
      if isHighHalf n then
        match rest with
        | '\\' :: 'u' :: e :: f :: g :: h :: after =>
          match hexFour? e f g h with
          | none => none
          | some m =>
            if isLowHalf m then
              (stringBody? after).map fun (cs, r) =>
                (Char.ofNat (0x10000 + (n - 0xD800) * 0x400 + (m - 0xDC00)) :: cs, r)
            else none
        | _ => none
      else if isLowHalf n then none
      else (stringBody? rest).map fun (cs, r) => (Char.ofNat n :: cs, r)
  | '\\' :: e :: rest =>
    match simpleEscape? e with
    | none => none
    | some c => (stringBody? rest).map fun (cs, r) => (c :: cs, r)
  | c :: rest =>
    if c.toNat < 0x20 ∨ c = '\\' then none
    else (stringBody? rest).map fun (cs, r) => (c :: cs, r)

/-! ## Values -/

/-- Blanks between the parts of a JSON text. -/
def isSpace (c : Char) : Bool :=
  c == ' ' || c == '\n' || c == '\t' || c == '\r'

/-- Drops blanks. -/
def skipSpace (cs : List Char) : List Char := cs.dropWhile isSpace

/-- How deep arrays and objects may be nested, plus one. -/
def depthLimit : Nat := 128

mutual
/-- A value at the front of the text. -/
def value? : Nat → Nat → List Char → Option (Json × List Char)
  | 0, _, _ => none
  | fuel + 1, depth, cs =>
    match skipSpace cs with
    | 'n' :: 'u' :: 'l' :: 'l' :: rest => some (.null, rest)
    | 't' :: 'r' :: 'u' :: 'e' :: rest => some (.bool true, rest)
    | 'f' :: 'a' :: 'l' :: 's' :: 'e' :: rest => some (.bool false, rest)
    | '"' :: rest => (stringBody? rest).map fun (s, r) => (.string (String.ofList s), r)
    | '[' :: rest =>
      if depth ≤ 1 then none
      else
        match skipSpace rest with
        | ']' :: after => some (.array [], after)
        | _ => (items? fuel (depth - 1) rest).map fun (items, r) => (.array items, r)
    | '{' :: rest =>
      if depth ≤ 1 then none
      else
        match skipSpace rest with
        | '}' :: after => some (.object [], after)
        | _ => (members? fuel (depth - 1) rest).map fun (members, r) => (.object members, r)
    | rest => (number? rest).map fun (n, r) => (.number n, r)
/-- The items of an array up to its closing bracket, at least one. -/
def items? : Nat → Nat → List Char → Option (List Json × List Char)
  | 0, _, _ => none
  | fuel + 1, depth, cs =>
    match value? fuel depth cs with
    | none => none
    | some (item, rest) =>
      match skipSpace rest with
      | ',' :: after => (items? fuel depth after).map fun (items, r) => (item :: items, r)
      | ']' :: after => some ([item], after)
      | _ => none
/-- The members of an object up to its closing brace, at least one. -/
def members? : Nat → Nat → List Char → Option (List (String × Json) × List Char)
  | 0, _, _ => none
  | fuel + 1, depth, cs =>
    match skipSpace cs with
    | '"' :: afterQuote =>
      match stringBody? afterQuote with
      | none => none
      | some (key, rest) =>
        match skipSpace rest with
        | ':' :: afterColon =>
          match value? fuel depth afterColon with
          | none => none
          | some (value, rest) =>
            let entry := (String.ofList key, value)
            match skipSpace rest with
            | ',' :: after => (members? fuel depth after).map fun (ms, r) => (entry :: ms, r)
            | '}' :: after => some ([entry], after)
            | _ => none
        | _ => none
    | _ => none
end

end Reader

/-! ## Whole texts -/

/-- A text that is one number and nothing else. -/
def numberOnly? (s : String) : Option Number :=
  match Reader.number? s.toList with
  | some (n, []) => some n
  | _ => none

/-- A text that is one value, with repeated keys as they stand. -/
def document? (s : String) : Option Json :=
  let cs := s.toList
  match Reader.value? (2 * cs.length + 2) Reader.depthLimit cs with
  | some (value, rest) => if (Reader.skipSpace rest).isEmpty then some value else none
  | none => none

/-- A text that is one value. -/
def parse? (s : String) : Option Json :=
  (document? s).map unique

end AqlQuery.Json

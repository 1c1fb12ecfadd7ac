import AqlQuery.Double
import AqlQuery.Json.Reader
import AqlQuery.Toml.Value

/-!
# TOML texts, numbers and dates

Readers work on a list of characters and hand back what they did not use.
-/

namespace AqlQuery.Toml

/-- Blanks within a line. -/
def isBlank (c : Char) : Bool := c == ' ' || c == '\t'

def skipBlanks (cs : List Char) : List Char := cs.dropWhile isBlank

/-- Characters of comments and of texts within a line: no control character but the tab. -/
def isTextChar (c : Char) : Bool :=
  c == '\t' || (0x20 ≤ c.toNat && c.toNat != 0x7F)

/-- Drops one line end, if there is one. -/
def dropNewline : List Char → List Char
  | '\n' :: rest => rest
  | '\r' :: '\n' :: rest => rest
  | cs => cs

/-! ## Texts -/

/-- A code point that is a character. -/
def scalar? (n : Nat) : Option Char :=
  if n < 0xD800 ∨ (0xE000 ≤ n ∧ n < 0x110000) then some (Char.ofNat n) else none

def simpleEscape? : Char → Option Char
  | 'b' => some '\x08'
  | 'e' => some '\x1b'
  | 't' => some '\t'
  | 'n' => some '\n'
  | 'f' => some '\x0c'
  | 'r' => some '\r'
  | '"' => some '"'
  | '\\' => some '\\'
  | _ => none

/-- The character of an escape, after its backslash. -/
def escape? : List Char → Option (Char × List Char)
  | 'x' :: a :: b :: rest => do
    let n ← Json.Reader.hexFour? '0' '0' a b
    let ch ← scalar? n
    some (ch, rest)
  | 'u' :: a :: b :: c :: d :: rest => do
    let n ← Json.Reader.hexFour? a b c d
    let ch ← scalar? n
    some (ch, rest)
  | 'U' :: a :: b :: c :: d :: e :: f :: g :: h :: rest => do
    let high ← Json.Reader.hexFour? a b c d
    let low ← Json.Reader.hexFour? e f g h
    let ch ← scalar? (high * 0x10000 + low)
    some (ch, rest)
  | e :: rest => (simpleEscape? e).map fun ch => (ch, rest)
  | [] => none

/-- The rest of a text in double quotes on one line. -/
def basicBody? : Nat → List Char → Option (List Char × List Char)
  | 0, _ => none
  | fuel + 1, cs =>
    match cs with
    | [] => none
    | '"' :: rest => some ([], rest)
    | '\\' :: rest => do
      let (c, rest) ← escape? rest
      let (body, rest) ← basicBody? fuel rest
      some (c :: body, rest)
    | c :: rest =>
      if isTextChar c then do
        let (body, rest) ← basicBody? fuel rest
        some (c :: body, rest)
      else none

/-- The rest of a text in single quotes on one line. -/
def literalBody? : List Char → Option (List Char × List Char)
  | [] => none
  | '\x27' :: rest => some ([], rest)
  | c :: rest =>
    if isTextChar c then (literalBody? rest).map fun (body, rest) => (c :: body, rest) else none

/-- Up to two quotes may stand right before the three that close a text of several lines. -/
def closingQuotes (q : Char) : List Char → List Char × List Char
  | a :: b :: rest =>
    if a = q ∧ b = q then ([q, q], rest)
    else if a = q then ([q], b :: rest)
    else ([], a :: b :: rest)
  | [a] => if a = q then ([q], []) else ([], [a])
  | [] => ([], [])

/-- Drops blanks and line ends. -/
def skipLines : List Char → List Char
  | '\r' :: '\n' :: rest => skipLines rest
  | c :: rest => if isBlank c || c == '\n' then skipLines rest else c :: rest
  | [] => []

/-- What follows a backslash at the end of a line, up to the next character that is not blank. -/
def continuation? (cs : List Char) : Option (List Char) :=
  match skipBlanks cs with
  | '\n' :: rest => some (skipLines rest)
  | '\r' :: '\n' :: rest => some (skipLines rest)
  | _ => none

/-- The rest of a text of several lines in double quotes. -/
def multiBasicBody? : Nat → List Char → Option (List Char × List Char)
  | 0, _ => none
  | fuel + 1, cs =>
    match cs with
    | [] => none
    | '"' :: '"' :: '"' :: rest => some (closingQuotes '"' rest)
    | '\\' :: rest =>
      match continuation? rest with
      | some rest => multiBasicBody? fuel rest
      | none => do
        let (c, rest) ← escape? rest
        let (body, rest) ← multiBasicBody? fuel rest
        some (c :: body, rest)
    | '\n' :: rest => (multiBasicBody? fuel rest).map fun (body, rest) => ('\n' :: body, rest)
    | '\r' :: '\n' :: rest =>
      (multiBasicBody? fuel rest).map fun (body, rest) => ('\r' :: '\n' :: body, rest)
    | c :: rest =>
      if isTextChar c then (multiBasicBody? fuel rest).map fun (body, rest) => (c :: body, rest)
      else none

/-- The rest of a text of several lines in single quotes. -/
def multiLiteralBody? : List Char → Option (List Char × List Char)
  | [] => none
  | '\x27' :: '\x27' :: '\x27' :: rest => some (closingQuotes '\x27' rest)
  | '\n' :: rest => (multiLiteralBody? rest).map fun (body, rest) => ('\n' :: body, rest)
  | '\r' :: '\n' :: rest =>
    (multiLiteralBody? rest).map fun (body, rest) => ('\r' :: '\n' :: body, rest)
  | c :: rest =>
    if isTextChar c then (multiLiteralBody? rest).map fun (body, rest) => (c :: body, rest)
    else none

/-! ## Numbers -/

/-- Digits of a base with single underscores between them; the digits alone. -/
def digitRun? (isDigit : Char → Bool) : List Char → Option (List Char)
  | [] => none
  | [d] => if isDigit d then some [d] else none
  | d :: '_' :: rest => if isDigit d then (digitRun? isDigit rest).map (d :: ·) else none
  | d :: rest => if isDigit d then (digitRun? isDigit rest).map (d :: ·) else none

def digitsIn (base : Nat) (ds : List Char) : Nat :=
  ds.foldl (fun n d => n * base + (Json.Reader.hexValue? d).getD 0) 0

def isHexDigit (c : Char) : Bool := (Json.Reader.hexValue? c).isSome

def isOctalDigit (c : Char) : Bool := '0' ≤ c && c ≤ '7'

def isBinaryDigit (c : Char) : Bool := c == '0' || c == '1'

/-- Whole digits without a leading zero. -/
def wholeRun? (cs : List Char) : Option (List Char) :=
  match digitRun? Char.isDigit cs with
  | some ('0' :: _ :: _) => none
  | found => found

def isSign (c : Char) : Bool := c == '+' || c == '-'

/-- Splits off a sign. -/
def splitSign : List Char → Bool × List Char
  | '+' :: rest => (false, rest)
  | '-' :: rest => (true, rest)
  | cs => (false, cs)

def isExponentMark (c : Char) : Bool := c == 'e' || c == 'E'

/-- The integer of digits under a sign. -/
def signed (negative : Bool) (ds : List Char) : Int :=
  let n := Int.ofNat (digitsIn 10 ds)
  if negative then -n else n

/-- What follows the digits of a number: nothing, or a mark and the exponent. -/
def exponent? : List Char → Option Int
  | [] => some 0
  | _ :: cs =>
    let (negative, ds) := splitSign cs
    (digitRun? Char.isDigit ds).map (signed negative)

/-- A decimal number in all its forms. -/
def decimal? (token : List Char) : Option Value :=
  let (negative, body) := splitSign token
  let whole := body.takeWhile fun c => c != '.' && !isExponentMark c
  let float (ds : List Char) (e : Int) : Value :=
    .float (String.ofList token) (Double.overflows (digitsIn 10 ds) e)
  match wholeRun? whole, body.drop whole.length with
  | some ds, [] => some (.integer (signed negative ds))
  | some ds, '.' :: rest => do
    let fraction := rest.takeWhile fun c => !isExponentMark c
    let fs ← digitRun? Char.isDigit fraction
    let e ← exponent? (rest.drop fraction.length)
    some (float (ds ++ fs) (e - Int.ofNat fs.length))
  | some ds, rest => (exponent? rest).map (float ds)
  | none, _ => none

/-- The numbers that are written as words. -/
def isSpecialFloat (token : List Char) : Bool :=
  let word := (splitSign token).2
  word == ['i', 'n', 'f'] || word == ['n', 'a', 'n']

def number? (token : List Char) : Option Value :=
  match token with
  | '0' :: 'x' :: ds => (digitRun? isHexDigit ds).map fun ds => .integer (digitsIn 16 ds)
  | '0' :: 'o' :: ds => (digitRun? isOctalDigit ds).map fun ds => .integer (digitsIn 8 ds)
  | '0' :: 'b' :: ds => (digitRun? isBinaryDigit ds).map fun ds => .integer (digitsIn 2 ds)
  | _ =>
    if isSpecialFloat token then some (.float (String.ofList token) false) else decimal? token

/-! ## Dates and times -/

/-- Two digits at the front. -/
def twoDigits? : List Char → Option (Nat × List Char)
  | a :: b :: rest =>
    if a.isDigit && b.isDigit then some (digitsIn 10 [a, b], rest) else none
  | _ => none

def daysInMonth (year month : Nat) : Nat :=
  if month = 2 then
    if year % 4 = 0 ∧ (year % 100 ≠ 0 ∨ year % 400 = 0) then 29 else 28
  else if month = 4 ∨ month = 6 ∨ month = 9 ∨ month = 11 then 30
  else 31

/-- `YYYY-MM-DD` of the calendar at the front. -/
def date? (cs : List Char) : Option (List Char) := do
  let (century, rest) ← twoDigits? cs
  let (years, rest) ← twoDigits? rest
  let year := century * 100 + years
  match rest with
  | '-' :: rest =>
    let (month, rest) ← twoDigits? rest
    match rest with
    | '-' :: rest =>
      let (day, rest) ← twoDigits? rest
      if 1 ≤ month ∧ month ≤ 12 ∧ 1 ≤ day ∧ day ≤ daysInMonth year month then some rest else none
    | _ => none
  | _ => none

/-- A fraction of a second, if there is a point. -/
def secondFraction? : List Char → Option (List Char)
  | '.' :: rest =>
    if (rest.takeWhile Char.isDigit).isEmpty then none else some (rest.dropWhile Char.isDigit)
  | cs => some cs

/-- `HH:MM` at the front. -/
def hourMinute? (cs : List Char) : Option (List Char) := do
  let (hour, rest) ← twoDigits? cs
  match rest with
  | ':' :: rest =>
    let (minute, rest) ← twoDigits? rest
    if hour ≤ 23 ∧ minute ≤ 59 then some rest else none
  | _ => none

/-- `HH:MM` or `HH:MM:SS` at the front, the latter with an optional fraction; a leap second is
allowed. -/
def time? (cs : List Char) : Option (List Char) := do
  let rest ← hourMinute? cs
  match rest with
  | ':' :: rest =>
    let (second, rest) ← twoDigits? rest
    if second ≤ 60 then secondFraction? rest else none
  | rest => some rest

/-- Nothing, or a distance from universal time. -/
def isOffset : List Char → Bool
  | [] => true
  | ['Z'] => true
  | ['z'] => true
  | c :: rest => isSign c && hourMinute? rest == some []

def isDatetime (token : List Char) : Bool :=
  match time? token with
  | some [] => true
  | _ =>
    match date? token with
    | some [] => true
    | some (c :: rest) =>
      (c == 'T' || c == 't' || c == ' ') &&
        match time? rest with
        | some offset => isOffset offset
        | none => false
    | none => false

/-! ## Unquoted values -/

/-- Characters of values that are not in quotes. -/
def isTokenChar (c : Char) : Bool :=
  c.isAlphanum || c == '_' || c == '+' || c == '-' || c == '.' || c == ':'

/-- The characters of an unquoted value. A blank may divide a date from a time. -/
def token (cs : List Char) : List Char × List Char :=
  let first := cs.takeWhile isTokenChar
  let rest := cs.dropWhile isTokenChar
  match date? first, rest with
  | some [], ' ' :: after =>
    match hourMinute? after with
    | some _ => (first ++ ' ' :: after.takeWhile isTokenChar, after.dropWhile isTokenChar)
    | none => (first, rest)
  | _, _ => (first, rest)

/-- An unquoted value. -/
def unquoted? (cs : List Char) : Option (Value × List Char) :=
  let (word, rest) := token cs
  if word = ['t', 'r', 'u', 'e'] then some (.boolean true, rest)
  else if word = ['f', 'a', 'l', 's', 'e'] then some (.boolean false, rest)
  else if isDatetime word then some (.datetime (String.ofList word), rest)
  else (number? word).map fun v => (v, rest)

end AqlQuery.Toml

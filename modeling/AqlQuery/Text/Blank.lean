/-!
# Blanks and trimming

White space is the Unicode property `White_Space`: 25 characters, among them the ideographic space
and the no-break space, and not the zero-width ones. Names, operators and settings are all trimmed
by this one rule.
-/

namespace AqlQuery.Text

/-- The characters of the Unicode property `White_Space`. -/
def isBlank (c : Char) : Bool :=
  let n := c.toNat
  (9 ≤ n && n ≤ 13) || n == 0x20 || n == 0x85 || n == 0xA0 || n == 0x1680 ||
    (0x2000 ≤ n && n ≤ 0x200A) || n == 0x2028 || n == 0x2029 || n == 0x202F || n == 0x205F ||
    n == 0x3000

/-- Drops the longest run of characters satisfying `p` at either end. -/
def stripChars (p : Char → Bool) (cs : List Char) : List Char :=
  ((cs.dropWhile p).reverse.dropWhile p).reverse

/-- Drops the characters satisfying `p` at both ends of a text. -/
def strip (p : Char → Bool) (s : String) : String :=
  String.ofList (stripChars p s.toList)

/-- Drops the characters satisfying `p` at the end of a text. -/
def stripEnd (p : Char → Bool) (s : String) : String :=
  String.ofList (s.toList.reverse.dropWhile p).reverse

/-- Drops the white space at both ends of a text. -/
def trim (s : String) : String :=
  strip isBlank s

/-- Lower case of the letters `A` to `Z`; every other character stays. -/
def lower (s : String) : String :=
  String.ofList (s.toList.map Char.toLower)

/-- The decimal digits of a number, without leading zeros. -/
def decimal (n : Nat) : String :=
  String.ofList (Nat.toDigits 10 n)

/-- The decimal digits of an integer, after a minus sign if it is negative. -/
def signedDecimal : Int → String
  | .ofNat n => decimal n
  | .negSucc n => "-" ++ decimal (n + 1)

/-- What follows `start` in `s`, if `s` begins with it. -/
def dropStart? (start s : String) : Option String :=
  if start.toList.isPrefixOf s.toList then
    some (String.ofList (s.toList.drop start.toList.length))
  else
    none

@[simp] theorem stripChars_nil (p : Char → Bool) : stripChars p [] = [] := rfl

end AqlQuery.Text

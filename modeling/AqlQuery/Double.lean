import AqlQuery.Text.Blank

/-!
# Binary floating-point numbers

A double is kept as its 64 bits, and all arithmetic on it is exact arithmetic on natural numbers:
a positive rational is rounded to the nearest magnitude, a tie going to the even one. Magnitudes are
coded so that `m · 2 ^ q` with `-1074 ≤ q` is `(q + 1074) · 2 ^ 52 + m`: the code of the next larger
magnitude is the successor.

`Double.ofScaled?` reads a decimal with a 64-bit significand: the significand is rounded once, and
the power of ten is applied by one rounded multiplication or division.
-/

namespace AqlQuery

/-- A double by its bit pattern: sign, eleven bits of exponent, 52 bits of fraction. -/
structure Double where
  bits : UInt64
  deriving DecidableEq, Repr, Inhabited

namespace Double

/-- Number of fraction bits. -/
def fractionBits : Nat := 52

/-- Least exponent of the unit in the last place; `2 ^ (-1074)` is the least positive double. -/
def minExponent : Nat := 1074

/-- Weight of the sign bit. -/
def signWeight : Nat := UInt64.size / 2

/-- Code of the first magnitude that is not finite. -/
def infiniteCode : Nat := 0x7FF0000000000000

/-! ## Rounding a rational -/

/-- The quotient `num / den` rounded to a whole number, a tie going to the even one. -/
def roundDiv (num den : Nat) : Nat :=
  let q := num / den
  let r := num % den
  if 2 * r < den then q
  else if den < 2 * r then q + 1
  else q + q % 2

/-- Exponent `e` with `2 ^ e ≤ num / den < 2 ^ (e + 1)`, for positive `num` and `den`. -/
def binaryExponent (num den : Nat) : Int :=
  let k : Int := Int.ofNat (Nat.log2 num) - Int.ofNat (Nat.log2 den)
  let reached := if 0 ≤ k then den * Nat.pow 2 k.toNat ≤ num else den ≤ num * Nat.pow 2 (-k).toNat
  if reached then k else k - 1

/-- Code of the magnitude nearest to `num / den`; at least `infiniteCode` if that is too large. -/
def roundRatio (num den : Nat) : Nat :=
  if num = 0 then 0
  else
    let q := max (binaryExponent num den - fractionBits) (-minExponent)
    let m := if 0 ≤ q then roundDiv num (den * Nat.pow 2 q.toNat)
      else roundDiv (num * Nat.pow 2 (-q).toNat) den
    (q + minExponent).toNat * Nat.pow 2 fractionBits + m

/-- The rational that a magnitude code stands for, as numerator and denominator. -/
def ratio (code : Nat) : Nat × Nat :=
  let field := code / Nat.pow 2 fractionBits
  let fraction := code % Nat.pow 2 fractionBits
  if field = 0 then (fraction, Nat.pow 2 minExponent)
  else
    let m := fraction + Nat.pow 2 fractionBits
    if field ≤ minExponent then (m, Nat.pow 2 (minExponent + 1 - field))
    else (m * Nat.pow 2 (field - (minExponent + 1)), 1)

/-- Product of two magnitudes, rounded. -/
def mulCode (a b : Nat) : Nat :=
  let (an, ad) := ratio a
  let (bn, bd) := ratio b
  roundRatio (an * bn) (ad * bd)

/-- Quotient of two magnitudes, rounded. -/
def divCode (a b : Nat) : Nat :=
  let (an, ad) := ratio a
  let (bn, bd) := ratio b
  roundRatio (an * bd) (ad * bn)

/-! ## Reading decimals -/

/-- Largest power of ten that is a finite double. -/
def maxTen : Nat := 308

/-- Code of the double nearest to `10 ^ k`. -/
def tenCode (k : Nat) : Nat := roundRatio (Nat.pow 10 k) 1

/-- A finite magnitude code, or nothing. -/
def finite? (code : Nat) : Option Nat :=
  if code < infiniteCode then some code else none

/-- Applies `10 ^ e` to a magnitude. An exponent below `-308` first takes off `10 ^ 308`, each time
with a rounding; a significand of 64 bits has vanished after the second time. -/
def scaleTen : Nat → Nat → Int → Option Nat
  | _, 0, _ => some 0
  | 0, _, _ => some 0
  | fuel + 1, code, e =>
    if 0 ≤ e then
      if e ≤ maxTen then finite? (mulCode code (tenCode e.toNat)) else none
    else if -e ≤ maxTen then some (divCode code (tenCode (-e).toNat))
    else scaleTen fuel (divCode code (tenCode maxTen)) (e + maxTen)

/-- A double from its sign and the code of its magnitude. -/
def ofCode (negative : Bool) (code : Nat) : Double :=
  ⟨UInt64.ofNat (if negative then code + signWeight else code)⟩

/-- The double that `significand · 10 ^ e` is read as; nothing if it is not finite. -/
def ofScaled? (negative : Bool) (significand : Nat) (e : Int) : Option Double :=
  (scaleTen 4 (roundRatio significand 1) e).map (ofCode negative)

/-- The double nearest to an integer of at most 64 bits. -/
def ofInt (n : Int) : Double :=
  ofCode (decide (n < 0)) (roundRatio n.natAbs 1)

/-- Whether `significand · 10 ^ e` is nearer to infinity than to a finite double. Only numbers of
309 digits before the point need the comparison. -/
def overflows (significand : Nat) (e : Int) : Bool :=
  let size := Int.ofNat (Nat.toDigits 10 significand).length + e
  if significand = 0 ∨ size < 309 then false
  else if 309 < size then true
  else
    let ten (k : Int) : Nat := Nat.pow 10 k.toNat
    decide (infiniteCode ≤ roundRatio (significand * ten e) (ten (-e)))

/-- The sign bit. -/
def isNegative (x : Double) : Bool :=
  decide (signWeight ≤ x.bits.toNat)

/-- Code of the magnitude. -/
def code (x : Double) : Nat :=
  x.bits.toNat % signWeight

/-! ## Shortest digits -/

/-- The reals that round to a magnitude, in quarters of its unit in the last place: the middle, the
two ends, the unit as a ratio, and whether the ends belong to it. -/
structure Interval where
  middle : Nat
  low : Nat
  high : Nat
  unitNum : Nat
  unitDen : Nat
  closed : Bool

/-- The interval of a positive finite magnitude. Below a power of two the gap is half as wide. -/
def interval (code : Nat) : Interval :=
  let field := code / Nat.pow 2 fractionBits
  let fraction := code % Nat.pow 2 fractionBits
  let m := if field = 0 then fraction else fraction + Nat.pow 2 fractionBits
  let e : Int := Int.ofNat (max field 1) - Int.ofNat (minExponent + 3)
  { middle := 4 * m
    low := if fraction = 0 && 1 < field then 4 * m - 1 else 4 * m - 2
    high := 4 * m + 2
    unitNum := Nat.pow 2 e.toNat
    unitDen := Nat.pow 2 (-e).toNat
    closed := m % 2 == 0 }

/-- `10 ^ e` as numerator and denominator. -/
def powTen (e : Int) : Nat × Nat := (Nat.pow 10 e.toNat, Nat.pow 10 (-e).toNat)

/-- Decimal exponent `e` with `10 ^ e ≤ num / den < 10 ^ (e + 1)`, for positive `num` and `den`. -/
def decimalExponent (num den : Nat) : Int :=
  let guess := (binaryExponent num den * 30103).fdiv 100000
  let atLeast (e : Int) : Bool := decide ((powTen e).1 * den ≤ num * (powTen e).2)
  if atLeast (guess + 1) then guess + 1 else if atLeast guess then guess else guess - 1

/-- The decimal of at most `n` digits, as a multiple of `10 ^ (e - n + 1)`, that lies in the
interval and is nearest to its middle, if there is one. Of two equally near ones the even one is
taken. -/
def digitsWithin? (i : Interval) (e : Int) (n : Nat) : Option Nat :=
  let (stepNum, stepDen) := powTen (e - n + 1)
  -- x quarters and k steps compare as x · num and k · den
  let num := i.unitNum * stepDen
  let den := i.unitDen * stepNum
  let inside (k : Nat) : Bool :=
    if i.closed then decide (i.low * num ≤ k * den) && decide (k * den ≤ i.high * num)
    else decide (i.low * num < k * den) && decide (k * den < i.high * num)
  let below := i.middle * num / den
  let gapBelow := i.middle * num - below * den
  let gapAbove := (below + 1) * den - i.middle * num
  match inside below, inside (below + 1) with
  | true, true =>
    if gapBelow < gapAbove then some below
    else if gapAbove < gapBelow then some (below + 1)
    else some (below + below % 2)
  | true, false => some below
  | false, true => some (below + 1)
  | false, false => none

/-- The fewest significant digits that read back as the magnitude, and the decimal exponent of the
first of them. Seventeen digits always suffice. -/
def shortest (code : Nat) : List Char × Int :=
  let i := interval code
  let e := decimalExponent (i.middle * i.unitNum) i.unitDen
  let found := (List.range 17).findSome? fun n =>
    (digitsWithin? i e (n + 1)).map fun k => (Nat.toDigits 10 k, n + 1)
  match found with
  | none => (['0'], 0)
  | some (ds, n) =>
    -- nine nines rounded up carry into a further digit
    let first := e + (Int.ofNat ds.length - Int.ofNat n)
    ((ds.reverse.dropWhile (· == '0')).reverse, first)

/-! ## Text -/

/-- How doubles are written: the exponents of the first digit that are written plainly. -/
structure Layout where
  plainFrom : Int
  plainTo : Int

/-- Plain notation from five zeros after the point up to sixteen digits before it. -/
def layout : Layout := ⟨-5, 15⟩

/-- Digits in plain notation, always with a fraction. -/
def plain (ds : List Char) (e : Int) : List Char :=
  if e < 0 then '0' :: '.' :: (List.replicate ((-e).toNat - 1) '0' ++ ds)
  else
    let whole := e.toNat + 1
    let digits := ds ++ List.replicate (whole - ds.length) '0'
    let fraction := digits.drop whole
    digits.take whole ++ '.' :: (if fraction.isEmpty then ['0'] else fraction)

/-- Digits with an exponent, which always has a sign. -/
def scientific (ds : List Char) (e : Int) : List Char :=
  let mantissa := match ds with
    | [] => ['0']
    | [d] => [d]
    | d :: rest => d :: '.' :: rest
  mantissa ++ 'e' :: (if e < 0 then '-' else '+') :: Nat.toDigits 10 e.natAbs

/-- The text of a finite double: the fewest digits that read back. -/
def text (x : Double) : String :=
  let sign := if x.isNegative then ['-'] else []
  if x.code = 0 then String.ofList (sign ++ ['0', '.', '0'])
  else
    let (ds, e) := shortest x.code
    let body := if layout.plainFrom ≤ e && e ≤ layout.plainTo then plain ds e else scientific ds e
    String.ofList (sign ++ body)

end Double

end AqlQuery

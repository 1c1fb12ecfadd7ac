import AqlQuery.Json.Printer
import AqlQuery.Json.Reader

/-!
# Texts in quotes

What is written in quotes is read back, whatever stands in it: a quote and a backslash are escaped,
so the first quote that is not ends the text, and control characters are written by their number.
-/

namespace AqlQuery.Json.Reader

theorem hexValue?_hexDigit (n : Nat) : hexValue? (hexDigit n) = some (n % 16) := by
  have hall : ∀ d : Fin 16, hexValue? (Nat.digitChar d) = some d.val := by decide
  exact hall ⟨n % 16, Nat.mod_lt n (by decide)⟩

/-- The number of a control character has two digits. -/
theorem hexFour?_control {n : Nat} (h : n < 0x20) :
    hexFour? '0' '0' (hexDigit (n / 16)) (hexDigit n) = some n := by
  have hzero : hexValue? '0' = some 0 := rfl
  have hvalue : n / 16 % 16 * 16 + n % 16 = n := by omega
  simp [hexFour?, hzero, hexValue?_hexDigit, hvalue]

/-! ## One character -/

theorem stringBody?_plain {c : Char} (hquote : c ≠ '"') (hslash : c ≠ '\\')
    (hcontrol : ¬ c.toNat < 0x20) (rest : List Char) :
    stringBody? (c :: rest) = (stringBody? rest).map fun p => (c :: p.1, p.2) := by
  have hneither : ¬ (c.toNat < 0x20 ∨ c = '\\') := by simp [hcontrol, hslash]
  rw [stringBody?]
  · rw [if_neg hneither]
  -- none of the cases before the last one applies
  · exact hquote
  · exact fun _ _ _ _ _ he => absurd he hslash
  · exact fun _ _ he => absurd he hslash

theorem stringBody?_simple {e c : Char} (he : e ≠ 'u') (h : simpleEscape? e = some c)
    (rest : List Char) :
    stringBody? ('\\' :: e :: rest) = (stringBody? rest).map fun p => (c :: p.1, p.2) := by
  rw [stringBody?]
  · rw [h]
  · exact fun _ _ _ _ _ hu => absurd hu he

theorem stringBody?_control {c : Char} (h : c.toNat < 0x20) (rest : List Char) :
    stringBody? ('\\' :: 'u' :: '0' :: '0' :: hexDigit (c.toNat / 16) :: hexDigit c.toNat :: rest) =
      (stringBody? rest).map fun p => (c :: p.1, p.2) := by
  -- a control character is far below the halves of pairs
  have hhigh : isHighHalf c.toNat = false := by
    simp [isHighHalf]
    omega
  have hlow : isLowHalf c.toNat = false := by
    simp [isLowHalf]
    omega
  rw [stringBody?]
  simp [hexFour?_control h, hhigh, hlow]

/-- A character is read back from the way it is written. -/
theorem stringBody?_escapeChar (c : Char) (rest : List Char) :
    stringBody? (escapeChar c ++ rest) = (stringBody? rest).map fun p => (c :: p.1, p.2) := by
  by_cases hquote : c = '"'
  · subst hquote
    exact stringBody?_simple (by decide) rfl rest
  by_cases hslash : c = '\\'
  · subst hslash
    exact stringBody?_simple (by decide) rfl rest
  unfold escapeChar
  rw [if_neg hquote, if_neg hslash]
  -- five control characters have a letter of their own
  split
  next h => exact h ▸ stringBody?_simple (e := 'n') (by decide) rfl rest
  split
  next h => exact h ▸ stringBody?_simple (e := 'r') (by decide) rfl rest
  split
  next h => exact h ▸ stringBody?_simple (e := 't') (by decide) rfl rest
  split
  next h => exact h ▸ stringBody?_simple (e := 'b') (by decide) rfl rest
  split
  next h => exact h ▸ stringBody?_simple (e := 'f') (by decide) rfl rest
  split
  next h => exact stringBody?_control h rest
  next h => exact stringBody?_plain hquote hslash h rest

/-! ## Whole texts -/

/-- The text ends at the first quote that is not escaped, and is what was written. -/
theorem stringBody?_escaped (cs rest : List Char) :
    stringBody? (cs.flatMap escapeChar ++ '"' :: rest) = some (cs, rest) := by
  induction cs with
  | nil => rfl
  | cons c cs ih =>
    rw [List.flatMap_cons, List.append_assoc, stringBody?_escapeChar, ih]
    rfl

end AqlQuery.Json.Reader

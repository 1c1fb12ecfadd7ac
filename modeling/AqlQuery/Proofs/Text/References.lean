import AqlQuery.BindTable
import AqlQuery.Json.Printer

/-!
# The names that a text refers to

A text refers to a name by an at sign, and a name is the letter `B` and all digits that follow. The
references of a text are those of its pieces, provided that no piece continues a name that ends
before it.
-/

namespace AqlQuery.Text

/-- The name at the start of a text; empty if there is none. -/
def nameAt : List Char → List Char
  | 'B' :: rest => 'B' :: rest.takeWhile Char.isDigit
  | _ => []

/-- The names after each at sign. -/
def scan : List Char → List String
  | [] => []
  | c :: rest => if c = '@' then String.ofList (nameAt rest) :: scan rest else scan rest

/-- The names that a text refers to, from left to right. -/
def references (s : String) : List String := scan s.toList

/-- A text without an at sign. -/
def Plain (s : String) : Prop := '@' ∉ s.toList

/-- A text that does not continue a name. -/
def Breaks (s : String) : Prop := ∀ c ∈ s.toList.head?, c ≠ 'B' ∧ c.isDigit = false

instance (s : String) : Decidable (Plain s) := inferInstanceAs (Decidable (_ ∉ _))

instance (s : String) : Decidable (Breaks s) :=
  match h : s.toList.head? with
  | none => isTrue fun c hc => by rw [h] at hc; cases hc
  | some c =>
    decidable_of_iff (c ≠ 'B' ∧ c.isDigit = false) (by
      unfold Breaks
      rw [h]
      simp)

/-! ## Concatenation -/

theorem plain_append {s t : String} : Plain (s ++ t) ↔ Plain s ∧ Plain t := by
  unfold Plain
  rw [String.toList_append, List.mem_append, not_or]

theorem plain_of_subset {s t : String} (hs : s.toList ⊆ t.toList) (ht : Plain t) : Plain s :=
  fun hm => ht (hs hm)

theorem scan_append_of_not_mem {xs : List Char} (ys : List Char) (h : '@' ∉ xs) :
    scan (xs ++ ys) = scan ys := by
  induction xs with
  | nil => rfl
  | cons c rest ih =>
    rw [List.mem_cons, not_or] at h
    rw [List.cons_append, scan, if_neg (Ne.symm h.1), ih h.2]

theorem nameAt_append {xs ys : List Char}
    (h : ∀ c ∈ ys.head?, c ≠ 'B' ∧ c.isDigit = false) : nameAt (xs ++ ys) = nameAt xs := by
  have hdigits : ys.takeWhile Char.isDigit = [] := by
    cases ys with
    | nil => rfl
    | cons y rest => rw [List.takeWhile_cons, (h y rfl).2]; rfl
  cases xs with
  | nil =>
    cases ys with
    | nil => rfl
    | cons y rest =>
      rw [List.nil_append]
      unfold nameAt
      split
      next heq => exact absurd (List.cons.inj heq).1 (h y rfl).1
      next => rfl
  | cons x rest =>
    by_cases hx : x = 'B'
    · subst hx
      rw [List.cons_append, nameAt, nameAt, List.takeWhile_append, hdigits, List.append_nil]
      -- the digits may reach up to the seam, where they stop
      split
      next hall =>
        have hp : rest.takeWhile Char.isDigit <+: rest := List.takeWhile_prefix _
        rw [hp.eq_of_length hall]
      next => rfl
    · have hne (tail : List Char) : nameAt (x :: tail) = [] := by
        unfold nameAt
        split
        next heq => exact absurd (List.cons.inj heq).1 hx
        next => rfl
      rw [List.cons_append, hne, hne]

theorem scan_append {xs ys : List Char} (h : ∀ c ∈ ys.head?, c ≠ 'B' ∧ c.isDigit = false) :
    scan (xs ++ ys) = scan xs ++ scan ys := by
  induction xs with
  | nil => rfl
  | cons c rest ih =>
    rw [List.cons_append, scan, scan, ih]
    split
    · rw [nameAt_append h, List.cons_append]
    · rfl

theorem references_of_plain {s : String} (h : Plain s) : references s = [] := by
  have hs := scan_append_of_not_mem [] h
  rw [List.append_nil] at hs
  exact hs

theorem references_plain_append {s : String} (t : String) (h : Plain s) :
    references (s ++ t) = references t := by
  rw [references, String.toList_append, scan_append_of_not_mem _ h, references]

theorem references_append {s t : String} (h : Breaks t) :
    references (s ++ t) = references s ++ references t := by
  rw [references, String.toList_append, scan_append h, references, references]

theorem references_append_plain {s t : String} (hb : Breaks t) (hp : Plain t) :
    references (s ++ t) = references s := by
  rw [references_append hb, references_of_plain hp, List.append_nil]

theorem breaks_append {s t : String} (hs : Breaks s) (hne : s ≠ "") : Breaks (s ++ t) := by
  intro c hc
  rw [String.toList_append] at hc
  cases hl : s.toList with
  | nil => exact absurd (String.toList_eq_nil_iff.mp hl) hne
  | cons x rest =>
    rw [hl] at hc
    exact hs c (by rw [hl]; exact hc)

/-- A separator that is no part of a name splits the references. -/
theorem references_intercalate {sep : String} (hb : Breaks sep) (hp : Plain sep) (hne : sep ≠ "")
    (parts : List String) : references (sep.intercalate parts) = parts.flatMap references := by
  induction parts with
  | nil => rfl
  | cons part rest ih =>
    cases rest with
    | nil => rw [String.intercalate_singleton, List.flatMap_singleton]
    | cons next rest =>
      rw [String.intercalate_cons_cons, String.append_assoc,
        references_append (breaks_append hb hne), references_plain_append _ hp, ih]
      rfl

theorem plain_intercalate {sep : String} (hp : Plain sep) {parts : List String}
    (h : ∀ part ∈ parts, Plain part) : Plain (sep.intercalate parts) := by
  induction parts with
  | nil => exact List.not_mem_nil
  | cons part rest ih =>
    have hpart := h part List.mem_cons_self
    have hrest := ih fun p hm => h p (List.mem_cons_of_mem part hm)
    cases rest with
    | nil => rw [String.intercalate_singleton]; exact hpart
    | cons next rest =>
      rw [String.intercalate_cons_cons, plain_append, plain_append]
      exact ⟨⟨hpart, hp⟩, hrest⟩

/-! ## Digits, names and quoted keys -/

theorem isDigit_ne_at {c : Char} (h : c.isDigit = true) : c ≠ '@' := by
  rintro rfl
  exact absurd h (by decide)

theorem plain_of_digits {ds : List Char} (h : ∀ c ∈ ds, c.isDigit = true) : '@' ∉ ds :=
  fun hm => isDigit_ne_at (h _ hm) rfl

theorem isDigit_of_mem_decimal {n : Nat} {c : Char} (h : c ∈ Nat.toDigits 10 n) :
    c.isDigit = true :=
  Nat.isDigit_of_mem_toDigits (by decide) (by decide) h

theorem plain_decimal (n : Nat) : Plain (decimal n) := by
  rw [Plain, decimal, String.toList_ofList]
  exact plain_of_digits fun c hc => isDigit_of_mem_decimal hc

theorem plain_signedDecimal (i : Int) : Plain (signedDecimal i) := by
  cases i with
  | ofNat n => exact plain_decimal n
  | negSucc n => exact plain_append.mpr ⟨by decide, plain_decimal (n + 1)⟩

/-- A placeholder refers to its name and to nothing else. -/
theorem references_placeholder (n : Nat) :
    references ("@" ++ ("B" ++ decimal n)) = ["B" ++ decimal n] := by
  have hall : (Nat.toDigits 10 n).takeWhile Char.isDigit = Nat.toDigits 10 n := by
    have h := @List.takeWhile_append_of_pos _ Char.isDigit (Nat.toDigits 10 n) []
      fun c hc => isDigit_of_mem_decimal hc
    simpa using h
  have hname : String.ofList ('B' :: Nat.toDigits 10 n) = "B" ++ decimal n := by
    simp only [← String.toList_inj, String.toList_ofList, String.toList_append, decimal]
    rfl
  have hrest : scan ('B' :: Nat.toDigits 10 n) = [] := by
    have h : '@' ∉ 'B' :: Nat.toDigits 10 n := by
      rw [List.mem_cons, not_or]
      exact ⟨by decide, plain_of_digits fun c hc => isDigit_of_mem_decimal hc⟩
    have hs := scan_append_of_not_mem [] h
    rw [List.append_nil] at hs
    exact hs
  rw [references, ← hname]
  simp only [String.toList_append, String.toList_ofList]
  change scan ('@' :: 'B' :: Nat.toDigits 10 n) = _
  rw [scan, if_pos rfl, hrest, nameAt, hall]

theorem hexDigit_ne_at (n : Nat) : Json.hexDigit n ≠ '@' := by
  have h : ∀ k < 16, Nat.digitChar k ≠ '@' := by decide
  exact h (n % 16) (Nat.mod_lt n (by decide))

theorem at_not_mem_escapeChar {c : Char} (hc : c ≠ '@') : '@' ∉ Json.escapeChar c := by
  have hhigh := hexDigit_ne_at (c.toNat / 16)
  have hlow := hexDigit_ne_at c.toNat
  unfold Json.escapeChar
  repeat' split
  all_goals simp [hc.symm, hhigh.symm, hlow.symm]

theorem plain_quote {s : String} (h : Plain s) : Plain (Json.quote s) := by
  rw [Plain, Json.quote, String.toList_ofList, List.mem_append, List.mem_cons, List.mem_flatMap]
  rintro ((hq | ⟨c, hc, hm⟩) | hq)
  · exact absurd hq (by decide)
  · exact at_not_mem_escapeChar (fun he => h (he ▸ hc)) hm
  · exact absurd hq (by decide)

/-! ## Numbers -/

theorem isDigit_of_mem_shortest {code : Nat} {c : Char} (h : c ∈ (Double.shortest code).1) :
    c.isDigit = true := by
  unfold Double.shortest at h
  simp only at h
  split at h
  next =>
    rw [List.mem_singleton.mp h]
    rfl
  next ds n hf =>
    -- the digits are those of a decimal, less the zeros at its end
    obtain ⟨_, _, hd⟩ := List.exists_of_findSome?_eq_some hf
    obtain ⟨k, _, he⟩ := Option.map_eq_some_iff.mp hd
    cases he
    have hm := List.mem_reverse.mp h
    have hr := (List.dropWhile_sublist _).subset hm
    exact isDigit_of_mem_decimal (List.mem_reverse.mp hr)

theorem at_not_mem_plain {ds : List Char} (e : Int) (h : '@' ∉ ds) : '@' ∉ Double.plain ds e := by
  have hz (n : Nat) : '@' ∉ List.replicate n '0' := fun hm =>
    absurd (List.eq_of_mem_replicate hm) (by decide)
  unfold Double.plain
  split
  · simp [h, hz]
  · have hdigits (n : Nat) : '@' ∉ ds ++ List.replicate n '0' := by
      rw [List.mem_append, not_or]
      exact ⟨h, hz n⟩
    simp only [List.mem_append, List.mem_cons, not_or]
    refine ⟨fun hm => hdigits _ (List.mem_of_mem_take hm), by decide, ?_⟩
    split
    · decide
    · exact fun hm => hdigits _ (List.mem_of_mem_drop hm)

theorem at_not_mem_scientific {ds : List Char} (e : Int) (h : '@' ∉ ds) :
    '@' ∉ Double.scientific ds e := by
  have hexp : '@' ∉ 'e' :: (if e < 0 then '-' else '+') :: Nat.toDigits 10 e.natAbs := by
    rw [List.mem_cons, List.mem_cons, not_or, not_or]
    refine ⟨by decide, ?_, plain_of_digits fun c hc => isDigit_of_mem_decimal hc⟩
    split <;> decide
  unfold Double.scientific
  simp only [List.mem_append, not_or]
  refine ⟨?_, hexp⟩
  split
  · decide
  · exact h
  next d rest _ =>
    rw [List.mem_cons, not_or] at h
    rw [List.mem_cons, List.mem_cons, not_or, not_or]
    exact ⟨h.1, by decide, h.2⟩

theorem plain_number (n : Number) : Plain n.text := by
  cases n with
  | int i => exact plain_signedDecimal i
  | double x =>
    have hds : '@' ∉ (Double.shortest x.code).1 :=
      plain_of_digits fun c hc => isDigit_of_mem_shortest hc
    have hsign : '@' ∉ (if x.isNegative then ['-'] else []) := by split <;> decide
    rw [Plain, Number.text, Double.text]
    split
    · rw [String.toList_ofList, List.mem_append, not_or]
      exact ⟨hsign, by decide⟩
    · simp only [String.toList_ofList, List.mem_append, not_or]
      refine ⟨hsign, ?_⟩
      split
      · exact at_not_mem_plain _ hds
      · exact at_not_mem_scientific _ hds

end AqlQuery.Text

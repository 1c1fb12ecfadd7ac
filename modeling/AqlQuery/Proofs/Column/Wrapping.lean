import Mathlib.Data.List.Basic
import AqlQuery.Proofs.Column.Quoting

/-!
# Spellings of a name

The texts that a name is read from: blanks on both sides of it, backticks around these, and blanks
around the whole. A name that neither begins nor ends with a blank or a backtick has no other
spelling, so which texts are read as the whole document, or as no name at all, can be told from their
characters. The texts whose name stays the same when it is read once more are the spellings of such
names: any other text has a layer of backticks inside another, with blanks between the two, and
reading it takes off the outer one only.
-/

namespace AqlQuery

namespace Text

variable {p : Char → Bool} {cs : List Char}

theorem stripChars_of_all (h : ∀ c ∈ cs, p c = true) : stripChars p cs = [] := by
  rw [stripChars, dropWhile_of_all h]
  rfl

theorem all_of_stripChars_nil (h : stripChars p cs = []) : ∀ c ∈ cs, p c = true := by
  obtain ⟨left, right, hcs, hleft, hright⟩ := exists_stripChars p cs
  rw [h, List.append_nil] at hcs
  intro c hc
  rw [hcs] at hc
  exact (List.mem_append.mp hc).elim (hleft c) (hright c)

theorem stripChars_eq_self_iff : stripChars p cs = cs ↔
    (∀ c ∈ cs.head?, p c = false) ∧ ∀ c ∈ cs.getLast?, p c = false := by
  constructor
  · intro h
    rw [← h]
    exact ⟨fun _ hc => head?_stripChars hc, fun _ hc => getLast?_stripChars hc⟩
  · rintro ⟨hhead, hlast⟩
    exact stripChars_eq_self hhead hlast

theorem dropWhile_append_of_kept {front rest : List Char} (h : rest.dropWhile p = rest) :
    (front ++ rest).dropWhile p = front.dropWhile p ++ rest := by
  rw [List.dropWhile_append]
  split
  next hall => rw [h, List.isEmpty_iff.mp hall, List.nil_append]
  next => rfl

/-- A core that has nothing to strip keeps the two ends of a text apart. -/
theorem stripChars_around {front core back : List Char} (hne : core ≠ [])
    (hcore : stripChars p core = core) :
    stripChars p (front ++ core ++ back) =
      front.dropWhile p ++ core ++ (back.reverse.dropWhile p).reverse := by
  obtain ⟨hhead, hlast⟩ := stripChars_eq_self_iff.mp hcore
  have hfront : (core ++ back).dropWhile p = core ++ back := by
    apply dropWhile_eq_self
    rwa [List.head?_append_of_ne_nil _ hne]
  have hback : (front.dropWhile p ++ core).reverse.dropWhile p =
      (front.dropWhile p ++ core).reverse := by
    apply dropWhile_eq_self
    rwa [List.head?_reverse, List.getLast?_append_of_ne_nil _ hne]
  rw [stripChars, List.append_assoc, dropWhile_append_of_kept hfront, ← List.append_assoc,
    List.reverse_append, dropWhile_append_of_kept hback, List.reverse_append, List.reverse_reverse]

end Text

namespace Collection

open Text

/-! ## Padding -/

/-- A blank or a backtick. -/
def isPadding (c : Char) : Bool := isBlank c || isBacktick c

theorem isPadding_eq_false_iff {c : Char} :
    isPadding c = false ↔ isBlank c = false ∧ isBacktick c = false :=
  Bool.or_eq_false_iff

/-- Neither a blank nor a backtick is at the ends. -/
def IsBare (name : List Char) : Prop := stripChars isPadding name = name

instance (name : List Char) : Decidable (IsBare name) :=
  inferInstanceAs (Decidable (stripChars isPadding name = name))

theorem isBare_iff {name : List Char} :
    IsBare name ↔ stripChars isBlank name = name ∧ stripChars isBacktick name = name := by
  simp only [IsBare, stripChars_eq_self_iff, isPadding_eq_false_iff]
  constructor
  · rintro ⟨hhead, hlast⟩
    exact ⟨⟨fun c hc => (hhead c hc).1, fun c hc => (hlast c hc).1⟩,
      fun c hc => (hhead c hc).2, fun c hc => (hlast c hc).2⟩
  · rintro ⟨⟨hhead, hlast⟩, hhead', hlast'⟩
    exact ⟨fun c hc => ⟨hhead c hc, hhead' c hc⟩, fun c hc => ⟨hlast c hc, hlast' c hc⟩⟩

theorem isBacktick_eq_false {cs : List Char} (h : '\x60' ∉ cs) {c : Char} (hc : c ∈ cs) :
    isBacktick c = false := by
  rw [Bool.eq_false_iff]
  exact fun htick => h (isBacktick_iff.mp htick ▸ hc)

theorem stripChars_isBacktick {cs : List Char} (h : '\x60' ∉ cs) :
    stripChars isBacktick cs = cs :=
  stripChars_eq_self (fun _ hc => isBacktick_eq_false h (List.mem_of_mem_head? hc))
    (fun _ hc => isBacktick_eq_false h (List.mem_of_getLast? hc))

/-- What is left at the front of a text after a layer of backticks and the blanks on both sides of
it. -/
def dropLayer (cs : List Char) : List Char :=
  ((cs.dropWhile isBlank).dropWhile isBacktick).dropWhile isBlank

theorem dropLayer_eq_nil {before layer gap : List Char} (hbefore : IsGap before)
    (hlayer : IsLayer layer) (hgap : IsGap gap) : dropLayer (before ++ layer ++ gap) = [] := by
  have hticks : ∀ c ∈ layer, isBacktick c = true := fun c hc => isBacktick_iff.mpr (hlayer c hc)
  rw [dropLayer, List.append_assoc, List.dropWhile_append_of_pos hbefore]
  cases layer with
  | nil =>
    rw [List.nil_append, dropWhile_of_all hgap]
    rfl
  | cons c rest =>
    have hkept : (c :: rest ++ gap).dropWhile isBlank = c :: rest ++ gap := by
      apply dropWhile_eq_self
      intro d hd
      cases hd
      rw [hlayer c List.mem_cons_self]
      decide
    have hnext : gap.dropWhile isBacktick = gap := by
      apply dropWhile_eq_self
      intro d hd
      exact isBacktick_eq_false (not_mem_of_isGap hgap) (List.mem_of_mem_head? hd)
    rw [hkept, List.dropWhile_append_of_pos hticks, hnext, dropWhile_of_all hgap]

/-! ## The spellings of a name -/

/-- The name in blanks, in backticks, and in blanks again; each of them may be missing. -/
def Wraps (name cs : List Char) : Prop :=
  ∃ before left gap gap' right after,
    cs = before ++ (left ++ (gap ++ name ++ gap') ++ right) ++ after ∧
      IsGap before ∧ IsLayer left ∧ IsGap gap ∧ IsGap gap' ∧ IsLayer right ∧ IsGap after

theorem wraps_self (name : List Char) : Wraps name name := by
  refine ⟨[], [], [], [], [], [], by simp, ?_, ?_, ?_, ?_, ?_, ?_⟩ <;> exact List.forall_mem_nil _

theorem wraps_bareName (raw : String) : Wraps (bareName raw).toList raw.toList := by
  rw [toList_bareName]
  obtain ⟨before, after, htrim, hbefore, hafter⟩ := exists_stripChars isBlank raw.toList
  obtain ⟨left, right, hstrip, hleft, hright⟩ :=
    exists_stripChars isBacktick (stripChars isBlank raw.toList)
  obtain ⟨gap, gap', hinner, hgap, hgap'⟩ :=
    exists_stripChars isBlank (stripChars isBacktick (stripChars isBlank raw.toList))
  refine ⟨before, left, gap, gap', right, after, ?_, hbefore, ?_, hgap, hgap', ?_, hafter⟩
  · rw [← hinner, ← hstrip, ← htrim]
  · exact fun c hc => isBacktick_iff.mp (hleft c hc)
  · exact fun c hc => isBacktick_iff.mp (hright c hc)

/-- Padding is all that wraps a name. -/
theorem Wraps.stripChars_eq {name cs : List Char} (h : Wraps name cs) :
    stripChars isPadding cs = stripChars isPadding name := by
  obtain ⟨before, left, gap, gap', right, after, rfl, hbefore, hleft, hgap, hgap', hright,
    hafter⟩ := h
  have hblank {cs : List Char} (hcs : IsGap cs) : ∀ c ∈ cs, isPadding c = true :=
    fun c hc => by rw [isPadding, hcs c hc, Bool.true_or]
  have htick {cs : List Char} (hcs : IsLayer cs) : ∀ c ∈ cs, isPadding c = true :=
    fun c hc => by rw [isPadding, isBacktick_iff.mpr (hcs c hc), Bool.or_true]
  rw [stripChars_padded (hblank hbefore) (hblank hafter),
    stripChars_padded (htick hleft) (htick hright), stripChars_padded (hblank hgap) (hblank hgap')]

theorem trimmed_bareName (raw : String) :
    stripChars isBlank (bareName raw).toList = (bareName raw).toList := by
  rw [toList_bareName, stripChars_stripChars]

/-- Nothing in one layer of backticks is read as nothing. -/
theorem bareName_of_wraps_nil {raw : String} (h : Wraps [] raw.toList) :
    (bareName raw).toList = [] := by
  -- no backtick is left, so what is left is its own core, and the core of the text is empty
  have hnone : '\x60' ∉ (bareName raw).toList := by
    obtain ⟨before, left, gap, gap', right, after, hcs, hbefore, hleft, hgap, hgap', hright,
      hafter⟩ := h
    rw [backtick_not_mem_bareName_iff]
    refine ⟨before, left, gap ++ gap', right, after, ?_, hbefore, hleft, ?_, hright, hafter⟩
    · rw [hcs, List.append_nil, List.append_assoc left]
    · rw [List.mem_append, not_or]
      exact ⟨not_mem_of_isGap hgap, not_mem_of_isGap hgap'⟩
  have hbare : IsBare (bareName raw).toList :=
    isBare_iff.mpr ⟨trimmed_bareName raw, stripChars_isBacktick hnone⟩
  rw [← hbare, ← (wraps_bareName raw).stripChars_eq, h.stripChars_eq]
  rfl

/-- Around something, one layer of backticks is dropped at the front and one at the back. -/
theorem bareName_around {raw : String} {front core back : List Char} (hne : core ≠ [])
    (hcore : IsBare core) (hraw : raw.toList = front ++ core ++ back) :
    (bareName raw).toList = dropLayer front ++ core ++ (dropLayer back.reverse).reverse := by
  obtain ⟨hblank, htick⟩ := isBare_iff.mp hcore
  rw [toList_bareName, hraw, stripChars_around hne hblank, stripChars_around hne htick,
    stripChars_around hne hblank, List.reverse_reverse, List.reverse_reverse]
  rfl

/-- The spellings of a name with no padding at its ends. -/
theorem bareName_eq_iff {name : String} (hname : IsBare name.toList) (raw : String) :
    bareName raw = name ↔ Wraps name.toList raw.toList := by
  constructor
  · rintro rfl
    exact wraps_bareName raw
  · intro h
    apply String.toList_injective
    by_cases hne : name.toList = []
    · rw [hne] at h ⊢
      exact bareName_of_wraps_nil h
    · obtain ⟨before, left, gap, gap', right, after, hcs, hbefore, hleft, hgap, hgap', hright,
        hafter⟩ := h
      have hraw : raw.toList = before ++ left ++ gap ++ name.toList ++ (gap' ++ right ++ after) := by
        rw [hcs]
        simp only [List.append_assoc]
      have hback : dropLayer (gap' ++ right ++ after).reverse = [] := by
        rw [List.reverse_append, List.reverse_append, ← List.append_assoc]
        exact dropLayer_eq_nil (fun c hc => hafter c (List.mem_reverse.mp hc))
          (fun c hc => hright c (List.mem_reverse.mp hc))
          (fun c hc => hgap' c (List.mem_reverse.mp hc))
      rw [bareName_around hne hname hraw, dropLayer_eq_nil hbefore hleft hgap, hback,
        List.nil_append, List.reverse_nil, List.append_nil]

theorem bareName_eq_empty_iff (raw : String) : bareName raw = "" ↔ Wraps [] raw.toList :=
  bareName_eq_iff (by decide) raw

/-! ## Names that stay -/

/-- No more than one layer of backticks is on either side of the name. -/
def IsOnceWrapped (raw : String) : Prop := ∃ name, IsBare name ∧ Wraps name raw.toList

theorem bareName_eq_self_iff (name : String) : bareName name = name ↔ IsBare name.toList := by
  constructor
  · intro h
    have htrim : stripChars isBlank name.toList = name.toList := by
      rw [← h]
      exact trimmed_bareName name
    refine isBare_iff.mpr ⟨htrim, ?_⟩
    -- each strip leaves a part of the text, so where the last leaves all of it the others do too
    obtain ⟨left, right, hticks, _, _⟩ := exists_stripChars isBacktick name.toList
    obtain ⟨gap, gap', hinner, _, _⟩ :=
      exists_stripChars isBlank (stripChars isBacktick name.toList)
    have hkept : stripChars isBlank (stripChars isBacktick name.toList) = name.toList := by
      have hlist := congrArg String.toList h
      rw [toList_bareName, htrim] at hlist
      exact hlist
    rw [hkept] at hinner
    have hlength := congrArg List.length hticks
    have hlength' := congrArg List.length hinner
    simp only [List.length_append] at hlength hlength'
    have hgap : gap = [] := List.eq_nil_of_length_eq_zero (by omega)
    have hgap' : gap' = [] := List.eq_nil_of_length_eq_zero (by omega)
    rw [hinner, hgap, hgap', List.nil_append, List.append_nil]
  · intro h
    rw [bareName_eq_iff h]
    exact wraps_self name.toList

/-- Reading a name once more changes nothing exactly if the text has one layer of backticks around
it. -/
theorem bareName_bareName_iff (raw : String) :
    bareName (bareName raw) = bareName raw ↔ IsOnceWrapped raw := by
  rw [bareName_eq_self_iff]
  constructor
  · intro h
    exact ⟨_, h, wraps_bareName raw⟩
  · rintro ⟨name, hname, hwraps⟩
    have hbare : IsBare (String.ofList name).toList := by rwa [String.toList_ofList]
    have hread : bareName raw = String.ofList name := by
      rw [bareName_eq_iff hbare, String.toList_ofList]
      exact hwraps
    rwa [hread]

instance (raw : String) : Decidable (IsOnceWrapped raw) :=
  decidable_of_iff _ (bareName_bareName_iff raw)

/-! ## Blanks in backticks -/

/-- Some blanks in backticks, and blanks around the whole. -/
def HidesBlanks (cs : List Char) : Prop :=
  ∃ before left gap right after, cs = before ++ (left ++ gap ++ right) ++ after ∧
    IsGap before ∧ (IsLayer left ∧ left ≠ []) ∧ (IsGap gap ∧ gap ≠ []) ∧
      (IsLayer right ∧ right ≠ []) ∧ IsGap after

/-- Something is left in the backticks, and nothing once its blanks are dropped too. -/
theorem stripped_eq_nil_iff (cs : List Char) :
    stripChars isBacktick (stripChars isBlank cs) ≠ [] ∧
        stripChars isBlank (stripChars isBacktick (stripChars isBlank cs)) = [] ↔
      HidesBlanks cs := by
  constructor
  · rintro ⟨hne, hempty⟩
    obtain ⟨before, after, htrim, hbefore, hafter⟩ := exists_stripChars isBlank cs
    have hhead : ∀ c ∈ (stripChars isBlank cs).head?, isBlank c = false :=
      fun _ hc => head?_stripChars hc
    have hlast : ∀ c ∈ (stripChars isBlank cs).getLast?, isBlank c = false :=
      fun _ hc => getLast?_stripChars hc
    generalize stripChars isBlank cs = name at *
    obtain ⟨left, right, hstrip, hleft, hright⟩ := exists_stripChars isBacktick name
    have hgap : IsGap (stripChars isBacktick name) := all_of_stripChars_nil hempty
    generalize stripChars isBacktick name = gap at *
    -- the text was trimmed first, so the blanks that are left are not at its ends
    have hleft' : left ≠ [] := by
      rintro rfl
      cases gap with
      | nil => exact hne rfl
      | cons b rest =>
        have hb : isBlank b = false := hhead b (by rw [hstrip]; rfl)
        rw [hgap b List.mem_cons_self] at hb
        cases hb
    have hright' : right ≠ [] := by
      rintro rfl
      rcases List.eq_nil_or_concat gap with rfl | ⟨rest, b, rfl⟩
      · exact hne rfl
      · have hb : isBlank b = false := hlast b (by rw [hstrip]; simp)
        rw [hgap b (by simp)] at hb
        cases hb
    refine ⟨before, left, gap, right, after, ?_, hbefore, ⟨?_, hleft'⟩, ⟨hgap, hne⟩, ⟨?_, hright'⟩,
      hafter⟩
    · rw [← hstrip, ← htrim]
    · exact fun c hc => isBacktick_iff.mp (hleft c hc)
    · exact fun c hc => isBacktick_iff.mp (hright c hc)
  · rintro ⟨before, left, gap, right, after, hcs, hbefore, ⟨hleft, hleft'⟩, ⟨hgap, hgap'⟩,
      ⟨hright, hright'⟩, hafter⟩
    have hname : stripChars isBlank cs = left ++ gap ++ right := by
      have htick : isBlank '\x60' = false := by decide
      rw [hcs, stripChars_padded hbefore hafter]
      apply stripChars_eq_self
      · intro c hc
        rw [List.append_assoc, List.head?_append_of_ne_nil _ hleft'] at hc
        rw [hleft c (List.mem_of_mem_head? hc), htick]
      · intro c hc
        rw [List.getLast?_append_of_ne_nil _ hright'] at hc
        rw [hright c (List.mem_of_getLast? hc), htick]
    have hinner : stripChars isBacktick (left ++ gap ++ right) = gap := by
      rw [stripChars_padded (fun c hc => isBacktick_iff.mpr (hleft c hc))
        (fun c hc => isBacktick_iff.mpr (hright c hc))]
      exact stripChars_isBacktick (not_mem_of_isGap hgap)
    rw [hname, hinner]
    exact ⟨hgap', stripChars_of_all hgap⟩

end Collection

end AqlQuery

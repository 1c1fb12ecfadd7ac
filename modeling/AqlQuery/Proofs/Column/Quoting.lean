import AqlQuery.Proofs.Column.Label
import AqlQuery.Proofs.Column.Names
import AqlQuery.Proofs.Outcome

/-!
# Columns in backticks

A column is written between two backticks, after its own ones have been taken off at its ends. A
backtick further inside stays and ends the quoted name, and the rest of the column is then read as a
part of the statement. So the name is all that is quoted exactly if the column string has backticks
in one layer around it only.
-/

namespace AqlQuery

namespace Text

variable {p : Char → Bool}

/-! ## What is stripped -/

theorem exists_stripChars (p : Char → Bool) (cs : List Char) :
    ∃ left right, cs = left ++ stripChars p cs ++ right ∧ (∀ c ∈ left, p c = true) ∧
      ∀ c ∈ right, p c = true := by
  have hfront := @List.takeWhile_append_dropWhile Char p cs
  have hback := @List.takeWhile_append_dropWhile Char p (cs.dropWhile p).reverse
  refine ⟨cs.takeWhile p, ((cs.dropWhile p).reverse.takeWhile p).reverse, ?_, ?_, ?_⟩
  · rw [stripChars, List.append_assoc, ← List.reverse_append, hback, List.reverse_reverse, hfront]
  · exact List.all_eq_true.mp List.all_takeWhile
  · intro c hc
    exact List.all_eq_true.mp List.all_takeWhile c (List.mem_reverse.mp hc)

theorem stripChars_padded {left right : List Char} (hleft : ∀ c ∈ left, p c = true)
    (hright : ∀ c ∈ right, p c = true) (cs : List Char) :
    stripChars p (left ++ cs ++ right) = stripChars p cs := by
  have hrev : ∀ c ∈ right.reverse, p c = true := fun c hc => hright c (List.mem_reverse.mp hc)
  rw [stripChars, List.append_assoc, List.dropWhile_append_of_pos hleft, List.dropWhile_append]
  split
  next hall =>
    rw [stripChars, List.isEmpty_iff.mp hall, dropWhile_of_all hright]
  next =>
    rw [List.reverse_append, List.dropWhile_append_of_pos hrev]
    rfl

end Text

namespace Collection

open Text

theorem toList_bareName (raw : String) :
    (bareName raw).toList =
      stripChars isBlank (stripChars isBacktick (stripChars isBlank raw.toList)) := by
  simp only [bareName, trim, strip, String.toList_ofList]

/-! ## One layer of backticks -/

/-- Only backticks. -/
def IsLayer (cs : List Char) : Prop := ∀ c ∈ cs, c = '\x60'

/-- Blanks, backticks and a core without backticks, and the same behind it. -/
def IsWrapped (cs : List Char) : Prop :=
  ∃ before left core right after, cs = before ++ (left ++ (core ++ right)) ++ after ∧
    IsGap before ∧ IsLayer left ∧ '\x60' ∉ core ∧ IsLayer right ∧ IsGap after

theorem not_mem_of_isGap {cs : List Char} (h : IsGap cs) : '\x60' ∉ cs :=
  fun hm => absurd (h _ hm) (by decide)

/-- Between two other characters there is a backtick in the core only. -/
theorem mem_core_of_inner {before front back after left core right : List Char} {c d : Char}
    (h : before ++ (c :: front ++ '\x60' :: (back ++ [d])) ++ after = left ++ (core ++ right))
    (hc : c ≠ '\x60') (hd : d ≠ '\x60') (hleft : IsLayer left) (hright : IsLayer right) :
    '\x60' ∈ core := by
  have hseam : (before ++ c :: front) ++ '\x60' :: (back ++ [d] ++ after) =
      left ++ (core ++ right) := by
    rw [← h]
    simp
  rcases List.append_eq_append_iff.mp hseam with ⟨more, hl, _⟩ | ⟨more, _, hm⟩
  · -- the first character would be one of the layer on the left
    exact absurd (hleft c (by rw [hl]; simp)) hc
  · rcases List.append_eq_append_iff.mp hm with ⟨more', _, hr⟩ | ⟨more', hcore, hr⟩
    · exact absurd (hright d (by rw [hr]; simp)) hd
    · cases more' with
      | nil => exact absurd (hright d (by rw [List.nil_append] at hr; rw [← hr]; simp)) hd
      | cons b more' =>
        obtain ⟨rfl, _⟩ := List.cons.inj hr
        rw [hcore]
        simp

/-- A backtick that is left after stripping stands between two other characters. -/
theorem exists_inner {cs : List Char} (h : '\x60' ∈ stripChars isBacktick cs) :
    ∃ c front back d, stripChars isBacktick cs = c :: front ++ '\x60' :: (back ++ [d]) ∧
      c ≠ '\x60' ∧ d ≠ '\x60' := by
  have hhead : ∀ c ∈ (stripChars isBacktick cs).head?, isBacktick c = false :=
    fun _ hc => head?_stripChars hc
  have hlast : ∀ c ∈ (stripChars isBacktick cs).getLast?, isBacktick c = false :=
    fun _ hc => getLast?_stripChars hc
  obtain ⟨front, back, he⟩ := List.append_of_mem h
  rw [he] at hhead hlast ⊢
  rcases List.eq_nil_or_concat back with rfl | ⟨back, d, rfl⟩
  · exact absurd (hlast '\x60' (by simp)) (by decide)
  cases front with
  | nil => exact absurd (hhead '\x60' rfl) (by decide)
  | cons c front =>
    have hc := hhead c rfl
    have hd := hlast d (by
      rw [List.concat_eq_append, ← List.cons_append, ← List.append_assoc]
      exact List.getLast?_concat)
    refine ⟨c, front, back, d, by simp, ?_, ?_⟩
    · rintro rfl
      cases hc
    · rintro rfl
      cases hd

theorem isBacktick_iff {c : Char} : isBacktick c = true ↔ c = '\x60' := beq_iff_eq

/-- A name loses all its backticks if they are one layer around it. -/
theorem backtick_not_mem_bareName_iff (raw : String) :
    '\x60' ∉ (bareName raw).toList ↔ IsWrapped raw.toList := by
  rw [toList_bareName]
  obtain ⟨before, after, htrim, hbefore, hafter⟩ := exists_stripChars isBlank raw.toList
  generalize hname : stripChars isBlank raw.toList = name at htrim ⊢
  obtain ⟨left, right, hstrip, hleft, hright⟩ := exists_stripChars isBacktick name
  constructor
  · intro hnone
    -- blanks that are trimmed last are no backticks either
    have hcore : '\x60' ∉ stripChars isBacktick name := by
      obtain ⟨gap, gap', hinner, hgap, hgap'⟩ :=
        exists_stripChars isBlank (stripChars isBacktick name)
      rw [hinner]
      intro hm
      rcases List.mem_append.mp hm with hm | hm
      · rcases List.mem_append.mp hm with hm | hm
        · exact not_mem_of_isGap hgap hm
        · exact hnone hm
      · exact not_mem_of_isGap hgap' hm
    refine ⟨before, left, stripChars isBacktick name, right, after, ?_, hbefore, ?_, hcore, ?_,
      hafter⟩
    · rw [← List.append_assoc left, ← hstrip, ← htrim]
    · exact fun c hc => isBacktick_iff.mp (hleft c hc)
    · exact fun c hc => isBacktick_iff.mp (hright c hc)
  · rintro ⟨before', left', core, right', after', hcs, hbefore', hleft', hcore, hright', hafter'⟩ hm
    -- a backtick that is left would stand inside the core
    have hmem := stripChars_subset isBlank _ hm
    obtain ⟨c, front, back, d, hinner, hc, hd⟩ := exists_inner hmem
    have hwrapped : name = stripChars isBlank (left' ++ (core ++ right')) := by
      rw [← hname, hcs, stripChars_padded hbefore' hafter']
    obtain ⟨gap, gap', hgap, _, _⟩ := exists_stripChars isBlank (left' ++ (core ++ right'))
    rw [← hwrapped, hstrip, hinner] at hgap
    refine hcore (@mem_core_of_inner (gap ++ left) front back (right ++ gap') left' core right'
      c d ?_ hc hd hleft' hright')
    rw [hgap]
    simp

end Collection

/-! ## Resolved columns -/

namespace ResolvedColumn

/-- The expression is the variable with the key, or with a name in backticks that has none of its
own. -/
def IsConfined (c : ResolvedColumn) : Prop :=
  c.expression = c.entity ++ "." ++ primaryKey ∨
    ∃ name, '\x60' ∉ name.toList ∧
      c.expression = c.entity ++ "." ++ Collection.inBackticks name

theorem isConfined_iff {c : ResolvedColumn} {x : String} (hx : c.column = some x) :
    c.IsConfined ↔ '\x60' ∉ x.toList := by
  have htext : c.expression = c.entity ++ "." ++ quoteAttribute x := by rw [expression, hx]
  unfold IsConfined
  rw [htext]
  by_cases hkey : x = primaryKey
  · -- the key has no backtick and is written without any
    have hnone : '\x60' ∉ x.toList := by
      rw [hkey]
      decide
    rw [quoteAttribute, if_pos hkey]
    exact ⟨fun _ => hnone, fun _ => Or.inl (by rw [hkey])⟩
  · rw [quoteAttribute, if_neg hkey]
    constructor
    · rintro (he | ⟨name, hname, he⟩)
      · have hchars := congrArg String.toList ((String.append_right_inj _).mp he)
        rw [Collection.inBackticks, String.toList_append, String.toList_append] at hchars
        cases hchars
      · have hchars := congrArg String.toList ((String.append_right_inj _).mp he)
        simp only [Collection.inBackticks, String.toList_append] at hchars
        have hsame := List.append_cancel_left (List.append_cancel_right hchars)
        rw [hsame]
        exact hname
    · intro hnone
      exact Or.inr ⟨x, hnone, rfl⟩

/-- The first backtick of a name ends it, and what follows stands outside. -/
theorem exists_outside {c : ResolvedColumn} {x : String} (hx : c.column = some x)
    (hopen : '\x60' ∈ x.toList) :
    ∃ name outside, '\x60' ∉ name.toList ∧ x = name ++ "\x60" ++ outside ∧
      c.expression = c.entity ++ "." ++ Collection.inBackticks name ++ outside ++ "\x60" := by
  obtain ⟨name, outside, hcut, hfirst⟩ := List.eq_append_cons_of_mem hopen
  have hx' : x = String.ofList name ++ "\x60" ++ String.ofList outside := by
    apply String.toList_injective
    rw [hcut]
    simp
  have hkey : x ≠ primaryKey := by
    rintro rfl
    exact absurd hopen (by decide)
  refine ⟨String.ofList name, String.ofList outside, ?_, hx', ?_⟩
  · rw [String.toList_ofList]
    exact hfirst
  · rw [expression, hx]
    simp only [quoteAttribute, if_neg hkey, Collection.inBackticks]
    rw [hx']
    simp only [String.append_assoc]

end ResolvedColumn

/-- The text of a column between its qualifier and its label. -/
def ColumnRef.columnText (raw : String) : List Char := (splitPoint (splitText raw).1).2

namespace Scope

/-- A column that resolves, for reading or for writing, is the key or a name in backticks of a
variable in scope. Its name is all that is quoted exactly if the column string has one layer of
backticks around the name; any other backtick ends the name, and what follows stands outside. -/
theorem resolved_confined_iff {s : Scope} {raw : String} {c : ResolvedColumn} {x : String}
    (h : s.resolve raw = .ok c ∨ s.resolveTarget raw = .ok c) (hx : c.column = some x) :
    (∃ collection ∈ s.collections, c.entity = Collection.variableName collection) ∧
      x = Collection.bareName (String.ofList (ColumnRef.columnText raw)) ∧
      (c.IsConfined ↔ Collection.IsWrapped (ColumnRef.columnText raw)) ∧
      (¬ c.IsConfined → ∃ name outside, '\x60' ∉ name.toList ∧
        x = name ++ "\x60" ++ outside ∧
        c.expression = c.entity ++ "." ++ Collection.inBackticks name ++ outside ++ "\x60") := by
  obtain ⟨hentity, hname⟩ : (∃ d ∈ s.collections, c.entity = Collection.variableName d) ∧
      x = (ColumnRef.parse raw).column := by
    rcases h with h | h
    · obtain ⟨hmem, hentity, hcolumn, _⟩ := resolve_ok h
      exact ⟨⟨_, hmem, hentity⟩, hcolumn x hx⟩
    · obtain ⟨_, hentity, hcolumn, _⟩ := resolveTarget_ok h
      exact ⟨⟨s.source, List.mem_cons_self, hentity⟩, hcolumn x hx⟩
  have hbare : x = Collection.bareName (String.ofList (ColumnRef.columnText raw)) := by
    rw [hname, ColumnRef.parse_eq]
    rfl
  refine ⟨hentity, hbare, ?_, ?_⟩
  · have hwrapped := Collection.backtick_not_mem_bareName_iff
      (String.ofList (ColumnRef.columnText raw))
    rw [← hbare, String.toList_ofList] at hwrapped
    exact (ResolvedColumn.isConfined_iff hx).trans hwrapped
  · intro hopen
    rw [ResolvedColumn.isConfined_iff hx, Classical.not_not] at hopen
    exact ResolvedColumn.exists_outside hx hopen

/-- The users, with nothing joined. -/
def users : Scope := ofNames "users" []

theorem resolved_confined_iff_layer :
    ∃ c, users.resolve " users. \x60\x60first name\x60 as n" = .ok c ∧
      c.column = some "first name" ∧
      (c.IsConfined ↔
        Collection.IsWrapped (ColumnRef.columnText " users. \x60\x60first name\x60 as n")) := by
  have hresolve : users.resolve " users. \x60\x60first name\x60 as n" =
      .ok ⟨"users", "users_entity", some "first name", some "n"⟩ :=
    Outcome.ok_of_toOption (by decide +kernel)
  exact ⟨_, hresolve, rfl, (resolved_confined_iff (Or.inl hresolve) rfl).2.2.1⟩

theorem inner_backtick_escapes :
    ∃ c, users.resolve "users.a\x60 == null OR users_entity.\x60b" = .ok c ∧
      users.resolveTarget "users.a\x60 == null OR users_entity.\x60b" = .ok c ∧
      c.expression = "users_entity.\x60a\x60 == null OR users_entity.\x60b\x60" ∧
      ¬ c.IsConfined := by
  refine ⟨⟨"users", "users_entity", some "a\x60 == null OR users_entity.\x60b", none⟩,
    Outcome.ok_of_toOption (by decide +kernel), Outcome.ok_of_toOption (by decide +kernel), rfl, ?_⟩
  rw [ResolvedColumn.isConfined_iff rfl]
  decide

end Scope

end AqlQuery

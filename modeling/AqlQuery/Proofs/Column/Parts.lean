import AqlQuery.Column

/-!
# The parts of a column come from its text

Trimming, the split at a label and the split at a point drop characters and add none, so whatever
a resolved column is written as consists of characters of the column string, of the names in scope
and of the fixed pieces around them.
-/

namespace AqlQuery

theorem Text.stripChars_subset (p : Char → Bool) (cs : List Char) :
    Text.stripChars p cs ⊆ cs := by
  intro c hc
  rw [Text.stripChars, List.mem_reverse] at hc
  have hr := (List.dropWhile_sublist p).subset hc
  rw [List.mem_reverse] at hr
  exact (List.dropWhile_sublist p).subset hr

theorem Text.strip_subset (p : Char → Bool) (s : String) : (Text.strip p s).toList ⊆ s.toList := by
  rw [Text.strip, String.toList_ofList]
  exact Text.stripChars_subset p s.toList

theorem Collection.bareName_subset (raw : String) :
    (Collection.bareName raw).toList ⊆ raw.toList := by
  intro c hc
  exact Text.strip_subset _ _ (Text.strip_subset _ _ (Text.strip_subset _ _ hc))

namespace ColumnRef

theorem labelTail?_subset {cs word : List Char} (h : labelTail? cs = some word) : word ⊆ cs := by
  unfold labelTail? at h
  split at h
  next => cases h
  next c rest =>
    split at h
    next =>
      split at h
      next a s b tail hd =>
        have htail : tail ⊆ c :: rest := by
          intro x hx
          apply (List.dropWhile_sublist Text.isBlank).subset
          rw [hd]
          simp [hx]
        split at h
        next =>
          simp only at h
          split at h
          next => cases h
          next =>
            split at h
            next =>
              cases h
              intro x hx
              exact htail ((List.dropWhile_sublist _).subset ((List.takeWhile_sublist _).subset hx))
            next => cases h
        next => cases h
      next => cases h
    next => cases h

theorem shortestExpression?_subset {cs expression label : List Char}
    (h : shortestExpression? cs = some (expression, label)) :
    expression ⊆ cs ∧ label ⊆ cs := by
  induction cs generalizing expression with
  | nil => cases h
  | cons c rest ih =>
    rw [shortestExpression?] at h
    split at h
    next => cases h
    next =>
      split at h
      next l hl =>
        cases h
        exact ⟨by simp, fun x hx => List.mem_cons_of_mem c (labelTail?_subset hl hx)⟩
      next =>
        obtain ⟨⟨e, l⟩, he, heq⟩ := Option.map_eq_some_iff.mp h
        cases heq
        have hsub := ih he
        refine ⟨List.cons_subset_cons c hsub.1, ?_⟩
        exact fun x hx => List.mem_cons_of_mem c (hsub.2 hx)

theorem splitLabel?_subset {cs expression label : List Char}
    (h : splitLabel? cs = some (expression, label)) : expression ⊆ cs ∧ label ⊆ cs := by
  induction cs with
  | nil => cases h
  | cons c rest ih =>
    rw [splitLabel?] at h
    split at h
    next =>
      split at h
      next found hf =>
        cases h
        have hsub := ih hf
        exact ⟨fun x hx => List.mem_cons_of_mem c (hsub.1 hx),
          fun x hx => List.mem_cons_of_mem c (hsub.2 hx)⟩
      next => exact shortestExpression?_subset h
    next => exact shortestExpression?_subset h

theorem splitPoint_subset (cs : List Char) :
    (∀ q ∈ (splitPoint cs).1, q ⊆ cs) ∧ (splitPoint cs).2 ⊆ cs := by
  unfold splitPoint
  split
  next => exact ⟨fun q hq => (nomatch hq), fun _ hx => hx⟩
  next c rest hd =>
    refine ⟨?_, ?_⟩
    · intro q hq
      cases hq
      exact (List.takeWhile_sublist _).subset
    · intro x hx
      apply (List.dropWhile_sublist fun c => decide (c ≠ '.')).subset
      rw [hd]
      exact List.mem_cons_of_mem c hx

theorem splitPoint_append {cs rest : List Char} (h : '.' ∉ cs) :
    splitPoint (cs ++ '.' :: rest) = (some cs, rest) := by
  have hne : ∀ c ∈ cs, decide (c ≠ '.') = true := by
    intro c hc
    exact decide_eq_true fun he => h (he ▸ hc)
  unfold splitPoint
  rw [List.dropWhile_append_of_pos hne, List.takeWhile_append_of_pos hne]
  simp

/-- The expression and the label that a column string is split into. -/
def splitText (raw : String) : List Char × Option (List Char) :=
  match splitLabel? raw.toList with
  | some (expression, label) => (expression, some label)
  | none => (raw.toList, none)

theorem splitText_subset (raw : String) :
    (splitText raw).1 ⊆ raw.toList ∧ ∀ l ∈ (splitText raw).2, l ⊆ raw.toList := by
  unfold splitText
  split
  next expression label h =>
    have hsub := splitLabel?_subset h
    refine ⟨hsub.1, ?_⟩
    intro l hl
    cases hl
    exact hsub.2
  next => exact ⟨fun _ hx => hx, fun l hl => nomatch hl⟩

theorem parse_eq (raw : String) :
    parse raw =
      { qualifier := (splitPoint (splitText raw).1).1.map
          fun cs => Collection.bareName (String.ofList cs)
        column := Collection.bareName (String.ofList (splitPoint (splitText raw).1).2)
        label := (splitText raw).2.map fun cs => Collection.bareName (String.ofList cs) } := by
  unfold parse splitText
  cases splitLabel? raw.toList <;> rfl

theorem parse_subset (raw : String) :
    (parse raw).column.toList ⊆ raw.toList ∧
      ∀ l ∈ (parse raw).label, l.toList ⊆ raw.toList := by
  have ht := splitText_subset raw
  have hp := splitPoint_subset (splitText raw).1
  rw [parse_eq]
  refine ⟨?_, ?_⟩
  · intro c hc
    have hb := Collection.bareName_subset _ hc
    rw [String.toList_ofList] at hb
    exact ht.1 (hp.2 hb)
  · intro l hl c hc
    obtain ⟨cs, hcs, rfl⟩ := Option.map_eq_some_iff.mp hl
    have hb := Collection.bareName_subset _ hc
    rw [String.toList_ofList] at hb
    exact ht.2 cs hcs hb

end ColumnRef

namespace Scope

/-- A column that resolves is one of a collection in scope, with the parts of its string. -/
theorem resolve_ok {s : Scope} {raw : String} {c : ResolvedColumn} (h : s.resolve raw = .ok c) :
    c.collection ∈ s.collections ∧ c.entity = Collection.variableName c.collection ∧
      (∀ x ∈ c.column, x = (ColumnRef.parse raw).column) ∧
      c.label = (ColumnRef.parse raw).label := by
  unfold resolve at h
  simp only at h
  split at h
  next => cases h
  next collection hc =>
    cases h
    refine ⟨?_, rfl, ?_, rfl⟩
    · unfold collectionOf at hc
      split at hc
      next =>
        split at hc
        next found hf =>
          cases hc
          exact List.mem_of_find?_eq_some hf
        next => cases hc
      next =>
        split at hc
        next => cases hc
        next =>
          cases hc
          exact List.mem_cons_self
    · intro x hx
      simp only at hx
      split at hx
      · cases hx
      · exact (Option.some.inj hx).symm

/-- A column that may be written is one of the source, without a label. -/
theorem resolveTarget_ok {s : Scope} {raw : String} {c : ResolvedColumn}
    (h : s.resolveTarget raw = .ok c) :
    c.collection = s.source ∧ c.entity = Collection.variableName s.source ∧
      (∀ x ∈ c.column, x = (ColumnRef.parse raw).column) ∧ c.label = none := by
  unfold resolveTarget at h
  simp only at h
  split at h
  next => cases h
  next =>
    split at h
    next => cases h
    next r hr =>
      split at h
      next hsource =>
        cases h
        -- a qualified column resolves as it is read, any other one belongs to the source
        split at hr
        next =>
          cases hres : s.resolve raw with
          | error e =>
            rw [hres] at hr
            cases hr
          | ok found =>
            rw [hres] at hr
            cases hr
            have ho := resolve_ok hres
            refine ⟨hsource, ?_, ho.2.2.1, rfl⟩
            rw [← hsource]
            exact ho.2.1
        next =>
          cases hr
          exact ⟨rfl, rfl, fun x hx => (Option.some.inj hx).symm, rfl⟩
      next => cases h

end Scope

end AqlQuery

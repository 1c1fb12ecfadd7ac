import AqlQuery.Proofs.Column.Label
import AqlQuery.Proofs.Column.Names
import AqlQuery.Proofs.Outcome

/-!
# Which collection a qualifier names

A qualifier is the name of a collection or that of its loop variable, and the first collection of
the scope that fits is meant, the source before the joined ones. A collection is reached by its own
name unless this is the loop variable of one that comes before it; then the qualifier means that
other one.
-/

namespace AqlQuery

namespace Scope

/-- The qualifier is the name or the loop variable of the collection. -/
def Refers (qualifier collection : String) : Prop :=
  qualifier = collection ∨ qualifier = Collection.variableName collection

/-- The collection is the first of the scope that the qualifier refers to. -/
def Addresses (s : Scope) (qualifier collection : String) : Prop :=
  ∃ front back, s.collections = front ++ collection :: back ∧ Refers qualifier collection ∧
    ∀ d ∈ front, ¬ Refers qualifier d

/-! ## The search for a collection -/

theorem names_eq_true_iff {qualifier collection : String} :
    names qualifier collection = true ↔ Refers qualifier collection := by
  rw [names, Bool.or_eq_true, beq_iff_eq, beq_iff_eq]
  rfl

theorem find?_eq_some_iff {s : Scope} {qualifier collection : String} :
    s.find? qualifier = some collection ↔ s.Addresses qualifier collection := by
  unfold find? Addresses
  rw [List.find?_eq_some_iff_append]
  constructor
  · rintro ⟨hrefers, front, back, hcut, hfront⟩
    refine ⟨front, back, hcut, names_eq_true_iff.mp hrefers, fun d hd hrefers => ?_⟩
    have hnot := hfront d hd
    rw [names_eq_true_iff.mpr hrefers] at hnot
    cases hnot
  · rintro ⟨front, back, hcut, hrefers, hfront⟩
    refine ⟨names_eq_true_iff.mpr hrefers, front, back, hcut, fun d hd => ?_⟩
    cases hn : names qualifier d with
    | false => rfl
    | true => exact absurd (names_eq_true_iff.mp hn) (hfront d hd)

theorem find?_eq_none_iff {s : Scope} {qualifier : String} :
    s.find? qualifier = none ↔ ∀ d ∈ s.collections, ¬ Refers qualifier d := by
  unfold find?
  simp only [List.find?_eq_none, names_eq_true_iff]

theorem Addresses.unique {s : Scope} {qualifier c d : String} (hc : s.Addresses qualifier c)
    (hd : s.Addresses qualifier d) : c = d := by
  rw [← find?_eq_some_iff] at hc hd
  exact Option.some.inj (hc.symm.trans hd)

/-- Nothing comes before the source. -/
theorem addresses_source_iff {s : Scope} {qualifier : String} :
    s.Addresses qualifier s.source ↔ Refers qualifier s.source := by
  constructor
  · rintro ⟨_, _, _, hrefers, _⟩
    exact hrefers
  · exact fun hrefers => ⟨[], s.joined, rfl, hrefers, fun _ hd => nomatch hd⟩

/-! ## Reading and writing -/

theorem isWhole_eq_false {c : ColumnRef} (h : c.column ≠ wholeDocument) : c.isWhole = false :=
  beq_eq_false_iff_ne.mpr h

theorem resolve_of_addresses {s : Scope} {raw qualifier collection : String}
    (hq : (ColumnRef.parse raw).qualifier = some qualifier)
    (ha : s.Addresses qualifier collection) :
    s.resolve raw = .ok
      { collection
        entity := Collection.variableName collection
        column := if (ColumnRef.parse raw).isWhole then none else some (ColumnRef.parse raw).column
        label := (ColumnRef.parse raw).label } := by
  simp only [resolve, collectionOf, hq, find?_eq_some_iff.mpr ha]

theorem resolve_of_unknown {s : Scope} {raw qualifier : String}
    (hq : (ColumnRef.parse raw).qualifier = some qualifier)
    (hn : ∀ d ∈ s.collections, ¬ Refers qualifier d) :
    s.resolve raw = .error (.unknownEntity raw qualifier) := by
  simp only [resolve, collectionOf, hq, find?_eq_none_iff.mpr hn]

/-- The attribute of the source under a name. -/
def sourceColumn (s : Scope) (name : String) : ResolvedColumn :=
  ⟨s.source, Collection.variableName s.source, some name, none⟩

/-- What a column string resolves to for writing, case by case. -/
inductive Targets (s : Scope) (raw : String) : Except ResolveError ResolvedColumn → Prop
  | whole (hcolumn : (ColumnRef.parse raw).column = wholeDocument) :
    Targets s raw (.error (.notWritable raw s.source))
  | bare (hcolumn : (ColumnRef.parse raw).column ≠ wholeDocument)
    (hq : (ColumnRef.parse raw).qualifier = none) :
    Targets s raw (.ok (s.sourceColumn (ColumnRef.parse raw).column))
  | source {qualifier : String} (hcolumn : (ColumnRef.parse raw).column ≠ wholeDocument)
    (hq : (ColumnRef.parse raw).qualifier = some qualifier) (ha : s.Addresses qualifier s.source) :
    Targets s raw (.ok (s.sourceColumn (ColumnRef.parse raw).column))
  | joined {qualifier collection : String}
    (hcolumn : (ColumnRef.parse raw).column ≠ wholeDocument)
    (hq : (ColumnRef.parse raw).qualifier = some qualifier)
    (ha : s.Addresses qualifier collection) (hne : collection ≠ s.source) :
    Targets s raw (.error (.notWritable raw s.source))
  | unknown {qualifier : String} (hcolumn : (ColumnRef.parse raw).column ≠ wholeDocument)
    (hq : (ColumnRef.parse raw).qualifier = some qualifier)
    (hn : ∀ d ∈ s.collections, ¬ Refers qualifier d) :
    Targets s raw (.error (.unknownEntity raw qualifier))

theorem targets_resolveTarget (s : Scope) (raw : String) : s.Targets raw (s.resolveTarget raw) := by
  by_cases hcolumn : (ColumnRef.parse raw).column = wholeDocument
  · have hwhole : (ColumnRef.parse raw).isWhole = true := beq_iff_eq.mpr hcolumn
    rw [resolveTarget]
    simp only [hwhole, if_true]
    exact .whole hcolumn
  have hwhole := isWhole_eq_false hcolumn
  cases hq : (ColumnRef.parse raw).qualifier with
  | none =>
    simp only [resolveTarget, hwhole, hq, Bool.false_eq_true, if_false, if_true]
    exact .bare hcolumn hq
  | some qualifier =>
    simp only [resolveTarget, hwhole, hq, Bool.false_eq_true, if_false]
    cases hf : s.find? qualifier with
    | none =>
      rw [find?_eq_none_iff] at hf
      rw [resolve_of_unknown hq hf]
      exact .unknown hcolumn hq hf
    | some collection =>
      rw [find?_eq_some_iff] at hf
      rw [resolve_of_addresses hq hf]
      simp only [Except.map, hwhole, Bool.false_eq_true, if_false]
      by_cases hsource : collection = s.source
      · subst hsource
        rw [if_pos rfl]
        exact .source hcolumn hq hf
      · rw [if_neg hsource]
        exact .joined hcolumn hq hf hsource

end Scope

/-! ## Plain names -/

/-- No blank, point or backtick is in the name. -/
def Collection.IsPlain (name : String) : Prop :=
  ∀ c ∈ name.toList, Text.isBlank c = false ∧ c ≠ '.' ∧ c ≠ '\x60'

instance (name : String) : Decidable (Collection.IsPlain name) := List.decidableBAll ..

theorem Collection.bareName_of_isPlain {name : String} (h : IsPlain name) :
    bareName name = name := by
  have hunbroken : Text.IsUnbroken name := fun c hc => (h c hc).1
  have hkept : Text.stripChars isBacktick name.toList = name.toList := by
    apply Text.stripChars_eq_self
    · exact fun c hc => beq_eq_false_iff_ne.mpr (h c (List.mem_of_mem_head? hc)).2.2
    · exact fun c hc => beq_eq_false_iff_ne.mpr (h c (List.mem_of_getLast? hc)).2.2
  rw [bareName_of_isUnbroken hunbroken, Text.strip, hkept, String.ofList_toList]

theorem Collection.variableName_of_isPlain {name : String} (h : IsPlain name) :
    variableName name = name ++ variableSuffix := by
  rw [variableName, bareName_of_isPlain h]

/-- One word alone leaves no room for a label. -/
theorem ColumnRef.splitText_of_isUnbroken {raw : String} (h : Text.IsUnbroken raw)
    (hne : raw.toList ≠ []) : splitText raw = (raw.toList, none) := by
  have hword : Text.IsWord raw.toList := ⟨hne, h⟩
  apply splitText_of_none
  rw [Option.eq_none_iff_forall_ne_some]
  rintro ⟨expression, label⟩ hfound
  obtain ⟨keyword, _, hwords⟩ := words_of_splitLabel? hfound
  rw [hword.words_eq] at hwords
  have hlength := congrArg List.length hwords
  simp only [List.length_append, List.length_cons, List.length_nil] at hlength
  omega

theorem ColumnRef.parse_of_isPlain {c x : String} (hc : Collection.IsPlain c)
    (hx : Collection.IsPlain x) : parse (c ++ "." ++ x) = ⟨some c, x, none⟩ := by
  have hlist : (c ++ "." ++ x).toList = c.toList ++ '.' :: x.toList := by simp
  have hpoint : '.' ∉ c.toList := fun hm => (hc '.' hm).2.1 rfl
  have hunbroken : Text.IsUnbroken (c ++ "." ++ x) :=
    (Text.IsUnbroken.append (fun d hd => (hc d hd).1) (by decide)).append fun d hd => (hx d hd).1
  have hsplit := splitText_of_isUnbroken hunbroken (by rw [hlist]; simp)
  rw [parse_eq, hsplit, hlist, splitPoint_append hpoint]
  simp only [Option.map_some, Option.map_none, String.ofList_toList,
    Collection.bareName_of_isPlain hc, Collection.bareName_of_isPlain hx]

namespace Scope

variable {source c x : String} {joined front back : List String}

theorem collections_of_isPlain (hnames : ∀ name ∈ source :: joined, Collection.IsPlain name) :
    (ofNames source joined).collections = source :: joined := by
  have hall : (source :: joined).map Collection.bareName = (source :: joined).map id :=
    List.map_congr_left fun name hm => Collection.bareName_of_isPlain (hnames name hm)
  rw [List.map_id] at hall
  exact hall

section PlainNames

variable (hnames : ∀ name ∈ source :: joined, Collection.IsPlain name)
  (hnodup : (source :: joined).Nodup) (hc : source :: joined = front ++ c :: back)
include hnames hnodup hc

/-- A collection is addressed by its own name if this is not the variable of one before it. -/
theorem addresses_self (hfree : ∀ d ∈ front, c ≠ d ++ Collection.variableSuffix) :
    (ofNames source joined).Addresses c c := by
  refine ⟨front, back, (collections_of_isPlain hnames).trans hc, Or.inl rfl, ?_⟩
  intro d hd hrefers
  have hmem : d ∈ source :: joined := hc ▸ List.mem_append_left _ hd
  rw [Refers, Collection.variableName_of_isPlain (hnames d hmem)] at hrefers
  rcases hrefers with rfl | hvariable
  · rw [hc] at hnodup
    exact (List.nodup_append.mp hnodup).2.2 c hd c List.mem_cons_self rfl
  · exact hfree d hd hvariable

/-- A collection whose loop variable is the name of a later one is addressed by that name. -/
theorem addresses_shadowing {d : String} (hd : d ∈ front)
    (hvariable : c = d ++ Collection.variableSuffix) : (ofNames source joined).Addresses c d := by
  obtain ⟨front₁, front₂, rfl⟩ := List.append_of_mem hd
  have hcut : source :: joined = front₁ ++ d :: (front₂ ++ c :: back) := by
    rw [hc]
    simp
  have hdplain := hnames d (hcut ▸ List.mem_append_right _ List.mem_cons_self)
  refine ⟨front₁, front₂ ++ c :: back, (collections_of_isPlain hnames).trans hcut,
    Or.inr ?_, ?_⟩
  · rw [hvariable, Collection.variableName_of_isPlain hdplain]
  · intro e he hrefers
    have hemem : e ∈ source :: joined := hcut ▸ List.mem_append_left _ he
    rw [Refers, Collection.variableName_of_isPlain (hnames e hemem)] at hrefers
    rw [hcut] at hnodup
    -- neither `c` nor `d` comes a second time in front of `d`
    have hother := (List.nodup_append.mp hnodup).2.2 e he
    rcases hrefers with hsame | hsame
    · exact hother c (by simp) hsame.symm
    · have hed : e = d := (String.append_left_inj _).mp (hsame.symm.trans hvariable)
      exact hother d List.mem_cons_self hed

end PlainNames

/-- A column under the name of a collection can be written where this is the name of the source or
of its variable. -/
theorem resolveTarget_of_isPlain (hnames : ∀ name ∈ source :: joined, Collection.IsPlain name)
    (hc : c ∈ source :: joined) (hx : Collection.IsPlain x) (hwhole : x ≠ wholeDocument) :
    (ofNames source joined).resolveTarget (c ++ "." ++ x) =
      if c = source ∨ c = source ++ Collection.variableSuffix then
        .ok ⟨source, source ++ Collection.variableSuffix, some x, none⟩
      else .error (.notWritable (c ++ "." ++ x) source) := by
  have hparse := ColumnRef.parse_of_isPlain (hnames c hc) hx
  have hsplain := hnames source List.mem_cons_self
  have hsource : (ofNames source joined).source = source := Collection.bareName_of_isPlain hsplain
  have hrefers : Refers c (ofNames source joined).source ↔
      c = source ∨ c = source ++ Collection.variableSuffix := by
    rw [hsource, Refers, Collection.variableName_of_isPlain hsplain]
  have htargets := targets_resolveTarget (ofNames source joined) (c ++ "." ++ x)
  generalize (ofNames source joined).resolveTarget (c ++ "." ++ x) = outcome at htargets ⊢
  cases htargets with
  | whole hcolumn =>
    rw [hparse] at hcolumn
    exact absurd hcolumn hwhole
  | bare _ hq =>
    rw [hparse] at hq
    cases hq
  | source _ hq ha =>
    rw [hparse] at hq ⊢
    cases hq
    rw [if_pos (hrefers.mp (addresses_source_iff.mp ha)), sourceColumn, hsource,
      Collection.variableName_of_isPlain hsplain]
  | joined _ hq ha hne =>
    rw [hparse] at hq
    cases hq
    have hother : ¬ Refers c (ofNames source joined).source :=
      fun h => hne (ha.unique (addresses_source_iff.mpr h))
    rw [if_neg fun h => hother (hrefers.mpr h), hsource]
  | unknown _ hq hn =>
    rw [hparse] at hq
    cases hq
    have hmem : c ∈ (ofNames source joined).collections := by
      rw [collections_of_isPlain hnames]
      exact hc
    exact absurd (Or.inl rfl) (hn c hmem)

/-- Among distinct plain names, a column under the name of a collection is read from that collection
exactly if no collection before it has a loop variable of the same name; otherwise it is read from
the one that has. It can be written where the name is that of the source or of its variable. -/
theorem resolve_own_name_iff (hnames : ∀ name ∈ source :: joined, Collection.IsPlain name)
    (hnodup : (source :: joined).Nodup) (hc : source :: joined = front ++ c :: back)
    (hx : Collection.IsPlain x) (hwhole : x ≠ wholeDocument) :
    ((ofNames source joined).resolve (c ++ "." ++ x) =
        .ok ⟨c, c ++ Collection.variableSuffix, some x, none⟩ ↔
      ∀ d ∈ front, c ≠ d ++ Collection.variableSuffix) ∧
    (∀ d ∈ front, c = d ++ Collection.variableSuffix →
      (ofNames source joined).resolve (c ++ "." ++ x) = .ok ⟨d, c, some x, none⟩) ∧
    (ofNames source joined).resolveTarget (c ++ "." ++ x) =
      if c = source ∨ c = source ++ Collection.variableSuffix then
        .ok ⟨source, source ++ Collection.variableSuffix, some x, none⟩
      else .error (.notWritable (c ++ "." ++ x) source) := by
  have hplain : ∀ {d}, d ∈ front ++ [c] → Collection.IsPlain d := by
    intro d hd
    apply hnames
    rw [hc]
    simp only [List.mem_append, List.mem_cons, List.not_mem_nil, or_false] at hd ⊢
    exact hd.imp_right Or.inl
  have hcplain := hplain (List.mem_append_right front List.mem_cons_self)
  have hparse := ColumnRef.parse_of_isPlain hcplain hx
  have hqualifier := congrArg ColumnRef.qualifier hparse
  have hread {d : String} (ha : (ofNames source joined).Addresses c d) :
      (ofNames source joined).resolve (c ++ "." ++ x) =
        .ok ⟨d, Collection.variableName d, some x, none⟩ := by
    rw [resolve_of_addresses hqualifier ha, hparse]
    have hcolumn : ColumnRef.isWhole ⟨some c, x, none⟩ = false := isWhole_eq_false hwhole
    simp only [hcolumn, Bool.false_eq_true, if_false]
  have hshadow : ∀ d ∈ front, c = d ++ Collection.variableSuffix →
      (ofNames source joined).resolve (c ++ "." ++ x) = .ok ⟨d, c, some x, none⟩ := by
    intro d hd hvariable
    have hdplain := hplain (List.mem_append_left [c] hd)
    rw [hread (addresses_shadowing hnames hnodup hc hd hvariable),
      Collection.variableName_of_isPlain hdplain, ← hvariable]
  refine ⟨⟨fun hresolve d hd hvariable => ?_, fun hfree => ?_⟩, hshadow, ?_⟩
  · -- read from `d`, the column is not one of `c`, which does not come before itself
    have hsame := Except.ok.inj (hresolve.symm.trans (hshadow d hd hvariable))
    have hcd : c = d := congrArg ResolvedColumn.collection hsame
    rw [hc] at hnodup
    exact (List.nodup_append.mp hnodup).2.2 d hd c List.mem_cons_self hcd.symm
  · rw [hread (addresses_self hnames hnodup hc hfree), Collection.variableName_of_isPlain hcplain]
  · have hmem : c ∈ source :: joined := hc ▸ List.mem_append_right front List.mem_cons_self
    exact resolveTarget_of_isPlain hnames hmem hx hwhole

theorem resolve_own_name_iff_roles :
    (∀ name ∈ ["users_entity", "roles", "users"], Collection.IsPlain name) ∧
      ["users_entity", "roles", "users"].Nodup ∧ Collection.IsPlain "_key" ∧
      "_key" ≠ wholeDocument ∧
      (ofNames "users_entity" ["roles", "users"]).resolve "users._key" =
        .ok ⟨"users", "users_entity", some "_key", none⟩ ∧
      (ofNames "users_entity" ["roles", "users"]).resolveTarget "users._key" =
        .error (.notWritable "users._key" "users_entity") := by
  have hown := @resolve_own_name_iff "users_entity" "users" "_key" ["roles", "users"]
    ["users_entity", "roles"] [] (by decide) (by decide) rfl (by decide) (by decide)
  have hraw : "users" ++ "." ++ "_key" = "users._key" := rfl
  have hvariable : "users" ++ Collection.variableSuffix = "users_entity" := rfl
  have hother : ¬ ("users" = "users_entity" ∨
      "users" = "users_entity" ++ Collection.variableSuffix) := by decide
  rw [hraw, hvariable, if_neg hother] at hown
  exact ⟨by decide, by decide, by decide, by decide, hown.1.mpr (by decide), hown.2.2⟩

theorem own_name_is_shadowed :
    (∀ name ∈ ["users", "users_entity"], Collection.IsPlain name) ∧
      ["users", "users_entity"].Nodup ∧ Collection.IsPlain "x" ∧
      (ofNames "users" ["users_entity"]).resolve "users_entity.x" =
        .ok ⟨"users", "users_entity", some "x", none⟩ ∧
      (ofNames "users" ["users_entity"]).resolveTarget "users_entity.x" =
        .ok ⟨"users", "users_entity", some "x", none⟩ :=
  ⟨by decide, by decide, by decide, Outcome.ok_of_toOption (by decide +kernel),
    Outcome.ok_of_toOption (by decide +kernel)⟩

end Scope

end AqlQuery

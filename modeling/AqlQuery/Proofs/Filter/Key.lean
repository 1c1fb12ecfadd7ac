import AqlQuery.Proofs.Aql.Layout
import AqlQuery.Proofs.Column.Addressing
import AqlQuery.Proofs.Column.Parts
import AqlQuery.Proofs.Filter.Meaning
import AqlQuery.Proofs.Statement.Failure

/-!
# The condition on the key

A condition on the key is linked by `AND` to the conditions before it. As `AND` binds tighter than
`OR`, it restricts the rows if no `OR` is written among them; after an `OR` it belongs to the last
conjunction only, and rows without the key pass by the others. Its column is qualified by the
source, so that it stays the key of the source under any joins.
-/

namespace AqlQuery

namespace Aql

/-! ## Linked values -/

/-- Behind conditions without an `OR`, a condition has to hold. -/
theorem linkedValue_concat {values : List (Connective × Bool)} (h : ∀ p ∈ values.tail, p.1 = .and)
    (b : Bool) : linkedValue (values ++ [(.and, b)]) = (values.all Prod.snd && b) := by
  cases values with
  | nil => exact (Bool.true_and b).symm
  | cons p rest =>
    -- with the last one added there is still no `OR`, so all have to hold
    have hlinks : ∀ p ∈ rest ++ [(Connective.and, b)], p.1 = .and := by
      intro p hp
      rcases List.mem_append.mp hp with hm | hm
      · exact h p hm
      · rw [List.mem_singleton.mp hm]
    change joinedValue p.2 (rest ++ [(.and, b)]) = _
    rw [joinedValue_of_and p.2 hlinks, List.all_append, List.all_cons, List.all_cons, List.all_nil,
      Bool.and_true, Bool.and_assoc]

theorem joinedValue_of_true {values : List (Connective × Bool)} (htrue : ∀ p ∈ values, p.2 = true) :
    joinedValue true values = true := by
  induction values with
  | nil => rfl
  | cons p rest ih =>
    obtain ⟨link, b⟩ := p
    cases htrue (link, b) List.mem_cons_self
    cases link with
    | or => rfl
    | and => exact ih fun p hm => htrue p (List.mem_cons_of_mem _ hm)

/-- The conjunctions before an `OR` make the whole hold, whatever comes behind. -/
theorem joinedValue_of_or {values : List (Connective × Bool)} (htrue : ∀ p ∈ values, p.2 = true)
    (hor : ∃ p ∈ values, p.1 = .or) (rest : List (Connective × Bool)) :
    joinedValue true (values ++ rest) = true := by
  induction values with
  | nil =>
    obtain ⟨p, hp, _⟩ := hor
    cases hp
  | cons p values ih =>
    obtain ⟨link, b⟩ := p
    cases htrue (link, b) List.mem_cons_self
    cases link with
    | or => rfl
    | and =>
      apply ih fun p hm => htrue p (List.mem_cons_of_mem _ hm)
      obtain ⟨p, hp, hlink⟩ := hor
      rcases List.mem_cons.mp hp with rfl | hm
      · cases hlink
      · exact ⟨p, hm, hlink⟩

theorem linkedValue_of_true {values : List (Connective × Bool)} (htrue : ∀ p ∈ values, p.2 = true) :
    linkedValue values = true := by
  cases values with
  | nil => rfl
  | cons p rest =>
    change joinedValue p.2 rest = true
    rw [htrue p List.mem_cons_self]
    exact joinedValue_of_true fun q hm => htrue q (List.mem_cons_of_mem _ hm)

end Aql

namespace Condition

open Aql

/-! ## A condition behind others -/

theorem memberLeaves_append (xs ys : List Predicate) :
    memberLeaves (xs ++ ys) = memberLeaves xs ++ memberLeaves ys := by
  induction xs with
  | nil => rfl
  | cons p rest ih => rw [List.cons_append, memberLeaves, memberLeaves, ih, List.append_assoc]

/-- The predicates that are written. -/
def written (predicates : List Predicate) : List Predicate :=
  predicates.filter fun p => !p.2.isVacuous

theorem memberValues_eq_map (w : Condition → Bool) (predicates : List Predicate) :
    memberValues w predicates = (written predicates).map fun p => (p.1, p.2.value w) := by
  induction predicates with
  | nil => rfl
  | cons p rest ih =>
    rw [memberValues, written, List.filter_cons, ih]
    cases p.2.isVacuous <;> rfl

mutual
/-- A condition holds if all that it compares holds. -/
theorem value_of_leaves {w : Condition → Bool} (condition : Condition)
    (h : ∀ c ∈ condition.leaves, w c = true) : condition.value w = true := by
  cases condition with
  | group members => exact linkedValue_of_true (memberValues_of_leaves members h)
  | _ => exact h _ List.mem_cons_self
theorem memberValues_of_leaves {w : Condition → Bool} (members : List Predicate)
    (h : ∀ c ∈ memberLeaves members, w c = true) :
    ∀ p ∈ memberValues w members, p.2 = true := by
  cases members with
  | nil => exact fun p hp => nomatch hp
  | cons first rest =>
    obtain ⟨link, condition⟩ := first
    rw [memberLeaves] at h
    have hfirst := value_of_leaves condition fun c hm => h c (List.mem_append_left _ hm)
    have hrest := memberValues_of_leaves rest fun c hm => h c (List.mem_append_right _ hm)
    rw [memberValues]
    split
    · exact hrest
    · exact List.forall_mem_cons.mpr ⟨hfirst, hrest⟩
end

theorem memberValues_concat {predicates : List Predicate} {condition : Condition}
    (hc : condition.isVacuous = false) (w : Condition → Bool) :
    memberValues w (predicates ++ [(.and, condition)]) =
      memberValues w predicates ++ [(.and, condition.value w)] := by
  rw [memberValues_eq_map, memberValues_eq_map, written, List.filter_append, List.map_append,
    List.filter_cons, hc]
  rfl

theorem value_of_listValue {predicates : List Predicate} {condition : Condition}
    (hc : condition.isVacuous = false) (hor : isDisjunctive (written predicates) = false)
    {w : Condition → Bool} (h : listValue w (predicates ++ [(.and, condition)]) = true) :
    condition.value w = true := by
  -- vacuous members have no value, so the connectives are those of the written ones
  have hlinks : ∀ p ∈ (memberValues w predicates).tail, p.1 = .and := by
    intro p hp
    rw [memberValues_eq_map, ← List.map_tail, ← List.drop_one] at hp
    obtain ⟨p', hm, rfl⟩ := List.mem_map.mp hp
    have hlink := List.any_eq_false.mp hor p' hm
    cases hl : p'.1 with
    | and => rfl
    | or => simp [hl] at hlink
  rw [listValue, memberValues_concat hc, linkedValue_concat hlinks, Bool.and_eq_true] at h
  exact h.2

theorem listValue_of_or {predicates : List Predicate} {condition : Condition}
    (hc : condition.isVacuous = false) (hor : isDisjunctive (written predicates) = true)
    {w : Condition → Bool} (h : ∀ c ∈ memberLeaves predicates, w c = true) :
    listValue w (predicates ++ [(.and, condition)]) = true := by
  have htrue := memberValues_of_leaves predicates h
  obtain ⟨p, hp, hlink⟩ := List.any_eq_true.mp hor
  have hmem : (p.1, p.2.value w) ∈ (memberValues w predicates).tail := by
    rw [memberValues_eq_map, ← List.map_tail, ← List.drop_one]
    exact List.mem_map_of_mem hp
  rw [listValue, memberValues_concat hc]
  cases hv : memberValues w predicates with
  | nil =>
    rw [hv] at hmem
    cases hmem
  | cons first rest =>
    rw [hv] at hmem htrue
    change joinedValue first.2 (rest ++ _) = true
    rw [htrue first List.mem_cons_self]
    exact joinedValue_of_or (fun p hm => htrue p (List.mem_cons_of_mem _ hm))
      ⟨_, hmem, beq_iff_eq.mp hlink⟩ _

end Condition

/-! ## The column of the key -/

/-- A source that has no point, and does not read as an expression with a label, qualifies its
key. -/
theorem Scope.resolve_key {source : String} (joined : List String) (hpoint : '.' ∉ source.toList)
    (hlabel : (ColumnRef.parse (source ++ "." ++ primaryKey)).label = none) :
    (Scope.ofNames source joined).resolve (source ++ "." ++ primaryKey) =
      .ok ⟨Collection.bareName source, Collection.variableName (Collection.bareName source),
        some primaryKey, none⟩ := by
  have hparse : ColumnRef.parse (source ++ "." ++ primaryKey) =
      ⟨some (Collection.bareName source), primaryKey, none⟩ := by
    -- without a label the whole text is the expression, and its first point ends the source
    have hsplit : ColumnRef.splitText (source ++ "." ++ primaryKey) =
        (source.toList ++ '.' :: primaryKey.toList, none) := by
      rw [ColumnRef.parse_eq, Option.map_eq_none_iff] at hlabel
      unfold ColumnRef.splitText at hlabel ⊢
      split at hlabel
      next => cases hlabel
      next =>
        rw [String.toList_append, String.toList_append, List.append_assoc]
        rfl
    have hkey : Collection.bareName primaryKey = primaryKey := by decide
    rw [ColumnRef.parse_eq, hsplit, ColumnRef.splitPoint_append hpoint]
    simp only [Option.map_some, Option.map_none, String.ofList_toList, hkey]
  have hfind : (Scope.ofNames source joined).find? (Collection.bareName source) =
      some (Collection.bareName source) := by
    apply List.find?_cons_of_pos
    exact Bool.or_eq_true_iff.mpr (Or.inl (beq_self_eq_true (Collection.bareName source)))
  have hwhole : ColumnRef.isWhole ⟨some (Collection.bareName source), primaryKey, none⟩ = false :=
    rfl
  generalize source ++ "." ++ primaryKey = raw at hparse ⊢
  simp only [Scope.resolve, Scope.collectionOf, hparse, hfind, hwhole]
  rfl

namespace Aql

/-! ## What a filter says about a comparison -/

/-- Where the filter holds, the comparison holds. -/
def Entails (tokens : List Token) (c : Comparison) : Prop :=
  ∀ t, Reads .disjunction tokens t → ∀ v, t.eval v = true → v c = true

/-- The filter can hold where the comparison does not. -/
def HoldsWithout (tokens : List Token) (c : Comparison) : Prop :=
  ∃ v, v .never = false ∧ v c = false ∧ ∀ t, Reads .disjunction tokens t → t.eval v = true

section LastCondition

-- a filter whose last list of predicates ends with a condition, which is written as `c`
variable {s : Scope} {tokens : List Token} {lists : List (List Predicate)}
  {predicates : List Predicate} {condition : Condition} {c : Comparison}
  (hvalue : ∀ t, Reads .disjunction tokens t → ∀ v,
    t.eval v = (lists ++ [predicates ++ [(Connective.and, condition)]]).all
      (Condition.listValue (holds s v)))
  (hwritten : condition.isVacuous = false)
include hvalue hwritten

theorem entails_of_and (hleaf : ∀ w, condition.value w = w condition)
    (hc : comparison? s condition = some c)
    (hor : isDisjunctive (Condition.written predicates) = false) : Entails tokens c := by
  intro t ht v htrue
  rw [hvalue t ht v, List.all_eq_true] at htrue
  have hlast := htrue _ (List.mem_append_right lists List.mem_cons_self)
  have hholds := Condition.value_of_listValue hwritten hor hlast
  rw [hleaf, holds, hc] at hholds
  exact hholds

theorem holdsWithout_of_or (hor : isDisjunctive (Condition.written predicates) = true)
    (hothers : ∀ d ∈ (lists ++ [predicates]).flatMap Condition.memberLeaves,
      ∃ e, comparison? s d = some e ∧ e ≠ c ∧ e ≠ .never) : HoldsWithout tokens c := by
  -- every comparison but the last one holds, as far as it can
  refine ⟨fun e => decide (e ≠ c ∧ e ≠ .never), ?_, ?_, fun t ht => ?_⟩
  · exact decide_eq_false fun h => h.2 rfl
  · exact decide_eq_false fun h => h.1 rfl
  · have hholds : ∀ d ∈ (lists ++ [predicates]).flatMap Condition.memberLeaves,
        holds s (fun e => decide (e ≠ c ∧ e ≠ .never)) d = true := by
      intro d hd
      obtain ⟨e, he, hne⟩ := hothers d hd
      rw [holds, he]
      exact decide_eq_true hne
    rw [hvalue t ht, List.all_append, Bool.and_eq_true]
    rw [List.flatMap_append, List.flatMap_singleton] at hholds
    constructor
    · rw [List.all_eq_true]
      intro list hlist
      refine linkedValue_of_true (Condition.memberValues_of_leaves list fun d hd => ?_)
      exact hholds d (List.mem_append_left _ (List.mem_flatMap_of_mem hlist hd))
    · rw [List.all_cons, List.all_nil, Bool.and_true]
      exact Condition.listValue_of_or hwritten hor fun d hd =>
        hholds d (List.mem_append_right _ hd)

end LastCondition

end Aql

namespace Query

open Aql

/-- The comparisons that the conditions of a query are written as. -/
def comparisons (q : Query) : List Comparison :=
  ((predicateLists q).flatMap Condition.memberLeaves).filterMap (comparison? (Scope.ofQuery q))

theorem resolves_of_filterChain {q : Query} {chain : Chain}
    (h : filterChain (Scope.ofQuery q) q = .ok chain) :
    ∀ column ∈ q.conditionColumns, Resolves (Scope.ofQuery q) column := by
  intro column hm
  have hall := requires_filterChain q
  rw [Requires, h] at hall
  have hmet := List.findSome?_eq_none_iff.mp hall.symm (.resolves column) (List.mem_map_of_mem hm)
  cases hr : (Scope.ofQuery q).resolve column with
  | ok c => exact ⟨c, hr⟩
  | error e =>
    rw [Requirement.failure?, hr] at hmet
    cases hmet

/-- A statement that is no insert is filtered by the conditions of its query, if there are any. -/
theorem compileWith_filters {p : Query} {expected : Option Shape} {statement : Statement}
    (hm : ∀ records, p.mutation ≠ some (.insert records))
    (h : p.compileWith .default expected = .ok statement)
    (hne : (predicateLists p).flatMap Condition.memberLeaves ≠ []) :
    (∀ column ∈ p.conditionColumns, Resolves (Scope.ofQuery p) column) ∧
      statement.bindings = p.bindings ∧
      ∃ tokens, Filters p statement.text tokens ∧ (∃ t, Reads .disjunction tokens t) ∧
        (Token.leaves tokens).map some =
          ((predicateLists p).flatMap Condition.memberLeaves).map (comparison? (Scope.ofQuery p)) ∧
        ∀ t, Reads .disjunction tokens t → ∀ v,
          t.eval v = (predicateLists p).all (Condition.listValue (holds (Scope.ofQuery p) v)) := by
  rw [compileWith_default, normalize_of_not_insert hm] at h
  obtain ⟨_, _, h⟩ := Outcome.bind_ok h
  obtain ⟨_, _, h⟩ := Outcome.bind_ok h
  obtain ⟨program, hprogram, h⟩ := Outcome.bind_ok h
  cases h
  obtain ⟨chain, hchain, htext⟩ := Program.text_of_filter (by exact hm) hprogram
  have hresolves := @resolves_of_filterChain p chain hchain
  obtain ⟨chain', hchain', hproper, hleaves, hvalue⟩ := filterChain_means hresolves
  cases hchain.symm.trans hchain'
  have hchainne : chain ≠ [] := by
    intro hnil
    rw [← Formula.chainLeaves_eq_nil_iff hproper, ← List.map_eq_nil_iff, hleaves,
      List.map_eq_nil_iff] at hnil
    exact hne hnil
  obtain ⟨t, ht, heval⟩ := Formula.exists_chain_reading hchainne hproper
  refine ⟨hresolves, rfl, Formula.chainTokens chain, htext hchainne, ⟨t, ht⟩, ?_, ?_⟩
  · rw [Formula.leaves_chainTokens, hleaves]
  · intro t' ht' v
    rw [ht'.eval_eq ht v, heval v]
    exact hvalue v

/-- A query with the conditions of another one, whatever it does with the rows. -/
structure SameConditions (p q : Query) : Prop where
  source : p.source = q.source
  joins : p.joins = q.joins
  predicates : p.predicates = q.predicates
  bindings : p.bindings = q.bindings

/-- The condition on the key. -/
def keyCondition (q : Query) (key : Literal) : Condition :=
  .compare (q.source ++ "." ++ primaryKey) .eq (q.bindings.allocate key).1

theorem whereKey_eq {key : Literal} (hkey : key.isNull = false) (q : Query) :
    q.whereKey key = { q with
      predicates := q.predicates ++ [(.and, q.keyCondition key)]
      bindings := (q.bindings.allocate key).2 } := by
  rw [whereKey, filterEq, hkey]
  rfl

/-- A source without blanks and points has its key compared under its own loop variable, whatever
is joined: the source comes first in the scope, before a joined collection of the same name or with
the name of its variable. -/
theorem whereKey_reads_source {q : Query} {key : Literal} (hkey : key.isNull = false)
    (hblank : Text.IsUnbroken q.source) (hpoint : '.' ∉ q.source.toList) :
    let name := Collection.bareName q.source
    let column : ResolvedColumn := ⟨name, name ++ Collection.variableSuffix, some primaryKey, none⟩
    column.expression = name ++ "_entity._key" ∧
    ∃ raw operand,
      (q.whereKey key).predicates = q.predicates ++ [(.and, .compare raw .eq operand)] ∧
      ∀ joins : List Join,
        let scope := Scope.ofQuery { q.whereKey key with joins := joins }
        scope.resolve raw = .ok column ∧
          ∃ c, comparison? scope (.compare raw .eq operand) = some c ∧
            c.text = name ++ "_entity._key == " ++ operand.text := by
  intro name column
  have hexpression : column.expression = name ++ "_entity._key" := by
    show name ++ Collection.variableSuffix ++ "." ++ quoteAttribute primaryKey = _
    rw [String.append_assoc, String.append_assoc]
    rfl
  refine ⟨hexpression, _, _, congrArg Query.predicates (whereKey_eq hkey q), fun joins => ?_⟩
  intro scope
  have hlabel : (ColumnRef.parse (q.source ++ "." ++ primaryKey)).label = none := by
    have hunbroken : Text.IsUnbroken (q.source ++ "." ++ primaryKey) :=
      (hblank.append (by decide)).append (by decide)
    have hne : (q.source ++ "." ++ primaryKey).toList ≠ [] := by
      rw [String.toList_append]
      exact List.append_ne_nil_of_right_ne_nil _ (by decide)
    rw [ColumnRef.parse_eq, ColumnRef.splitText_of_isUnbroken hunbroken hne]
    rfl
  have hresolve : scope.resolve (q.source ++ "." ++ primaryKey) = .ok column := by
    have hsource : (q.whereKey key).source = q.source := by rw [whereKey_eq hkey]
    show (Scope.ofNames (q.whereKey key).source (joins.map Join.collection)).resolve _ = _
    -- the loop variable strips the name once more, which changes nothing
    rw [hsource, Scope.resolve_key _ hpoint hlabel, Collection.variableName,
      Collection.bareName_bareName hblank]
  refine ⟨hresolve, .binary column .eq (.operand (q.bindings.allocate key).1), ?_, ?_⟩
  · rw [comparison?, hresolve]
    rfl
  · show column.expression ++ " " ++ "==" ++ " " ++ _ = _
    rw [hexpression]
    simp only [String.append_assoc]
    rfl

/-- A source in backticks that are not even in pairs. -/
def backtickedQuery : Query := table "\x60\x60users\x60"

/-- The name of the source, that of its loop variable, and the source once more. -/
def likeNamedJoins : List Join :=
  [⟨"users", []⟩, ⟨"users_entity", []⟩, ⟨"\x60\x60users\x60", []⟩]

theorem whereKey_reads_source_likeNamed :
    (Literal.value (.string "k")).isNull = false ∧ Text.IsUnbroken backtickedQuery.source ∧
      '.' ∉ backtickedQuery.source.toList ∧
      ∃ raw operand,
        (backtickedQuery.whereKey (.value (.string "k"))).predicates =
          [(.and, .compare raw .eq operand)] ∧
        (Scope.ofQuery { backtickedQuery.whereKey (.value (.string "k")) with
          joins := likeNamedJoins }).resolve raw =
            .ok ⟨"users", "users_entity", some "_key", none⟩ := by
  have hname : Collection.bareName backtickedQuery.source = "users" := by decide
  obtain ⟨_, raw, operand, hpredicates, hjoins⟩ :=
    @whereKey_reads_source backtickedQuery (.value (.string "k")) rfl (by decide) (by decide)
  have hresolve := (hjoins likeNamedJoins).1
  rw [hname] at hresolve
  exact ⟨rfl, by decide, by decide, raw, operand, hpredicates, hresolve⟩

/-- A condition on the key is the last comparison of the filter. It restricts a statement if no `OR`
is written among the conditions before it. After an `OR` it does not, where neither the same
comparison nor one that never holds is among them. -/
theorem whereKey_restricts_unless_or {p q : Query} {key : Literal} {expected : Option Shape}
    {statement : Statement} (hkey : key.isNull = false) (hp : p.SameConditions (q.whereKey key))
    (hshape : p.shape ≠ .insert) (h : p.compileWith .default expected = .ok statement) :
    ∃ column tokens,
      let leaf := Comparison.binary column .eq (.operand (q.bindings.allocate key).1)
      ('.' ∉ q.source.toList → (ColumnRef.parse (q.source ++ "." ++ primaryKey)).label = none →
        column = ⟨(Scope.ofQuery q).source, (Scope.ofQuery q).sourceVariable, some primaryKey,
          none⟩) ∧
      (∀ datum, key = .value datum → ∃ name, (q.bindings.allocate key).1 = .bound name ∧
        statement.bindings.get? name = some datum) ∧
      Filters q statement.text tokens ∧
      (Token.leaves tokens).map some =
        ((q.joins.map Join.conditions ++ [q.predicates]).flatMap Condition.memberLeaves).map
          (comparison? (Scope.ofQuery q)) ++ [some leaf] ∧
      (∃ t, Reads .disjunction tokens t) ∧
      (isDisjunctive (Condition.written q.predicates) = false → Entails tokens leaf) ∧
        (isDisjunctive (Condition.written q.predicates) = true → leaf ∉ q.comparisons →
          .never ∉ q.comparisons → HoldsWithout tokens leaf) := by
  have hm : ∀ records, p.mutation ≠ some (.insert records) :=
    fun records he => hshape (shape_eq_insert_iff.mpr ⟨records, he⟩)
  rw [whereKey_eq hkey] at hp
  have hscope : Scope.ofQuery p = Scope.ofQuery q := by
    rw [Scope.ofQuery, Scope.ofQuery, hp.source, hp.joins]
  have hlists : predicateLists p =
      q.joins.map Join.conditions ++ [q.predicates ++ [(.and, q.keyCondition key)]] := by
    rw [predicateLists, hp.joins, hp.predicates]
  have hleaves : (predicateLists p).flatMap Condition.memberLeaves =
      (predicateLists q).flatMap Condition.memberLeaves ++ [q.keyCondition key] := by
    rw [hlists, predicateLists, List.flatMap_append, List.flatMap_append, List.flatMap_singleton,
      List.flatMap_singleton, Condition.memberLeaves_append, List.append_assoc]
    rfl
  obtain ⟨hresolves, hbindings, tokens, hfilters, hreads, hcomparisons, hvalue⟩ :=
    compileWith_filters hm h (by rw [hleaves]; exact List.concat_ne_nil _ _)
  have hloops : p.loops = q.loops := by rw [loops, loops, hscope, hp.joins]
  have hfiltered : Filters q statement.text tokens := by rwa [Filters, hloops] at hfilters
  rw [hscope] at hresolves hcomparisons hvalue
  have hmem : q.source ++ "." ++ primaryKey ∈ p.conditionColumns := by
    rw [conditionColumns, hlists]
    refine List.mem_flatMap_of_mem (List.mem_append_right _ List.mem_cons_self) ?_
    refine Condition.mem_memberColumns (List.mem_append_right _ List.mem_cons_self) ?_
    exact List.mem_cons_self
  obtain ⟨column, hcolumn⟩ := hresolves _ hmem
  have hleaf : comparison? (Scope.ofQuery q) (q.keyCondition key) =
      some (.binary column .eq (.operand (q.bindings.allocate key).1)) := by
    rw [keyCondition, comparison?, hcolumn]
    rfl
  -- the key is the last condition of the last list, which is all that the two cases need
  rw [hlists] at hvalue
  refine ⟨column, tokens, ?_, ?_, hfiltered, ?_, hreads, ?_, ?_⟩
  · intro hpoint hlabel
    have hkeyed := hcolumn.symm.trans (Scope.resolve_key _ hpoint hlabel)
    exact Except.ok.inj hkeyed
  · intro datum hdatum
    subst hdatum
    refine ⟨_, rfl, ?_⟩
    rw [hbindings, hp.bindings]
    exact BindTable.get?_allocate_self q.bindings datum
  · rw [hcomparisons, hleaves, List.map_append, List.map_singleton, hleaf]
    rfl
  · exact entails_of_and hvalue rfl (fun _ => rfl) hleaf
  · intro hor hnew hnever
    refine holdsWithout_of_or hvalue rfl hor fun d hd => ?_
    -- each condition of the query is written, as one of the comparisons of the filter
    have hd' : comparison? (Scope.ofQuery q) d ∈ (Token.leaves tokens).map some := by
      rw [hcomparisons, hleaves]
      exact List.mem_map_of_mem (List.mem_append_left _ hd)
    obtain ⟨e, _, he⟩ := List.mem_map.mp hd'
    have hmember : e ∈ q.comparisons := List.mem_filterMap.mpr ⟨d, hd, he.symm⟩
    exact ⟨e, he.symm, fun h => hnew (h ▸ hmember), fun h => hnever (h ▸ hmember)⟩

/-- An attribute of a user, compared with a binding. -/
def userAttribute (name binding : String) : Comparison :=
  .binary ⟨"users", "users_entity", some name, none⟩ .eq (.operand (.bound binding))

/-- A join, and conditions of which the one behind `OR` is not written. -/
def adultQuery : Query :=
  (table "users").runLenient
    [.filter .and "users.age" .gt (.value (.number (.int 18))),
      .whereNested .or [.whereNested .and []],
      .join "orders" "orders.user" .eq "users._key"]

theorem whereKey_restricts_unless_or_removal :
    ∃ p statement, (adultQuery.whereKey (.value (.string "k"))).delete = .ok p ∧
      p.SameConditions (adultQuery.whereKey (.value (.string "k"))) ∧ p.shape ≠ .insert ∧
      p.compileWith .default none = .ok statement ∧
      statement.text = "FOR users_entity IN \x60users\x60 FOR orders_entity IN \x60orders\x60 " ++
        "FILTER orders_entity.\x60user\x60 == users_entity._key AND " ++
        "(users_entity.\x60age\x60 > @B1 AND users_entity._key == @B2) " ++
        "REMOVE users_entity IN \x60users\x60" ∧
      ∃ tokens, Filters adultQuery statement.text tokens ∧
        (Token.leaves tokens).map Comparison.written =
          ["orders_entity.\x60user\x60 == users_entity._key", "users_entity.\x60age\x60 > @B1",
            "users_entity._key == @B2"] ∧
        Entails tokens (userAttribute "_key" "B2") := by
  have hdelete : (adultQuery.whereKey (.value (.string "k"))).delete =
      .ok { adultQuery.whereKey (.value (.string "k")) with mutation := some .delete } := rfl
  have hsame : SameConditions
      { adultQuery.whereKey (.value (.string "k")) with mutation := some .delete }
      (adultQuery.whereKey (.value (.string "k"))) := ⟨rfl, rfl, rfl, rfl⟩
  obtain ⟨statement, hstatement⟩ : ∃ statement, compileWith .default none
      { adultQuery.whereKey (.value (.string "k")) with mutation := some .delete } =
        .ok statement := Outcome.exists_ok (by decide +kernel)
  obtain ⟨column, tokens, hcolumn, _, hfilters, hleaves, _, hentails, _⟩ :=
    @whereKey_restricts_unless_or _ adultQuery (.value (.string "k")) none statement rfl hsame
      (by decide) hstatement
  have hkey := hcolumn (by decide) (by decide)
  subst hkey
  refine ⟨_, statement, hdelete, hsame, by decide, hstatement,
    Outcome.eq_of_ok (f := Statement.text) hstatement (by decide +kernel), tokens, hfilters, ?_,
    hentails (by decide)⟩
  have htexts := congrArg (List.map (Option.elim · "" Comparison.written)) hleaves
  rw [List.map_map] at htexts
  exact htexts.trans (by decide +kernel)

/-- Two conditions, the second one behind an `OR`. -/
def eitherQuery : Query :=
  ((table "users").filterEq .and "a" (.value (.number (.int 1)))).filterEq .or "b"
    (.value (.number (.int 2)))

theorem whereKey_after_or_misses :
    ∃ statement tokens,
      ((eitherQuery.whereKey (.value (.string "k"))).take 1).compileAs .select = .ok statement ∧
      statement.text = "FOR users_entity IN \x60users\x60 FILTER " ++
        "users_entity.\x60a\x60 == @B1 OR users_entity.\x60b\x60 == @B2 AND " ++
        "users_entity._key == @B3 LIMIT 1 RETURN users_entity" ∧
      Filters eitherQuery statement.text tokens ∧
      Token.leaves tokens =
        [userAttribute "a" "B1", userAttribute "b" "B2", userAttribute "_key" "B3"] ∧
      (∃ t, Reads .disjunction tokens t) ∧ HoldsWithout tokens (userAttribute "_key" "B3") := by
  have hreads : Reads .disjunction
      [.leaf (userAttribute "a" "B1"), .link .or, .leaf (userAttribute "b" "B2"), .link .and,
        .leaf (userAttribute "_key" "B3")]
      (.or (.leaf (userAttribute "a" "B1"))
        (.and (.leaf (userAttribute "b" "B2")) (.leaf (userAttribute "_key" "B3")))) :=
    .or (.ofConjunction (.ofAtom (.leaf _)))
      (.ofConjunction (.and (.ofAtom (.leaf _)) (.ofAtom (.leaf _))))
  have hends : GoesOn " LIMIT 1 RETURN users_entity" :=
    ⟨" LIMIT ", by decide, "1 RETURN users_entity", rfl⟩
  refine ⟨_, _, rfl, rfl, ⟨"", by decide, _, hends, by decide +kernel⟩, rfl, ⟨_, hreads⟩,
    fun c => decide (c = userAttribute "a" "B1"), by decide, by decide, fun t ht => ?_⟩
  rw [ht.eval_eq hreads]
  decide

end Query

end AqlQuery

import AqlQuery.Aql.Clause
import AqlQuery.Proofs.Filter.Grammar
import AqlQuery.Proofs.Outcome
import AqlQuery.Proofs.Query.Texts

/-!
# What a filter says

The value of a list of predicates is that of its members, linked by their connectives; a group is
evaluated first, as a unit, and one without a comparison at any depth counts for nothing. The filter
of a query is read as the conjunction of its lists: those of the joins and its own. Each comparison
is written once, and a list that has an `OR` does not mix with the others.
-/

namespace AqlQuery

mutual
/-- The conditions in a condition that are no groups, from left to right. -/
def Condition.leaves : Condition → List Condition
  | .group members => Condition.memberLeaves members
  | condition => [condition]
/-- The conditions among predicates that are no groups, at any depth. -/
def Condition.memberLeaves : List (Connective × Condition) → List Condition
  | [] => []
  | (_, condition) :: rest => condition.leaves ++ Condition.memberLeaves rest
end

/-- A group without a comparison at any depth. -/
def Condition.isVacuous (condition : Condition) : Bool := condition.leaves.isEmpty

mutual
/-- The value of a condition under a truth assignment to the conditions that are no groups. -/
def Condition.value (w : Condition → Bool) : Condition → Bool
  | .group members => Aql.linkedValue (Condition.memberValues w members)
  | condition => w condition
/-- The values of predicates, without the vacuous ones. -/
def Condition.memberValues (w : Condition → Bool) :
    List (Connective × Condition) → List (Connective × Bool)
  | [] => []
  | (link, condition) :: rest =>
    if condition.isVacuous then Condition.memberValues w rest
    else (link, condition.value w) :: Condition.memberValues w rest
end

/-- The value of a list of predicates. -/
def Condition.listValue (w : Condition → Bool) (predicates : List Predicate) : Bool :=
  Aql.linkedValue (Condition.memberValues w predicates)

namespace Aql

/-- The comparison that a condition asks for in a scope; a group is none. -/
def comparison? (s : Scope) : Condition → Option Comparison
  | .compare column operator value => do
    let c ← (s.resolve column).toOption
    some (.binary c operator (.operand value))
  | .member column values => do
    let c ← (s.resolve column).toOption
    some (if values = [] then .never else .among values false c)
  | .notMember column values => do
    let c ← (s.resolve column).toOption
    some (if values = [] then .never else .among values true c)
  | .isNull column => do
    let c ← (s.resolve column).toOption
    some (.binary c .eq .null)
  | .notNull column => do
    let c ← (s.resolve column).toOption
    some (.binary c .ne .null)
  | .compareColumns first operator second => do
    let a ← (s.resolve first).toOption
    let b ← (s.resolve second).toOption
    some (.binary a operator (.column b))
  | .group _ => none

/-- The truth of a condition, given that of the comparisons. -/
def holds (s : Scope) (v : Comparison → Bool) (condition : Condition) : Bool :=
  (comparison? s condition).elim false v

/-- A column that is known in a scope. -/
def Resolves (s : Scope) (column : String) : Prop := ∃ c, s.resolve column = .ok c

instance (s : Scope) (column : String) : Decidable (Resolves s column) :=
  match h : s.resolve column with
  | .ok c => isTrue ⟨c, h⟩
  | .error _ => isFalse fun ⟨_, hc⟩ => nomatch h.symm.trans hc

/-! ## From conditions to formulas -/

/-- A formula says what its condition says; it is missing if that is nothing. -/
def Means (s : Scope) (condition : Condition) (formula : Option Formula) : Prop :=
  match formula with
  | none => condition.leaves = []
  | some f => f.Proper ∧ f.leaves.map some = condition.leaves.map (comparison? s) ∧
      ∀ v, f.value v = condition.value (holds s v)

/-- A chain says what a list of predicates says. -/
structure ChainMeans (s : Scope) (members : List Predicate) (chain : Chain) : Prop where
  proper : Formula.ChainProper chain
  links : (chain.map Prod.fst).Sublist (members.map Prod.fst)
  leaves : (Formula.chainLeaves chain).map some =
    (Condition.memberLeaves members).map (comparison? s)
  values : ∀ v, Formula.chainValues v chain = Condition.memberValues (holds s v) members

theorem means_leaf {s : Scope} {condition : Condition} {c : Comparison}
    (hleaves : condition.leaves = [condition]) (hvalue : ∀ w, condition.value w = w condition)
    (hc : comparison? s condition = some c) : Means s condition (some (.leaf c)) := by
  refine ⟨trivial, ?_, fun v => ?_⟩
  · rw [hleaves, List.map_singleton, hc]
    rfl
  · rw [hvalue, holds, hc]
    rfl

theorem ChainMeans.eq_nil_iff {s : Scope} {members : List Predicate} {chain : Chain}
    (h : ChainMeans s members chain) : chain = [] ↔ Condition.memberLeaves members = [] := by
  rw [← Formula.chainLeaves_eq_nil_iff h.proper, ← List.map_eq_nil_iff, h.leaves,
    List.map_eq_nil_iff]

theorem Means.isVacuous_eq {s : Scope} {condition : Condition} {formula : Option Formula}
    (h : Means s condition formula) : condition.isVacuous = formula.isNone := by
  cases formula with
  | none =>
    rw [Condition.isVacuous, h]
    rfl
  | some f =>
    cases hl : condition.leaves with
    | nil =>
      have hnil := h.2.1
      rw [hl, List.map_nil, List.map_eq_nil_iff] at hnil
      exact absurd hnil h.1.leaves_ne_nil
    | cons c rest =>
      rw [Condition.isVacuous, hl]
      rfl

/-- A condition that is no group is written as the comparison that it asks for. -/
theorem formulaOf_leaf {s : Scope} {condition : Condition}
    (hc : ∀ column ∈ condition.columns, Resolves s column)
    (hleaf : ∀ members, condition ≠ .group members) :
    ∃ c, comparison? s condition = some c ∧ formulaOf s condition = .ok (some (.leaf c)) := by
  cases condition with
  | compare column operator value =>
    obtain ⟨c, hr⟩ := hc column List.mem_cons_self
    rw [comparison?, formulaOf, hr]
    exact ⟨_, rfl, rfl⟩
  | member column values =>
    obtain ⟨c, hr⟩ := hc column List.mem_cons_self
    rw [comparison?, formulaOf, hr]
    cases values <;> exact ⟨_, rfl, rfl⟩
  | notMember column values =>
    obtain ⟨c, hr⟩ := hc column List.mem_cons_self
    rw [comparison?, formulaOf, hr]
    cases values <;> exact ⟨_, rfl, rfl⟩
  | isNull column =>
    obtain ⟨c, hr⟩ := hc column List.mem_cons_self
    rw [comparison?, formulaOf, hr]
    exact ⟨_, rfl, rfl⟩
  | notNull column =>
    obtain ⟨c, hr⟩ := hc column List.mem_cons_self
    rw [comparison?, formulaOf, hr]
    exact ⟨_, rfl, rfl⟩
  | compareColumns first operator second =>
    obtain ⟨a, ha⟩ := hc first List.mem_cons_self
    obtain ⟨b, hb⟩ := hc second (List.mem_cons_of_mem first List.mem_cons_self)
    rw [comparison?, formulaOf, ha, hb]
    exact ⟨_, rfl, rfl⟩
  | group members => exact absurd rfl (hleaf members)

mutual
/-- A condition whose columns resolve has a formula, unless it says nothing. -/
theorem formulaOf_means {s : Scope} (condition : Condition)
    (hc : ∀ column ∈ condition.columns, Resolves s column) :
    ∃ formula, formulaOf s condition = .ok formula ∧ Means s condition formula := by
  cases condition with
  | group members =>
    obtain ⟨chain, h, hmeans⟩ := chainOf_means members hc
    refine ⟨if chain.isEmpty then none else some (.paren chain), ?_, ?_⟩
    · rw [formulaOf, h]
      rfl
    · cases chain with
      | nil => exact hmeans.eq_nil_iff.mp rfl
      | cons p rest =>
        refine ⟨⟨List.cons_ne_nil p rest, hmeans.proper⟩, hmeans.leaves, fun v => ?_⟩
        rw [Formula.value, hmeans.values]
        rfl
  | _ =>
    obtain ⟨c, hcomparison, h⟩ := formulaOf_leaf hc fun _ he => nomatch he
    exact ⟨_, h, means_leaf rfl (fun _ => rfl) hcomparison⟩
theorem chainOf_means {s : Scope} (members : List Predicate)
    (hc : ∀ column ∈ Condition.memberColumns members, Resolves s column) :
    ∃ chain, chainOf s members = .ok chain ∧ ChainMeans s members chain := by
  cases members with
  | nil => exact ⟨[], rfl, trivial, List.Sublist.refl [], rfl, fun _ => rfl⟩
  | cons p rest =>
    obtain ⟨link, condition⟩ := p
    rw [Condition.memberColumns] at hc
    obtain ⟨formula, hf, hmeans⟩ :=
      formulaOf_means condition fun x hm => hc x (List.mem_append_left _ hm)
    obtain ⟨chain, ht, htail⟩ := chainOf_means rest fun x hm => hc x (List.mem_append_right _ hm)
    have hvacuous := hmeans.isVacuous_eq
    cases formula with
    | none =>
      -- both sides leave the member out, along with its connective
      have hnil : condition.leaves = [] := hmeans
      refine ⟨chain, ?_, htail.proper, htail.links.cons link, ?_, fun v => ?_⟩
      · rw [chainOf, hf, ht]
        rfl
      · rw [Condition.memberLeaves, hnil, List.nil_append, htail.leaves]
      · rw [Condition.memberValues, hvacuous, htail.values]
        rfl
    | some f =>
      refine ⟨(link, f) :: chain, ?_, ⟨hmeans.1, htail.proper⟩, htail.links.cons_cons link, ?_,
        fun v => ?_⟩
      · rw [chainOf, hf, ht]
        rfl
      · rw [Formula.chainLeaves, Condition.memberLeaves, List.map_append, List.map_append,
          hmeans.2.1, htail.leaves]
      · rw [Condition.memberValues, hvacuous, Formula.chainValues, hmeans.2.2, htail.values]
        rfl
end

/-! ## Conjunctions -/

theorem chainProper_iff {chain : Chain} :
    Formula.ChainProper chain ↔ ∀ p ∈ chain, p.2.Proper := by
  induction chain with
  | nil => simp [Formula.ChainProper]
  | cons p rest ih => rw [Formula.ChainProper, ih, List.forall_mem_cons]

theorem chainValues_eq_map (v : Comparison → Bool) (chain : Chain) :
    Formula.chainValues v chain = chain.map fun p => (p.1, p.2.value v) := by
  induction chain with
  | nil => rfl
  | cons p rest ih => rw [Formula.chainValues, ih, List.map_cons]

theorem joinedValue_of_and {values : List (Connective × Bool)} (conjunction : Bool)
    (h : ∀ p ∈ values, p.1 = .and) :
    joinedValue conjunction values = (conjunction && values.all Prod.snd) := by
  induction values generalizing conjunction with
  | nil => rw [joinedValue, List.all_nil, Bool.and_true]
  | cons p rest ih =>
    obtain ⟨link, b⟩ := p
    cases h (link, b) List.mem_cons_self
    rw [joinedValue, ih _ fun p hm => h p (List.mem_cons_of_mem _ hm), List.all_cons,
      Bool.and_assoc]

/-- The value of a chain. -/
def chainValue (v : Comparison → Bool) (chain : Chain) : Bool :=
  linkedValue (Formula.chainValues v chain)

/-- Without an `OR`, a chain holds if all its formulas hold. -/
theorem chainValue_of_and {chain : Chain} (h : ∀ p ∈ chain.tail, p.1 = .and)
    (v : Comparison → Bool) : chainValue v chain = chain.all fun p => p.2.value v := by
  cases chain with
  | nil => rfl
  | cons p rest =>
    change joinedValue (p.2.value v) (Formula.chainValues v rest) = _
    rw [chainValues_eq_map, joinedValue_of_and, List.all_map]
    · rfl
    · intro q hq
      obtain ⟨p', hm, rfl⟩ := List.mem_map.mp hq
      exact h p' hm

/-- A part of a filter without empty parentheses, marked if it has an `OR`. -/
structure PartProper (part : Chain × Bool) : Prop where
  proper : Formula.ChainProper part.1
  links : part.2 = false → ∀ p ∈ part.1.tail, p.1 = .and

theorem asConjunct_links {part : Chain × Bool} (h : PartProper part) :
    ∀ p ∈ asConjunct part, p.1 = .and := by
  obtain ⟨chain, disjunctive⟩ := part
  intro p hp
  cases disjunctive with
  | true =>
    cases List.mem_singleton.mp hp
    rfl
  | false =>
    cases chain with
    | nil => cases hp
    | cons first rest =>
      rcases List.mem_cons.mp hp with rfl | hm
      · rfl
      · exact h.links rfl p hm

theorem asConjunct_all {part : Chain × Bool} (h : PartProper part) (v : Comparison → Bool) :
    ((asConjunct part).all fun p => p.2.value v) = chainValue v part.1 := by
  obtain ⟨chain, disjunctive⟩ := part
  cases disjunctive with
  | true => exact Bool.and_true _
  | false =>
    rw [chainValue_of_and (h.links rfl)]
    cases chain <;> rfl

theorem asConjunct_proper {part : Chain × Bool} (h : PartProper part) (hne : part.1 ≠ []) :
    Formula.ChainProper (asConjunct part) := by
  obtain ⟨chain, disjunctive⟩ := part
  cases disjunctive with
  | true => exact ⟨⟨hne, h.proper⟩, trivial⟩
  | false =>
    cases chain with
    | nil => exact absurd rfl hne
    | cons first rest => exact h.proper

theorem conjoin_proper {parts : List (Chain × Bool)} (h : ∀ part ∈ parts, PartProper part)
    (hne : ∀ part ∈ parts, part.1 ≠ []) : Formula.ChainProper (conjoin parts) := by
  unfold conjoin
  split
  next => trivial
  next chain disjunctive => exact (h _ List.mem_cons_self).proper
  next =>
    rw [chainProper_iff]
    intro p hp
    obtain ⟨part, hm, hp⟩ := List.mem_flatMap.mp hp
    exact chainProper_iff.mp (asConjunct_proper (h part hm) (hne part hm)) p hp

/-- The parts of a filter are conjoined, whatever connectives they have inside. -/
theorem conjoin_value {parts : List (Chain × Bool)} (h : ∀ part ∈ parts, PartProper part)
    (v : Comparison → Bool) :
    chainValue v (conjoin parts) = parts.all fun part => chainValue v part.1 := by
  unfold conjoin
  split
  next => rfl
  next chain disjunctive => exact (Bool.and_true _).symm
  next =>
    -- a part with an `OR` is one formula in parentheses, so that only `AND` is left between parts
    have hlinks : ∀ p ∈ parts.flatMap asConjunct, p.1 = .and := by
      intro p hp
      obtain ⟨part, hm, hp⟩ := List.mem_flatMap.mp hp
      exact asConjunct_links (h part hm) p hp
    rw [chainValue_of_and (fun p hp => hlinks p (List.mem_of_mem_tail hp)), List.all_flatMap]
    rw [Bool.eq_iff_iff, List.all_eq_true, List.all_eq_true]
    constructor
    · intro hall part hm
      rw [← asConjunct_all (h part hm)]
      exact hall part hm
    · intro hall part hm
      exact (asConjunct_all (h part hm) v).trans (hall part hm)

/-! ## The filter of a query -/

/-- The parts of a filter say what lists of predicates say. -/
structure PartsMean (s : Scope) (lists : List (List Predicate)) (parts : List (Chain × Bool)) :
    Prop where
  proper : ∀ part ∈ parts, PartProper part
  leaves : (parts.flatMap fun part => Formula.chainLeaves part.1).map some =
    (lists.flatMap Condition.memberLeaves).map (comparison? s)
  values : ∀ v, (parts.all fun part => chainValue v part.1) =
    lists.all (Condition.listValue (holds s v))

/-- A list that is not marked has no `OR` after the first predicate, so its chain has none after the
first formula, even if the first predicates are vacuous. -/
theorem ChainMeans.partProper {s : Scope} {predicates : List Predicate} {chain : Chain}
    (h : ChainMeans s predicates chain) : PartProper (chain, isDisjunctive predicates) := by
  refine ⟨h.proper, fun hd p hp => ?_⟩
  -- dropping members only moves connectives forward, so none after the first was first before
  have hlink : p.1 ∈ (predicates.map Prod.fst).tail := by
    apply h.links.tail.subset
    rw [← List.map_tail]
    exact List.mem_map_of_mem hp
  rw [← List.map_tail, ← List.drop_one] at hlink
  obtain ⟨p', hm, he⟩ := List.mem_map.mp hlink
  have hand := List.any_eq_false.mp hd p' hm
  rw [he] at hand
  cases hl : p.1 with
  | and => rfl
  | or => simp [hl] at hand

theorem parts_mean {s : Scope} (lists : List (List Predicate))
    (hc : ∀ column ∈ lists.flatMap Condition.memberColumns, Resolves s column) :
    ∃ parts, (lists.mapM fun predicates => do
        let chain ← chainOf s predicates
        .ok (chain, isDisjunctive predicates)) = Except.ok parts ∧ PartsMean s lists parts := by
  induction lists with
  | nil => exact ⟨[], rfl, fun part hm => (nomatch hm), rfl, fun v => rfl⟩
  | cons predicates rest ih =>
    rw [List.flatMap_cons] at hc
    obtain ⟨chain, hchain, hmeans⟩ :=
      chainOf_means predicates fun x hm => hc x (List.mem_append_left _ hm)
    obtain ⟨parts, hparts, htail⟩ := ih fun x hm => hc x (List.mem_append_right _ hm)
    refine ⟨(chain, isDisjunctive predicates) :: parts, ?_, ?_, ?_, fun v => ?_⟩
    · rw [List.mapM_cons, hchain, hparts]
      rfl
    · exact List.forall_mem_cons.mpr ⟨hmeans.partProper, htail.proper⟩
    · rw [List.flatMap_cons, List.flatMap_cons, List.map_append, List.map_append, hmeans.leaves,
        htail.leaves]
    · rw [List.all_cons, List.all_cons, htail.values, chainValue, hmeans.values]
      rfl

/-- The filter chain of a query whose columns resolve. -/
theorem filterChain_means {s : Scope} {q : Query}
    (hc : ∀ column ∈ q.conditionColumns, Resolves s column) :
    ∃ chain, filterChain s q = .ok chain ∧ Formula.ChainProper chain ∧
      (Formula.chainLeaves chain).map some =
        ((predicateLists q).flatMap Condition.memberLeaves).map (comparison? s) ∧
      ∀ v, chainValue v chain = (predicateLists q).all (Condition.listValue (holds s v)) := by
  obtain ⟨parts, hparts, hmean⟩ := parts_mean (predicateLists q) hc
  have hkept : ∀ part ∈ parts.filter fun part => !part.1.isEmpty, PartProper part :=
    fun part hm => hmean.proper part ((List.mem_filter.mp hm).1)
  refine ⟨conjoin (parts.filter fun part => !part.1.isEmpty), ?_, ?_, ?_, fun v => ?_⟩
  · rw [filterChain, hparts]
    rfl
  · refine conjoin_proper hkept fun part hm hnil => ?_
    have hne := (List.mem_filter.mp hm).2
    rw [hnil] at hne
    cases hne
  · rw [← hmean.leaves, chainLeaves_eq_flatMap, conjoin_flatMap chainLeaves_eq_flatMap]
    simp only [chainLeaves_eq_flatMap]
  · -- the parts that are left out are empty and hold
    rw [← hmean.values, conjoin_value hkept, List.all_filter]
    congr 1
    funext part
    obtain ⟨chain, disjunctive⟩ := part
    cases chain <;> rfl

theorem memberLeaves_eq_nil_iff {members : List Predicate} :
    Condition.memberLeaves members = [] ↔ ∀ p ∈ members, p.2.isVacuous = true := by
  induction members with
  | nil => simp [Condition.memberLeaves]
  | cons p rest ih =>
    rw [Condition.memberLeaves, List.append_eq_nil_iff, ih, List.forall_mem_cons,
      Condition.isVacuous, List.isEmpty_iff]

/-- The filter of a query whose columns resolve. Exactly the vacuous conditions are not written, and
there is no filter if there is nothing else. Otherwise its text has a reading, with each comparison
once and in order, and any reading holds if the conditions of every join and the query's own hold
each by itself. -/
theorem filterClause_meaning (f : Frame)
    (hc : ∀ column ∈ f.query.conditionColumns, Resolves f.scope column) :
    let lists := f.query.joins.map Join.conditions ++ [f.query.predicates]
    (∀ predicates ∈ lists, ∀ p ∈ predicates,
      (formulaOf f.scope p.2 = .ok none ↔ p.2.isVacuous = true)) ∧
    ∃ clause, f.filterClause = .ok clause ∧
      (clause = none ↔ ∀ predicates ∈ lists, ∀ p ∈ predicates, p.2.isVacuous = true) ∧
      ∀ c, clause = some c → ∃ tokens,
        c.text = "FILTER " ++ Token.spell tokens ∧
        (Token.leaves tokens).map some =
          (lists.flatMap Condition.memberLeaves).map (comparison? f.scope) ∧
        (∃ t, Reads .disjunction tokens t) ∧
        ∀ t, Reads .disjunction tokens t → ∀ v,
          t.eval v = lists.all (Condition.listValue (holds f.scope v)) := by
  intro lists
  have hlists : lists = predicateLists f.query := rfl
  rw [hlists]
  obtain ⟨chain, hchain, hproper, hleaves, hvalue⟩ := filterChain_means hc
  have hnone : chain = [] ↔
      ∀ predicates ∈ predicateLists f.query, ∀ p ∈ predicates, p.2.isVacuous = true := by
    rw [← Formula.chainLeaves_eq_nil_iff hproper, ← List.map_eq_nil_iff, hleaves,
      List.map_eq_nil_iff, List.flatMap_eq_nil_iff]
    simp only [memberLeaves_eq_nil_iff]
  refine ⟨?_, if chain.isEmpty then none else some (.filter chain), ?_, ?_, ?_⟩
  · intro predicates hm p hp
    obtain ⟨formula, hf, hmeans⟩ := @formulaOf_means f.scope p.2 fun x hx =>
      hc x (List.mem_flatMap_of_mem hm (Condition.mem_memberColumns hp hx))
    rw [hf, hmeans.isVacuous_eq]
    cases formula <;> simp
  · rw [Frame.filterClause, hchain]
    rfl
  · rw [← hnone]
    cases chain <;> simp
  · intro c hsome
    cases chain with
    | nil => cases hsome
    | cons p rest =>
      cases hsome
      obtain ⟨t, ht, heval⟩ := Formula.exists_chain_reading (List.cons_ne_nil p rest) hproper
      refine ⟨Formula.chainTokens (p :: rest), ?_, ?_, ⟨t, ht⟩, fun t' ht' v => ?_⟩
      · exact congrArg ("FILTER " ++ ·) (Formula.chainText_eq_spell (p :: rest))
      · rw [Formula.leaves_chainTokens, hleaves]
      · rw [ht'.eval_eq ht v, heval v]
        exact hvalue v

/-- A join with an `OR`, and conditions that start with groups without a comparison. -/
def mixedQuery : Query where
  source := "users"
  joins := [⟨"orders",
    [(.and, .compareColumns "orders.user" .eq "users._key"), (.or, .isNull "orders.user")]⟩]
  predicates :=
    [(.or, .group [(.and, .group [])]),
      (.or, .compare "users.age" .gt (.bound "B1")),
      (.and, .group [(.or, .notNull "users.name"), (.or, .member "users.role" [])])]

theorem filterClause_meaning_mixed :
    (∀ column ∈ mixedQuery.conditionColumns, Resolves (Scope.ofQuery mixedQuery) column) ∧
      ∃ clause, (Frame.forMutation mixedQuery).filterClause = .ok (some clause) ∧
        clause.text = "FILTER (orders_entity.\x60user\x60 == users_entity._key OR " ++
          "orders_entity.\x60user\x60 == null) AND (users_entity.\x60age\x60 > @B1 AND " ++
          "(users_entity.\x60name\x60 != null OR false))" ∧
        ∃ tokens, clause.text = "FILTER " ++ Token.spell tokens ∧
          (Token.leaves tokens).map some =
            [.compareColumns "orders.user" .eq "users._key", .isNull "orders.user",
              .compare "users.age" .gt (.bound "B1"), .notNull "users.name",
              .member "users.role" []].map (comparison? (Scope.ofQuery mixedQuery)) ∧
          (∃ t, Reads .disjunction tokens t) ∧
          ∀ t, Reads .disjunction tokens t → ∀ v, t.eval v = (predicateLists mixedQuery).all
            (Condition.listValue (holds (Scope.ofQuery mixedQuery) v)) := by
  have hc : ∀ column ∈ mixedQuery.conditionColumns,
      Resolves (Scope.ofQuery mixedQuery) column := by decide
  obtain ⟨_, clause, hclause, hnone, hsome⟩ :=
    filterClause_meaning (Frame.forMutation mixedQuery) hc
  refine ⟨hc, ?_⟩
  cases clause with
  | none => exact absurd (hnone.mp rfl) (by decide)
  | some c =>
    obtain ⟨tokens, htext, hleaves, hreads, hvalue⟩ := hsome c rfl
    refine ⟨c, hclause, Option.some.inj ?_, tokens, htext, hleaves, hreads, hvalue⟩
    exact Outcome.eq_of_ok (f := Option.map Clause.text) hclause (by decide +kernel)

end Aql

end AqlQuery

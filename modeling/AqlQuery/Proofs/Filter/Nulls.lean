import AqlQuery.Proofs.Binding.Simulation
import AqlQuery.Proofs.Filter.Meaning

/-!
# Comparisons with null

No order or pattern has a place for null. A comparison is refused when it is given null, at whatever
depth it is given, but the two comparisons of a range are not: the bounds go into the table as they
are. So a query compares data only, other than by equality, exactly if no range of its conditions or
of its joins has a bound that is null.

The proof reads each placeholder as the literal it was supplied for and follows the literals through
the steps.
-/

namespace AqlQuery

open Aql

/-- A comparison other than by equality has data to compare with: the value that its placeholder has
in the table, which is not null. -/
def Query.OrdersData (q : Query) : Prop :=
  ∀ predicates ∈ predicateLists q, ∀ column operator name,
    .compare column operator (.bound name) ∈ Condition.memberLeaves predicates →
      operator.acceptsNull = false → ∃ v, q.bindings.get? name = some v ∧ v.isNull = false

/-! ## Null among literals in place -/

namespace Inline

mutual
/-- Whether a comparison with null, other than by equality, is in a condition. -/
def Condition.ordersNull : Condition → Bool
  | .compare _ operator value => !operator.acceptsNull && value.isNull
  | .group members => Condition.memberOrdersNull members
  | _ => false
/-- Whether one is among predicates. -/
def Condition.memberOrdersNull : List (Connective × Condition) → Bool
  | [] => false
  | (_, condition) :: rest => condition.ordersNull || Condition.memberOrdersNull rest
end

theorem Condition.memberOrdersNull_concat (members : List Predicate) (link : Connective)
    (condition : Condition) :
    Condition.memberOrdersNull (members ++ [(link, condition)]) =
      (Condition.memberOrdersNull members || condition.ordersNull) := by
  induction members with
  | nil => exact Bool.or_false _
  | cons p rest ih =>
    rw [List.cons_append, memberOrdersNull, memberOrdersNull, ih, Bool.or_assoc]

namespace Query

/-- Whether a comparison with null is among the query's own conditions. -/
def ordersNull (r : Query) : Bool := Condition.memberOrdersNull r.predicates

/-- Whether one is among the conditions of its joins. -/
def joinsOrderNull (r : Query) : Bool :=
  r.joins.any fun j => Condition.memberOrdersNull j.conditions

theorem ordersNull_push (r : Query) (link : Connective) (condition : Condition) :
    (r.push link condition).ordersNull = (r.ordersNull || condition.ordersNull) :=
  Condition.memberOrdersNull_concat r.predicates link condition

theorem joinsOrderNull_pushJoin (r : Query) (collection : String) (conditions : List Predicate) :
    (r.pushJoin collection conditions).joinsOrderNull =
      (r.joinsOrderNull || Condition.memberOrdersNull conditions) := by
  change (r.joins ++ [(⟨collection, conditions⟩ : Join)]).any _ = _
  rw [List.any_append, List.any_cons, List.any_nil, Bool.or_false]
  rfl

end Query

end Inline

/-! ## Reading placeholders -/

/-- Whether a condition that is no group compares, other than by equality, with an operand that is
read as null. -/
def Condition.comparesNull (f : Operand → Literal) : Condition → Bool
  | .compare _ operator value => !operator.acceptsNull && (f value).isNull
  | _ => false

mutual
theorem Condition.ordersNull_inlineWith (f : Operand → Literal) (c : Condition) :
    (c.inlineWith f).ordersNull = c.leaves.any (comparesNull f) := by
  cases c with
  | group members => exact Condition.memberOrdersNull_inlineMembers f members
  | _ => exact (Bool.or_false _).symm
theorem Condition.memberOrdersNull_inlineMembers (f : Operand → Literal)
    (members : List Predicate) :
    Inline.Condition.memberOrdersNull (Condition.inlineMembers f members) =
      (Condition.memberLeaves members).any (comparesNull f) := by
  cases members with
  | nil => rfl
  | cons p rest =>
    obtain ⟨link, c⟩ := p
    rw [inlineMembers, Inline.Condition.memberOrdersNull, memberLeaves, List.any_append,
      Condition.ordersNull_inlineWith f c, Condition.memberOrdersNull_inlineMembers f rest]
end

theorem Query.isNull_literalOf_iff (table : BindTable) (name : String) :
    (literalOf table (.bound name)).isNull = false ↔
      ∃ v, table.get? name = some v ∧ v.isNull = false := by
  change ((table.get? name).getD .null).isNull = false ↔ _
  cases table.get? name with
  | none => simp [Json.isNull]
  | some v => simp

theorem Condition.comparesNull_eq_false_iff (table : BindTable) (c : Condition) :
    c.comparesNull (Query.literalOf table) = false ↔
      ∀ column operator name, c = .compare column operator (.bound name) →
        operator.acceptsNull = false → ∃ v, table.get? name = some v ∧ v.isNull = false := by
  constructor
  · rintro h column operator name rfl hop
    rw [comparesNull, hop] at h
    exact (Query.isNull_literalOf_iff table name).mp h
  · intro h
    cases c with
    | compare column operator value =>
      rw [comparesNull, Bool.and_eq_false_iff]
      by_cases hop : operator.acceptsNull = true
      · exact .inl (by rw [hop]; rfl)
      · right
        cases value with
        | raw text => rfl
        | bound name =>
          apply (Query.isNull_literalOf_iff table name).mpr
          exact h column operator name rfl (Bool.eq_false_iff.mpr hop)
    | _ => rfl

/-- A query orders data exactly if it has no comparison with null once its placeholders are read. -/
theorem Query.ordersData_iff (q : Query) :
    q.OrdersData ↔ q.inline.joinsOrderNull = false ∧ q.inline.ordersNull = false := by
  have hlist (predicates : List Predicate) :
      Inline.Condition.memberOrdersNull
          (Condition.inlineMembers (literalOf q.bindings) predicates) = false ↔
        ∀ column operator name,
          .compare column operator (.bound name) ∈ Condition.memberLeaves predicates →
            operator.acceptsNull = false →
              ∃ v, q.bindings.get? name = some v ∧ v.isNull = false := by
    rw [Condition.memberOrdersNull_inlineMembers, List.any_eq_false]
    simp only [Bool.not_eq_true, Condition.comparesNull_eq_false_iff]
    exact ⟨fun h column operator name hm => h _ hm column operator name rfl,
      fun h leaf hm column operator name he => h column operator name (he ▸ hm)⟩
  unfold OrdersData
  simp only [← hlist]
  rw [predicateLists, List.forall_mem_append, List.forall_mem_singleton, List.forall_mem_map]
  apply and_congr _ Iff.rfl
  change _ ↔ ((q.joins.map (Join.inlineWith (literalOf q.bindings))).any _) = false
  rw [List.any_map, List.any_eq_false]
  simp only [Function.comp_apply, Bool.not_eq_true]
  exact Iff.rfl

/-! ## Steps -/

mutual
/-- Whether a step adds a range with a bound that is null, itself or in a group. -/
def Step.rangesToNull : Step → Bool
  | .whereBetween _ _ _ low high => low.isNull || high.isNull
  | .whereNested _ steps => Step.anyRangesToNull steps
  | _ => false
/-- Whether one of the steps does. -/
def Step.anyRangesToNull : List Step → Bool
  | [] => false
  | step :: rest => step.rangesToNull || Step.anyRangesToNull rest
end

/-- Whether a step adds such a range to the conditions of a join. -/
def Step.joinsByNull : Step → Bool
  | .joinWhere _ steps => Step.anyRangesToNull steps
  | _ => false

namespace Inline.Query

/-- From `r` to `r'`, comparisons with null were added as the flags say: to the query's own
conditions, and to those of its joins. -/
structure AddsNull (r r' : Query) (own joined : Bool) : Prop where
  own : r'.ordersNull = (r.ordersNull || own)
  joined : r'.joinsOrderNull = (r.joinsOrderNull || joined)

variable {r r' : Query}

theorem addsNull_of_eq (hp : r'.predicates = r.predicates) (hj : r'.joins = r.joins) :
    r.AddsNull r' false false := by
  constructor
  · rw [Bool.or_false, ordersNull, hp, ordersNull]
  · rw [Bool.or_false, joinsOrderNull, hj, joinsOrderNull]

theorem addsNull_push (r : Query) (link : Connective) (condition : Condition) :
    r.AddsNull (r.push link condition) condition.ordersNull false :=
  ⟨r.ordersNull_push link condition, (Bool.or_false _).symm⟩

theorem addsNull_push_of_data {condition : Condition} (hc : condition.ordersNull = false)
    (r : Query) (link : Connective) : r.AddsNull (r.push link condition) false false := by
  have h := r.addsNull_push link condition
  rwa [hc] at h

theorem addsNull_pushJoin (r : Query) (collection : String) (conditions : List Predicate) :
    r.AddsNull (r.pushJoin collection conditions) false (Condition.memberOrdersNull conditions) :=
  ⟨(Bool.or_false _).symm, r.joinsOrderNull_pushJoin collection conditions⟩

/-- A comparison that is accepted is a test for null, or it is one with data. -/
theorem addsNull_filter {link : Connective} {column : String} {operator : Operator}
    {value : Literal} (h : r.filter link column operator value = .ok r') :
    r.AddsNull r' false false := by
  cases hnull : value.isNull with
  | true =>
    rw [Query.isNull_eq_true_iff] at hnull
    subst hnull
    cases operator with
    | eq =>
      cases h
      exact addsNull_push_of_data rfl r link
    | ne =>
      cases h
      exact addsNull_push_of_data rfl r link
    | _ => cases h
  | false =>
    have hdata : Condition.ordersNull (.compare column operator value) = false := by
      rw [Condition.ordersNull, hnull, Bool.and_false]
    unfold filter at h
    split at h
    · cases hnull
    · cases hnull
    · cases hnull
    · cases h
      exact addsNull_push_of_data hdata r link

theorem addsNull_filterEq (r : Query) (link : Connective) (column : String) (value : Literal) :
    r.AddsNull (r.filterEq link column value) false false := by
  unfold filterEq
  split
  · exact addsNull_push_of_data rfl r link
  · exact addsNull_push_of_data rfl r link

theorem addsNull_whereBetween (r : Query) (link : Connective) (negated : Bool) (column : String)
    (low high : Literal) :
    r.AddsNull (r.whereBetween link negated column low high) (low.isNull || high.isNull) false := by
  unfold whereBetween
  refine ⟨(r.ordersNull_push link _).trans (congrArg (r.ordersNull || ·) ?_),
    (Bool.or_false _).symm⟩
  -- neither of the two operators of a range accepts null
  cases negated
  · exact congrArg (low.isNull || ·) (Bool.or_false _)
  · exact congrArg (low.isNull || ·) (Bool.or_false _)

theorem addsNull_mutate {mutation : Except BuildError Mutation}
    (h : r.mutate mutation = .ok r') : r.AddsNull r' false false := by
  unfold mutate at h
  split at h
  · cases h
  · cases mutation with
    | error e => cases h
    | ok m =>
      cases h
      exact addsNull_of_eq rfl rfl

theorem addsNull_withAggregate {function : AggregateFunction} {columns : List String}
    (h : r.withAggregate function columns = .ok r') : r.AddsNull r' false false := by
  simp only [withAggregate] at h
  generalize (if columns = [] then [wholeDocument] else columns) = target at h
  split at h
  · cases h
  · cases h
    exact addsNull_of_eq rfl rfl

theorem AddsNull.trans {r₁ r₂ : Query} {own joined own' joined' : Bool}
    (h : r.AddsNull r₁ own joined) (h' : r₁.AddsNull r₂ own' joined') :
    r.AddsNull r₂ (own || own') (joined || joined') :=
  ⟨by rw [h'.own, h.own, Bool.or_assoc], by rw [h'.joined, h.joined, Bool.or_assoc]⟩

end Inline.Query

open Inline.Query in
mutual
theorem Step.apply_addsNull (s : Step) {r r' : Inline.Query} (hs : s.isBuilder = true)
    (h : Inline.apply s r = .ok r') : r.AddsNull r' s.rangesToNull s.joinsByNull := by
  cases s <;> simp only [Inline.apply, Except.ok.injEq] at h
  case table => cases hs
  case load => cases hs
  case whereNested link steps =>
    obtain ⟨built, hb, rfl⟩ := Outcome.map_ok h
    have hgroup : built.ordersNull = Step.anyRangesToNull steps :=
      (Step.applyAll_addsNull steps hs hb).own
    rw [Step.rangesToNull, ← hgroup]
    exact r.addsNull_push link (.group built.predicates)
  case joinWhere collection steps =>
    obtain ⟨built, hb, rfl⟩ := Outcome.map_ok h
    have hgroup : built.ordersNull = Step.anyRangesToNull steps :=
      (Step.applyAll_addsNull steps hs hb).own
    rw [Step.joinsByNull, ← hgroup]
    exact r.addsNull_pushJoin collection built.predicates
  case filter => exact addsNull_filter h
  case aggregate => exact addsNull_withAggregate h
  case insert => exact addsNull_mutate h
  case insertJson records =>
    cases hm : Query.recordMembers 0 records with
    | error e =>
      rw [hm] at h
      cases h
    | ok objects =>
      rw [hm] at h
      exact addsNull_mutate h
  case update => exact addsNull_mutate h
  case adjust => exact addsNull_mutate h
  case delete => exact addsNull_mutate h
  all_goals subst h
  case filterEq => exact addsNull_filterEq ..
  case whereKey => exact addsNull_filterEq ..
  case whereIn link negated column values =>
    cases negated
    · exact addsNull_push_of_data rfl r link
    · exact addsNull_push_of_data rfl r link
  case whereNull link negated column =>
    cases negated
    · exact addsNull_push_of_data rfl r link
    · exact addsNull_push_of_data rfl r link
  case whereColumn link first operator second => exact addsNull_push_of_data rfl r link
  case whereBetween => exact addsNull_whereBetween ..
  case join => exact addsNull_pushJoin ..
  case crossJoin => exact addsNull_pushJoin ..
  -- what is left sets the projection, the groups, the ordering or the window
  all_goals exact addsNull_of_eq rfl rfl
theorem Step.applyAll_addsNull (steps : List Step) {r r' : Inline.Query}
    (hs : Step.areBuilders steps = true) (h : Inline.applyAll steps r = .ok r') :
    r.AddsNull r' (Step.anyRangesToNull steps) (steps.any Step.joinsByNull) := by
  cases steps with
  | nil =>
    cases h
    exact addsNull_of_eq rfl rfl
  | cons s rest =>
    rw [Step.areBuilders, Bool.and_eq_true] at hs
    rw [Inline.applyAll] at h
    obtain ⟨r₁, h₁, h⟩ := Outcome.bind_ok h
    exact (Step.apply_addsNull s hs.1 h₁).trans (Step.applyAll_addsNull rest hs.2 h)
end

theorem Step.anyRangesToNull_eq_false_iff {steps : List Step} :
    Step.anyRangesToNull steps = false ↔ ∀ s ∈ steps, s.rangesToNull = false := by
  induction steps with
  | nil => simp [Step.anyRangesToNull]
  | cons s rest ih =>
    rw [Step.anyRangesToNull, Bool.or_eq_false_iff, ih, List.forall_mem_cons]

/-! ## Runs -/

namespace Query

/-- After any steps, every placeholder has a value. The query compares data only, other than by
equality, exactly if no step adds a range with a bound that is null: to the conditions, to a group
at any depth, or to the conditions of a join. -/
theorem run_ordersData_iff {name : String} {steps : List Step} {q : Query}
    (hs : ∀ s ∈ steps, s.isBuilder = true) (hfit : (Step.boundAll steps).length < UInt32.size)
    (h : (table name).run steps = .ok q) :
    q.Closed ∧
      (q.OrdersData ↔ ∀ s ∈ steps, s.rangesToNull = false ∧ s.joinsByNull = false) := by
  rw [← Step.areBuilders_iff] at hs
  obtain ⟨_, hg, _⟩ := Step.applyAll_grows steps hs h
  refine ⟨(closed_table name).of_grows hg, ?_⟩
  -- read through the final table, the run is one on literals
  have hlater : ((table name).bindings.bindAll (Step.boundAll steps)).PrefixOf q.bindings := by
    rw [hg.bindings]
    exact List.prefix_refl _
  have hinline := Step.applyAll_inline steps (table name) hs (takes_table hfit) hlater
  rw [show Step.applyAll steps (table name) = .ok q from h] at hinline
  have hadds := Step.applyAll_addsNull steps hs hinline
  have hown : q.inline.ordersNull = Step.anyRangesToNull steps := hadds.own
  have hjoined : q.inline.joinsOrderNull = steps.any Step.joinsByNull := hadds.joined
  rw [ordersData_iff, hown, hjoined, Step.anyRangesToNull_eq_false_iff, List.any_eq_false]
  simp only [Bool.not_eq_true]
  exact ⟨fun hall s hm => ⟨hall.2 s hm, hall.1 s hm⟩,
    fun hall => ⟨fun s hm => (hall s hm).2, fun s hm => (hall s hm).1⟩⟩

/-- Ranges in a group of a group and in a join. -/
def rangedSteps : List Step :=
  [.whereNested .or [.filter .and "name" .like (.value (.string "A%")),
      .whereNested .or [.whereBetween .and true "age" (.value (.number (.int 3))) (.raw "limit")]],
    .joinWhere "orders" [.whereBetween .or false "orders.total" (.value (.bool true))
      (.value (.string "x"))],
    .filter .and "age" .ne (.value .null)]

theorem run_ordersData_iff_ranged :
    (∀ s ∈ rangedSteps, s.isBuilder = true) ∧ (Step.boundAll rangedSteps).length < UInt32.size ∧
      ∃ q, (table "users").run rangedSteps = .ok q ∧ q.Closed ∧ q.OrdersData := by
  have hs : ∀ s ∈ rangedSteps, s.isBuilder = true := by decide
  have hfit : (Step.boundAll rangedSteps).length < UInt32.size := by decide
  obtain ⟨q, h⟩ : ∃ q, (table "users").run rangedSteps = .ok q :=
    Outcome.exists_ok (by decide +kernel)
  obtain ⟨hc, hiff⟩ := run_ordersData_iff hs hfit h
  exact ⟨hs, hfit, q, h, hc, hiff.mpr (by decide)⟩

/-- A comparison with null is refused, and the range from null that makes it is not. -/
theorem range_from_null_orders_null :
    (table "users").run [.filter .and "age" .gt (.value .null)] =
        .error (.illegalOperatorValue .gt) ∧
      ∃ q, (table "users").run
          [.whereBetween .and false "age" (.value .null) (.value (.number (.int 5)))] = .ok q ∧
        ¬q.OrdersData := by
  refine ⟨rfl, _, rfl, fun h => ?_⟩
  obtain ⟨v, hv, hdata⟩ := h _ (List.mem_singleton.mpr rfl) "age" .gt "B1" List.mem_cons_self rfl
  have hnull : v = .null := (Option.some.inj hv).symm
  rw [hnull] at hdata
  cases hdata

end Query

end AqlQuery

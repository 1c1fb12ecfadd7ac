import AqlQuery.Proofs.Binding.Growth

/-!
# Aspects of a query

A query has four aspects: its rows (conditions, joins, the mutation and the bindings), the columns
it returns, the arrangement of the rows (groups, ordering, aggregate) and the window of rows it
takes. A step that builds works on one aspect: it reads nothing else but the source, which it keeps,
and it writes nothing else. A run of steps is therefore four runs side by side, one for each aspect,
and the order among steps on different aspects does not matter.
-/

namespace AqlQuery

inductive Aspect where
  | rows
  | columns
  | arrangement
  | window
  deriving DecidableEq

/-- The aspect that a step works on; to start over is to work on all of them. -/
def Step.aspect? : Step → Option Aspect
  | .table _ => none
  | .load _ => none
  | .select _ => some .columns
  | .addSelect _ => some .columns
  | .groupBy _ => some .arrangement
  | .orderBy _ _ => some .arrangement
  | .aggregate _ _ => some .arrangement
  | .take _ => some .window
  | .skip _ => some .window
  | .forPage _ _ => some .window
  | _ => some .rows

/-- The steps of a run that work on an aspect, in their order. -/
def Step.onAspect (a : Aspect) (steps : List Step) : List Step :=
  steps.filter fun s => s.aspect? = some a

namespace Query

/-- The query with its source and one aspect only. -/
def restrict (q : Query) (a : Aspect) : Query :=
  match a with
  | .rows =>
    { source := q.source
      predicates := q.predicates
      joins := q.joins
      mutation := q.mutation
      bindings := q.bindings }
  | .columns => { source := q.source, projection := q.projection }
  | .arrangement =>
    { source := q.source, groups := q.groups, ordering := q.ordering, aggregate := q.aggregate }
  | .window => { source := q.source, limit := q.limit, offset := q.offset }

/-- The query with one aspect taken from another. -/
def replace (q : Query) (a : Aspect) (part : Query) : Query :=
  match a with
  | .rows =>
    { q with
      predicates := part.predicates
      joins := part.joins
      mutation := part.mutation
      bindings := part.bindings }
  | .columns => { q with projection := part.projection }
  | .arrangement =>
    { q with groups := part.groups, ordering := part.ordering, aggregate := part.aggregate }
  | .window => { q with limit := part.limit, offset := part.offset }

theorem restrict_restrict (q : Query) (a : Aspect) :
    (q.restrict a).restrict a = q.restrict a := by
  cases a <;> rfl

theorem replace_restrict (q part : Query) (a : Aspect) :
    (q.restrict a).replace a part = (q.replace a part).restrict a := by
  cases a <;> rfl

theorem restrict_replace_of_ne {a b : Aspect} (h : b ≠ a) (q part : Query) :
    (q.replace a part).restrict b = q.restrict b := by
  cases a <;> cases b <;> first | rfl | exact absurd rfl h

/-- A query is determined by its aspects. -/
theorem eq_of_restrict {p q : Query} (h : ∀ a, p.restrict a = q.restrict a) : p = q := by
  have hrows := h .rows
  have hcolumns := h .columns
  have harrangement := h .arrangement
  have hwindow := h .window
  simp only [restrict, mk.injEq] at hrows hcolumns harrangement hwindow
  cases p
  cases q
  simp_all

/-! ## One step -/

theorem filter_replace (q : Query) (link : Connective) (column : String) (operator : Operator)
    (value : Literal) :
    q.filter link column operator value =
      ((q.restrict .rows).filter link column operator value).map (q.replace .rows) := by
  unfold filter
  by_cases hnull : value.isNull = true
  · rw [if_pos hnull, if_pos hnull]
    cases operator <;> rfl
  · rw [if_neg hnull, if_neg hnull]
    rfl

theorem filterEq_replace (q : Query) (link : Connective) (column : String) (value : Literal) :
    q.filterEq link column value =
      q.replace .rows ((q.restrict .rows).filterEq link column value) := by
  unfold filterEq
  split <;> rfl

/-- A group sees the source and the bindings of its query, and nothing else. -/
theorem scratch_restrict (q : Query) : (q.restrict .rows).scratch = q.scratch := rfl

theorem whereNested_replace (q : Query) (link : Connective)
    (build : Query → Except BuildError Query) :
    q.whereNested link build =
      ((q.restrict .rows).whereNested link build).map (q.replace .rows) := by
  unfold whereNested
  rw [scratch_restrict]
  cases build q.scratch <;> rfl

theorem joinWhere_replace (q : Query) (collection : String)
    (build : Query → Except BuildError Query) :
    q.joinWhere collection build =
      ((q.restrict .rows).joinWhere collection build).map (q.replace .rows) := by
  unfold joinWhere
  rw [scratch_restrict]
  cases build q.scratch <;> rfl

theorem withAggregate_replace (q : Query) (function : AggregateFunction) (columns : List String) :
    q.withAggregate function columns =
      ((q.restrict .arrangement).withAggregate function columns).map (q.replace .arrangement) := by
  simp only [withAggregate]
  generalize (if columns = [] then [wholeDocument] else columns) = target
  split <;> rfl

/-- Whether a mutation is pending is a matter of the rows, and so is what follows. -/
theorem mutate_replace {q : Query} {next part : Except BuildError Query}
    (h : next = part.map (q.replace .rows)) :
    (q.ensureNoMutation >>= fun _ => next) =
      ((q.restrict .rows).ensureNoMutation >>= fun _ => part).map (q.replace .rows) := by
  show (q.ensureNoMutation >>= fun _ => next) =
    (q.ensureNoMutation >>= fun _ => part).map (q.replace .rows)
  cases q.ensureNoMutation with
  | error e => rfl
  | ok u => exact h

theorem insert_replace (q : Query) (records : List (List (String × Literal))) :
    q.insert records = ((q.restrict .rows).insert records).map (q.replace .rows) := by
  apply mutate_replace
  cases records with
  | nil => rfl
  | cons first rest =>
    simp only [List.map_cons]
    split <;> rfl

theorem insertJson_replace (q : Query) (records : List Json) :
    q.insertJson records = ((q.restrict .rows).insertJson records).map (q.replace .rows) := by
  unfold insertJson
  cases recordMembers 0 records with
  | error e => rfl
  | ok objects => exact q.insert_replace _

theorem adjust_replace (q : Query) (op : AdjustOp) (column : String) (amount : Json)
    (extra : List (String × Literal)) :
    q.adjust op column amount extra =
      ((q.restrict .rows).adjust op column amount extra).map (q.replace .rows) := by
  apply mutate_replace
  cases numericAmount op amount <;> rfl

end Query

/-- A step reads its own aspect of a query, and replaces it. -/
theorem Step.apply_replace (s : Step) {a : Aspect} (hs : s.aspect? = some a) (q : Query) :
    s.apply q = (s.apply (q.restrict a)).map (q.replace a) := by
  cases s <;> cases hs
  case filter link column operator value => exact q.filter_replace link column operator value
  case filterEq link column value => exact congrArg Except.ok (q.filterEq_replace link column value)
  case whereKey key => exact congrArg Except.ok (q.filterEq_replace ..)
  case whereNested link steps => exact q.whereNested_replace link _
  case joinWhere collection steps => exact q.joinWhere_replace collection _
  case aggregate function columns => exact q.withAggregate_replace function columns
  case insert records => exact q.insert_replace records
  case insertJson records => exact q.insertJson_replace records
  case update values => exact Query.mutate_replace rfl
  case adjust op column amount extra => exact q.adjust_replace op column amount extra
  case delete => exact Query.mutate_replace rfl
  -- the others cannot fail and have no cases
  all_goals rfl

/-- On one aspect alone a step does what it does to it in the whole query. -/
theorem Step.apply_restrict (s : Step) {a : Aspect} (hs : s.aspect? = some a) (q : Query) :
    s.apply (q.restrict a) = (s.apply q).map fun r => r.restrict a := by
  have hself := s.apply_replace hs (q.restrict a)
  rw [Query.restrict_restrict] at hself
  rw [s.apply_replace hs q]
  cases hpart : s.apply (q.restrict a) with
  | error e => rfl
  | ok part =>
    rw [hpart] at hself
    have hkept : part = (q.replace a part).restrict a :=
      (Except.ok.inj hself).trans (q.replace_restrict part a)
    exact congrArg Except.ok hkept

theorem Step.restrict_of_apply {s : Step} {a b : Aspect} (hs : s.aspect? = some a) (hb : b ≠ a)
    {q r : Query} (h : s.apply q = .ok r) : r.restrict b = q.restrict b := by
  rw [s.apply_replace hs q] at h
  cases hpart : s.apply (q.restrict a) with
  | error e =>
    rw [hpart] at h
    cases h
  | ok part =>
    rw [hpart] at h
    cases h
    exact Query.restrict_replace_of_ne hb q part

/-! ## Runs -/

theorem Step.onAspect_cons_self {s : Step} {a : Aspect} (hs : s.aspect? = some a)
    (rest : List Step) : Step.onAspect a (s :: rest) = s :: Step.onAspect a rest := by
  simp [Step.onAspect, hs]

theorem Step.onAspect_cons_of_ne {s : Step} {a b : Aspect} (hs : s.aspect? = some a) (hb : b ≠ a)
    (rest : List Step) : Step.onAspect b (s :: rest) = Step.onAspect b rest := by
  simp [Step.onAspect, hs, hb.symm]

namespace Query

theorem run_cons_ok {s : Step} {rest : List Step} {q r : Query} (h : q.run (s :: rest) = .ok r) :
    ∃ q₁, s.apply q = .ok q₁ ∧ q₁.run rest = .ok r := by
  unfold run at h
  rw [Step.applyAll] at h
  split at h
  · cases h
  next q₁ h₁ => exact ⟨q₁, h₁, h⟩

theorem run_cons {s : Step} {q q₁ : Query} (h : s.apply q = .ok q₁) (rest : List Step) :
    q.run (s :: rest) = q₁.run rest := by
  unfold run
  rw [Step.applyAll, h]

/-- A step moves the run on its own aspect by one, and is not part of the others. -/
theorem run_onAspect_cons {s : Step} {b : Aspect} (hb : s.aspect? = some b) {q q₁ : Query}
    (h : s.apply q = .ok q₁) (rest : List Step) (a : Aspect) :
    (q.restrict a).run (Step.onAspect a (s :: rest)) =
      (q₁.restrict a).run (Step.onAspect a rest) := by
  by_cases hab : a = b
  · subst hab
    have hpart : s.apply (q.restrict a) = .ok (q₁.restrict a) := by
      rw [s.apply_restrict hb, h]
      rfl
    rw [Step.onAspect_cons_self hb, run_cons hpart]
  · rw [Step.onAspect_cons_of_ne hb hab, Step.restrict_of_apply hb hab h]

/-- Each aspect of the result is what the steps on that aspect make of it. -/
theorem run_onAspect {steps : List Step} (hs : ∀ s ∈ steps, s.aspect? ≠ none) {q r : Query}
    (h : q.run steps = .ok r) (a : Aspect) :
    (q.restrict a).run (Step.onAspect a steps) = .ok (r.restrict a) := by
  induction steps generalizing q with
  | nil =>
    cases h
    rfl
  | cons s rest ih =>
    obtain ⟨b, hb⟩ := Option.ne_none_iff_exists'.mp (hs s List.mem_cons_self)
    obtain ⟨q₁, h₁, hrest⟩ := run_cons_ok h
    rw [run_onAspect_cons hb h₁]
    exact ih (fun s' hm => hs s' (List.mem_cons_of_mem s hm)) hrest

/-- A run succeeds if its steps on each aspect succeed by themselves. -/
theorem exists_run_of_onAspect {steps : List Step} (hs : ∀ s ∈ steps, s.aspect? ≠ none) {q : Query}
    (h : ∀ a, ∃ part, (q.restrict a).run (Step.onAspect a steps) = .ok part) :
    ∃ r, q.run steps = .ok r := by
  induction steps generalizing q with
  | nil => exact ⟨q, rfl⟩
  | cons s rest ih =>
    obtain ⟨b, hb⟩ := Option.ne_none_iff_exists'.mp (hs s List.mem_cons_self)
    -- the step succeeds on its own aspect, and so on the query
    have hstep : ∃ q₁, s.apply q = .ok q₁ := by
      obtain ⟨part, hpart⟩ := h b
      rw [Step.onAspect_cons_self hb] at hpart
      obtain ⟨part₁, h₁, _⟩ := run_cons_ok hpart
      rw [s.apply_replace hb, h₁]
      exact ⟨_, rfl⟩
    obtain ⟨q₁, h₁⟩ := hstep
    rw [run_cons h₁]
    apply ih fun s' hm => hs s' (List.mem_cons_of_mem s hm)
    intro a
    rw [← run_onAspect_cons hb h₁]
    exact h a

/-- Two runs with the same steps on each aspect, in any order among aspects, end alike. -/
theorem run_of_same_aspects (p : Query) (steps steps' : List Step)
    (hs : ∀ s ∈ steps, s.aspect? ≠ none) (hs' : ∀ s ∈ steps', s.aspect? ≠ none)
    (hsame : ∀ a, Step.onAspect a steps = Step.onAspect a steps') {q : Query}
    (h : p.run steps = .ok q) : p.run steps' = .ok q := by
  have hparts (a : Aspect) : (p.restrict a).run (Step.onAspect a steps') = .ok (q.restrict a) := by
    rw [← hsame]
    exact run_onAspect hs h a
  obtain ⟨r, hr⟩ := exists_run_of_onAspect hs' fun a => ⟨q.restrict a, hparts a⟩
  have hrq : r = q := by
    apply eq_of_restrict
    intro a
    have ha := run_onAspect hs' hr a
    rw [hparts a] at ha
    exact (Except.ok.inj ha).symm
  rw [hr, hrq]

/-- Steps on all aspects, with a group, an aggregate that clears an order and an update. -/
def arrangedSteps : List Step :=
  [.filter .and "visits.age" .gt (.value (.number (.int 18))),
    .whereNested .or [.filterEq .and "visits.name" (.value (.string "x")), .take 3],
    .update [("seen", .value (.bool true)), ("at", .raw "DATE_NOW()")],
    .select ["visits.name"],
    .addSelect "visits.age AS years",
    .orderBy "visits.name" .desc,
    .aggregate .count [],
    .groupBy ["visits.name"],
    .orderBy "visits.age" .asc,
    .forPage 2 10,
    .skip 5]

/-- The same steps in another order, which keeps that of each aspect. -/
def shuffledSteps : List Step :=
  [.forPage 2 10,
    .orderBy "visits.name" .desc,
    .select ["visits.name"],
    .filter .and "visits.age" .gt (.value (.number (.int 18))),
    .aggregate .count [],
    .skip 5,
    .whereNested .or [.filterEq .and "visits.name" (.value (.string "x")), .take 3],
    .groupBy ["visits.name"],
    .addSelect "visits.age AS years",
    .orderBy "visits.age" .asc,
    .update [("seen", .value (.bool true)), ("at", .raw "DATE_NOW()")]]

theorem run_of_same_aspects_shuffled :
    (∀ s ∈ arrangedSteps, s.aspect? ≠ none) ∧ (∀ s ∈ shuffledSteps, s.aspect? ≠ none) ∧
      (∀ a, Step.onAspect a arrangedSteps = Step.onAspect a shuffledSteps) ∧
      ∃ q, (table "visits").run arrangedSteps = .ok q ∧
        (table "visits").run shuffledSteps = .ok q := by
  have hs : ∀ s ∈ arrangedSteps, s.aspect? ≠ none := by decide
  have hs' : ∀ s ∈ shuffledSteps, s.aspect? ≠ none := by decide
  have hsame : ∀ a, Step.onAspect a arrangedSteps = Step.onAspect a shuffledSteps := by
    intro a
    cases a <;> rfl
  exact ⟨hs, hs', hsame, _, rfl,
    run_of_same_aspects (table "visits") arrangedSteps shuffledSteps hs hs' hsame rfl⟩

end Query

end AqlQuery

import AqlQuery.Proofs.Binding.Records
import AqlQuery.Query.Step

/-!
# What a step does to the bindings of a query

A step that succeeds binds the data it was given, in their order, and every placeholder it adds to
the query refers to one of them. `Query.Grows` says this of two queries, `Step.apply_grows` of
every step. The groups of a query are built on a scratch query of which only the conditions are
kept; placeholders that the steps of a group put elsewhere are dropped, and their bindings stay.
-/

namespace AqlQuery

/-! ## The data that a step binds -/

/-- The data of a literal that a column is compared with; null becomes a test and is not bound. -/
def Literal.comparedData (literal : Literal) : List Json :=
  if literal.isNull then [] else literal.data

mutual
/-- The data that a step binds if it succeeds, in their order. -/
def Step.bound : Step → List Json
  | .filter _ _ _ value => value.comparedData
  | .filterEq _ _ value => value.comparedData
  | .whereKey key => key.comparedData
  | .whereIn _ _ _ values => values.flatMap Literal.data
  | .whereBetween _ _ _ low high => low.data ++ high.data
  | .whereNested _ steps => Step.boundAll steps
  | .joinWhere _ steps => Step.boundAll steps
  | .insert records => (Query.insertPairs records).flatMap pairsData
  | .insertJson records =>
    match Query.recordMembers 0 records with
    | .error _ => []
    | .ok objects =>
      (Query.insertPairs (objects.map (Entries.mapValues Literal.value))).flatMap pairsData
  | .update values => pairsData values
  | .adjust _ _ _ extra => pairsData extra
  | _ => []
/-- The data that steps bind if all of them succeed. -/
def Step.boundAll : List Step → List Json
  | [] => []
  | step :: rest => step.bound ++ Step.boundAll rest
end

/-! ## The operands of a query -/

mutual
/-- The operands of a condition, from left to right. -/
def Condition.operands : Condition → List Operand
  | .compare _ _ value => [value]
  | .member _ values => values
  | .notMember _ values => values
  | .isNull _ => []
  | .notNull _ => []
  | .compareColumns _ _ _ => []
  | .group members => Condition.memberOperands members
/-- The operands of linked conditions. -/
def Condition.memberOperands : List (Connective × Condition) → List Operand
  | [] => []
  | (_, condition) :: rest => condition.operands ++ Condition.memberOperands rest
end

def Assignment.operands : Assignment → List Operand
  | .set _ value => [value]
  | .adjust _ _ _ => []

def Mutation.operands : Mutation → List Operand
  | .insert records => records.flatMap fun record => record.entries.map Prod.snd
  | .update assignments => assignments.flatMap Assignment.operands
  | .delete => []

namespace Query

/-- The operands of the conditions of all joins. -/
def joinOperands (q : Query) : List Operand :=
  q.joins.flatMap fun j => Condition.memberOperands j.conditions

/-- The operands of the pending mutation. -/
def mutationOperands (q : Query) : List Operand :=
  q.mutation.elim [] Mutation.operands

/-- The operands of a query, in the order in which a statement writes them. -/
def operands (q : Query) : List Operand :=
  q.joinOperands ++ Condition.memberOperands q.predicates ++ q.mutationOperands

/-- The names of the bindings that a query refers to. -/
def boundNames (q : Query) : List String :=
  q.operands.filterMap Operand.name?

/-- No placeholder dangles: each name that the query refers to is in its table. -/
def Closed (q : Query) : Prop :=
  ∀ name ∈ q.boundNames, name ∈ q.bindings.names

/-- From `q` to `q'` the given data were bound in their order. The names that `q'` refers to,
together with the dropped ones, are those of `q` and the names of the new bindings. -/
structure Grows (q : Query) (data : List Json) (q' : Query) (dropped : List String) : Prop where
  bindings : q'.bindings = q.bindings.bindAll data
  names : (q'.boundNames ++ dropped).Perm
    (q.boundNames ++ BindTable.freshNames q.bindings.counter data.length)

end Query

theorem Condition.memberOperands_append (xs ys : List Predicate) :
    Condition.memberOperands (xs ++ ys) =
      Condition.memberOperands xs ++ Condition.memberOperands ys := by
  induction xs with
  | nil => rfl
  | cons p rest ih =>
    rw [List.cons_append, Condition.memberOperands, Condition.memberOperands, ih,
      List.append_assoc]

namespace Query

theorem Grows.refl (q : Query) : q.Grows [] q [] :=
  ⟨rfl, List.Perm.refl _⟩

theorem append_swap_perm {α : Type} (xs ys zs : List α) :
    (xs ++ ys ++ zs).Perm (xs ++ zs ++ ys) := by
  rw [List.append_assoc, List.append_assoc]
  exact List.perm_append_comm.append_left xs

theorem Grows.trans {q q₁ q₂ : Query} {data₁ data₂ : List Json} {dropped₁ dropped₂ : List String}
    (h₁ : q.Grows data₁ q₁ dropped₁) (h₂ : q₁.Grows data₂ q₂ dropped₂) :
    q.Grows (data₁ ++ data₂) q₂ (dropped₂ ++ dropped₁) := by
  refine ⟨?_, ?_⟩
  · rw [h₂.bindings, h₁.bindings, BindTable.bindAll_append]
  · -- the second query counts on from where the first one stopped
    have hn := h₂.names
    rw [h₁.bindings, BindTable.counter_bindAll] at hn
    rw [List.length_append, BindTable.freshNames_add, ← List.append_assoc, ← List.append_assoc]
    exact (hn.append_right dropped₁).trans
      ((append_swap_perm _ _ _).trans (h₁.names.append_right _))

/-- A step that touches neither the table nor a place for operands. -/
theorem grows_of_eq {q q' : Query} (hb : q'.bindings = q.bindings)
    (ho : q'.operands = q.operands) : q.Grows [] q' [] := by
  refine ⟨hb, ?_⟩
  rw [boundNames, boundNames, ho]
  exact List.Perm.refl _

/-! ## Steps that add one condition, one join or the mutation -/

theorem boundNames_push (q : Query) (link : Connective) (condition : Condition) :
    (q.push link condition).boundNames.Perm
      (q.boundNames ++ condition.operands.filterMap Operand.name?) := by
  unfold boundNames
  rw [← List.filterMap_append]
  apply List.Perm.filterMap
  change (q.joinOperands ++ Condition.memberOperands (q.predicates ++ [(link, condition)]) ++
    q.mutationOperands).Perm _
  rw [Condition.memberOperands_append, Condition.memberOperands, Condition.memberOperands,
    List.append_nil, ← List.append_assoc]
  exact append_swap_perm _ _ _

theorem boundNames_pushJoin (q : Query) (collection : String) (conditions : List Predicate) :
    (q.pushJoin collection conditions).boundNames.Perm
      (q.boundNames ++ (Condition.memberOperands conditions).filterMap Operand.name?) := by
  unfold boundNames
  rw [← List.filterMap_append]
  apply List.Perm.filterMap
  change ((q.joins ++ [(⟨collection, conditions⟩ : Join)]).flatMap _ ++
    Condition.memberOperands q.predicates ++ q.mutationOperands).Perm _
  rw [List.flatMap_append, List.flatMap_singleton, operands, List.append_assoc (q.joinOperands),
    List.append_assoc (_ ++ _)]
  exact append_swap_perm _ _ _

/-- Binds data and adds a condition that refers to exactly these. -/
theorem grows_push {q : Query} {link : Connective} {condition : Condition} {data : List Json}
    {table : BindTable} (ht : table = q.bindings.bindAll data)
    (hn : condition.operands.filterMap Operand.name? =
      BindTable.freshNames q.bindings.counter data.length) :
    q.Grows data ({ q with bindings := table }.push link condition) [] := by
  refine ⟨ht, ?_⟩
  rw [List.append_nil, ← hn]
  exact boundNames_push { q with bindings := table } link condition

/-- Binds data and sets the mutation, which refers to exactly these. -/
theorem grows_mutation {q : Query} {m : Mutation} {data : List Json} {table : BindTable}
    (hq : q.mutation = none) (ht : table = q.bindings.bindAll data)
    (hn : m.operands.filterMap Operand.name? =
      BindTable.freshNames q.bindings.counter data.length) :
    q.Grows data { q with mutation := some m, bindings := table } [] := by
  refine ⟨ht, ?_⟩
  have hm : q.mutationOperands = [] := by rw [mutationOperands, hq]; rfl
  rw [List.append_nil, boundNames, boundNames, operands, operands, hm, List.append_nil, ← hn,
    ← List.filterMap_append]
  exact List.Perm.refl _

/-- Adds a condition without placeholders. -/
theorem grows_push_plain {q : Query} {link : Connective} {condition : Condition}
    (hn : condition.operands = []) : q.Grows [] (q.push link condition) [] :=
  @grows_push q link condition [] q.bindings rfl (by rw [hn]; rfl)

/-! ## The builder functions one by one -/

theorem compare_grows (q : Query) (link : Connective) (column : String) (operator : Operator)
    (value : Literal) :
    q.Grows value.data ((q.bind value).2.push link (.compare column operator (q.bind value).1))
      [] := by
  refine grows_push (q.bindings.allocate_table value) ?_
  rw [← q.bindings.allocate_name value]
  cases value <;> rfl

/-- Null is compared by the two tests of equality only, and is not bound then. -/
theorem filter_ok {q q' : Query} {link : Connective} {column : String} {operator : Operator}
    {value : Literal} (h : q.filter link column operator value = .ok q') :
    (value.isNull = true ∧ ∃ condition, condition.operands = [] ∧ q' = q.push link condition) ∨
      (value.isNull = false ∧
        q' = (q.bind value).2.push link (.compare column operator (q.bind value).1)) := by
  unfold filter at h
  split at h
  next hnull =>
    refine Or.inl ⟨hnull, ?_⟩
    split at h
    next =>
      cases h
      exact ⟨.isNull column, rfl, rfl⟩
    next =>
      cases h
      exact ⟨.notNull column, rfl, rfl⟩
    next => cases h
  next hnull =>
    cases h
    exact Or.inr ⟨Bool.eq_false_iff.mpr hnull, rfl⟩

theorem filter_grows {q q' : Query} {link : Connective} {column : String} {operator : Operator}
    {value : Literal} (h : q.filter link column operator value = .ok q') :
    q.Grows value.comparedData q' [] := by
  unfold Literal.comparedData
  obtain ⟨hnull, condition, ho, rfl⟩ | ⟨hnull, rfl⟩ := filter_ok h
  · rw [if_pos hnull]
    exact grows_push_plain ho
  · rw [hnull]
    exact compare_grows q link column operator value

theorem filterEq_grows (q : Query) (link : Connective) (column : String) (value : Literal) :
    q.Grows value.comparedData (q.filterEq link column value) [] := by
  unfold filterEq Literal.comparedData
  split
  next => exact grows_push_plain rfl
  next => exact compare_grows q link column .eq value

theorem whereIn_grows (q : Query) (link : Connective) (negated : Bool) (column : String)
    (values : List Literal) :
    q.Grows (values.flatMap Literal.data) (q.whereIn link negated column values) [] := by
  refine grows_push (q.bindings.allocateAll_table values) ?_
  rw [← q.bindings.allocateAll_names values]
  cases negated <;> rfl

theorem whereBetween_grows (q : Query) (link : Connective) (negated : Bool) (column : String)
    (low high : Literal) :
    q.Grows (low.data ++ high.data) (q.whereBetween link negated column low high) [] := by
  have ht := q.bindings.allocateAll_table [low, high]
  have hn := q.bindings.allocateAll_names [low, high]
  rw [List.flatMap_cons, List.flatMap_cons, List.flatMap_nil, List.append_nil] at ht hn
  refine grows_push ht ?_
  rw [← hn]
  cases negated <;> rfl

theorem joinColumns_grows (q : Query) (collection first : String) (operator : Operator)
    (second : String) : q.Grows [] (q.join collection first operator second) [] := by
  refine ⟨rfl, ?_⟩
  rw [List.append_nil]
  exact boundNames_pushJoin q collection [(.and, .compareColumns first operator second)]

theorem crossJoin_grows (q : Query) (collection : String) :
    q.Grows [] (q.crossJoin collection) [] := by
  refine ⟨rfl, ?_⟩
  rw [List.append_nil]
  exact boundNames_pushJoin q collection []

theorem withAggregate_grows {q q' : Query} {function : AggregateFunction} {columns : List String}
    (h : q.withAggregate function columns = .ok q') : q.Grows [] q' [] := by
  simp only [withAggregate] at h
  generalize (if columns = [] then [wholeDocument] else columns) = target at h
  split at h
  · cases h
  · cases h
    exact grows_of_eq rfl rfl

theorem insert_grows {q q' : Query} {records : List (List (String × Literal))}
    (h : q.insert records = .ok q') : q.Grows ((insertPairs records).flatMap pairsData) q' [] := by
  obtain ⟨hm, rows, rfl, hrows⟩ := insert_ok h
  refine grows_mutation hm (BindTable.allocateRows_table _ _) ?_
  rw [← BindTable.allocateRows_names, ← hrows, Mutation.operands, List.filterMap_flatMap,
    List.flatMap_map]
  simp only [List.filterMap_map]
  rfl

theorem insertJson_grows {q q' : Query} {records : List Json}
    (h : q.insertJson records = .ok q') : q.Grows (Step.bound (.insertJson records)) q' [] := by
  unfold insertJson at h
  unfold Step.bound
  cases hm : recordMembers 0 records with
  | error e =>
    rw [hm] at h
    cases h
  | ok objects =>
    rw [hm] at h
    exact insert_grows h

theorem setAll_operands (pairs : List (String × Operand)) :
    ((setAll pairs).flatMap Assignment.operands).filterMap Operand.name? =
      pairs.filterMap fun pair => pair.2.name? := by
  induction pairs with
  | nil => rfl
  | cons pair rest ih =>
    rw [setAll] at ih ⊢
    rw [List.map_cons, List.flatMap_cons, List.filterMap_append, ih, List.filterMap_cons]
    cases h : pair.2.name? with
    | none => simp [Assignment.operands, h]
    | some name => simp [Assignment.operands, h]

theorem update_grows {q q' : Query} {values : List (String × Literal)}
    (h : q.update values = .ok q') : q.Grows (pairsData values) q' [] := by
  obtain ⟨hm, h⟩ := ok_of_ensureNoMutation h
  cases h
  refine grows_mutation hm (BindTable.allocatePairs_table _ _) ?_
  rw [Mutation.operands, setAll_operands, BindTable.allocatePairs_names]

theorem adjust_grows {q q' : Query} {op : AdjustOp} {column : String} {amount : Json}
    {extra : List (String × Literal)} (h : q.adjust op column amount extra = .ok q') :
    q.Grows (pairsData extra) q' [] := by
  obtain ⟨hm, h⟩ := ok_of_ensureNoMutation h
  cases hn : numericAmount op amount with
  | error e =>
    rw [hn] at h
    cases h
  | ok n =>
    rw [hn] at h
    cases h
    refine grows_mutation hm (BindTable.allocatePairs_table _ _) ?_
    rw [Mutation.operands, List.flatMap_cons, Assignment.operands, List.nil_append,
      setAll_operands, BindTable.allocatePairs_names]

theorem delete_grows {q q' : Query} (h : q.delete = .ok q') : q.Grows [] q' [] := by
  obtain ⟨hm, h⟩ := ok_of_ensureNoMutation h
  cases h
  exact @grows_mutation q .delete [] q.bindings hm rfl rfl

/-! ## Groups -/

/-- The names that a query refers to outside its own conditions. -/
def besides (q : Query) : List String :=
  (q.joinOperands ++ q.mutationOperands).filterMap Operand.name?

theorem boundNames_perm_besides (q : Query) :
    q.boundNames.Perm
      ((Condition.memberOperands q.predicates).filterMap Operand.name? ++ q.besides) := by
  unfold boundNames operands besides
  rw [← List.filterMap_append]
  apply List.Perm.filterMap
  rw [← List.append_assoc]
  exact List.perm_append_comm.append_right _

/-- A query that takes the table and the conditions of what was built on its scratch query grows by
the same data; what the scratch query refers to besides is dropped. -/
theorem Grows.of_scratch {q built q' : Query} {data : List Json} {dropped : List String}
    (h : q.scratch.Grows data built dropped) (hb : q'.bindings = built.bindings)
    (hn : q'.boundNames.Perm (q.boundNames ++
      (Condition.memberOperands built.predicates).filterMap Operand.name?)) :
    q.Grows data q' (built.besides ++ dropped) := by
  refine ⟨hb.trans h.bindings, (hn.append_right _).trans ?_⟩
  -- a scratch query starts without a name, so all names of `built` are new
  have hnew := (built.boundNames_perm_besides.symm.append_right dropped).trans h.names
  rw [List.append_assoc] at hnew ⊢
  exact hnew.append_left _

theorem group_grows {q built : Query} {link : Connective} {data : List Json}
    {dropped : List String} (h : q.scratch.Grows data built dropped) :
    q.Grows data ({ q with bindings := built.bindings }.push link (.group built.predicates))
      (built.besides ++ dropped) :=
  h.of_scratch rfl (boundNames_push { q with bindings := built.bindings } link _)

theorem groupJoin_grows {q built : Query} {collection : String} {data : List Json}
    {dropped : List String} (h : q.scratch.Grows data built dropped) :
    q.Grows data ({ q with bindings := built.bindings }.pushJoin collection built.predicates)
      (built.besides ++ dropped) :=
  h.of_scratch rfl (boundNames_pushJoin { q with bindings := built.bindings } collection _)

theorem whereNested_ok {q q' : Query} {link : Connective}
    {build : Query → Except BuildError Query} (h : q.whereNested link build = .ok q') :
    ∃ built, build q.scratch = .ok built ∧
      q' = { q with bindings := built.bindings }.push link (.group built.predicates) := by
  unfold whereNested at h
  split at h
  next => cases h
  next built hb =>
    cases h
    exact ⟨built, hb, rfl⟩

theorem joinWhere_ok {q q' : Query} {collection : String}
    {build : Query → Except BuildError Query} (h : q.joinWhere collection build = .ok q') :
    ∃ built, build q.scratch = .ok built ∧
      q' = { q with bindings := built.bindings }.pushJoin collection built.predicates := by
  unfold joinWhere at h
  split at h
  next => cases h
  next built hb =>
    cases h
    exact ⟨built, hb, rfl⟩

end Query

/-! ## Steps -/

mutual
/-- Whether a step builds on the query it is given, and so do the steps of its groups: it neither
starts over nor loads another query. -/
def Step.isBuilder : Step → Bool
  | .table _ => false
  | .load _ => false
  | .whereNested _ steps => Step.areBuilders steps
  | .joinWhere _ steps => Step.areBuilders steps
  | _ => true
/-- `isBuilder` of every step. -/
def Step.areBuilders : List Step → Bool
  | [] => true
  | step :: rest => step.isBuilder && Step.areBuilders rest
end

theorem Step.areBuilders_iff {steps : List Step} :
    Step.areBuilders steps = true ↔ ∀ s ∈ steps, s.isBuilder = true := by
  induction steps with
  | nil => simp [Step.areBuilders]
  | cons s rest ih => rw [Step.areBuilders, Bool.and_eq_true, ih, List.forall_mem_cons]

mutual
/-- Whether a step adds one condition, and the steps of its groups do so too. -/
def Step.isPredicate : Step → Bool
  | .filter _ _ _ _ => true
  | .filterEq _ _ _ => true
  | .whereKey _ => true
  | .whereIn _ _ _ _ => true
  | .whereNull _ _ _ => true
  | .whereColumn _ _ _ _ => true
  | .whereBetween _ _ _ _ _ => true
  | .whereNested _ steps => Step.arePredicates steps
  | _ => false
/-- `isPredicate` of every step. -/
def Step.arePredicates : List Step → Bool
  | [] => true
  | step :: rest => step.isPredicate && Step.arePredicates rest
end

/-- Whether the groups of a step are built by steps that add conditions. -/
def Step.groupsArePlain : Step → Bool
  | .whereNested _ steps => Step.arePredicates steps
  | .joinWhere _ steps => Step.arePredicates steps
  | _ => true

/-- A step that adds a condition leaves the joins and the mutation alone. -/
theorem Step.besides_of_isPredicate {s : Step} {q q' : Query} (hs : s.isPredicate = true)
    (h : s.apply q = .ok q') : q'.besides = q.besides := by
  cases s <;> simp only [Step.isPredicate, Bool.false_eq_true] at hs <;>
    simp only [Step.apply, Except.ok.injEq] at h
  case filter =>
    obtain ⟨_, _, _, rfl⟩ | ⟨_, rfl⟩ := Query.filter_ok h <;> rfl
  case filterEq =>
    subst h
    unfold Query.filterEq
    split <;> rfl
  case whereKey =>
    subst h
    unfold Query.whereKey Query.filterEq
    split <;> rfl
  case whereNested =>
    obtain ⟨built, _, rfl⟩ := Query.whereNested_ok h
    rfl
  all_goals
    subst h
    rfl

theorem Step.groupsArePlain_of_isPredicate {s : Step} (hs : s.isPredicate = true) :
    s.groupsArePlain = true := by
  cases s with
  | whereNested link steps => exact hs
  | joinWhere collection steps => cases hs
  | _ => rfl

theorem Step.besides_of_arePredicates {steps : List Step} {q q' : Query}
    (hs : Step.arePredicates steps = true) (h : Step.applyAll steps q = .ok q') :
    q'.besides = q.besides := by
  induction steps generalizing q with
  | nil =>
    cases h
    rfl
  | cons s rest ih =>
    rw [Step.arePredicates, Bool.and_eq_true] at hs
    rw [Step.applyAll] at h
    split at h
    next => cases h
    next q₁ h₁ => rw [ih hs.2 h, Step.besides_of_isPredicate hs.1 h₁]

mutual
/-- A step that succeeds binds its data. Only groups drop placeholders, and only those of steps
that do more than add conditions. -/
theorem Step.apply_grows (s : Step) {q q' : Query} (hs : s.isBuilder = true)
    (h : s.apply q = .ok q') :
    ∃ dropped, q.Grows s.bound q' dropped ∧ (s.groupsArePlain = true → dropped = []) := by
  cases s <;> simp only [Step.apply, Except.ok.injEq] at h
  case table => cases hs
  case load => cases hs
  case whereNested link steps =>
    obtain ⟨built, hb, rfl⟩ := Query.whereNested_ok h
    obtain ⟨dropped, hg, hd⟩ := Step.applyAll_grows steps hs hb
    refine ⟨_, Query.group_grows hg, fun hp => ?_⟩
    rw [hd hp, Step.besides_of_arePredicates hp hb]
    rfl
  case joinWhere collection steps =>
    obtain ⟨built, hb, rfl⟩ := Query.joinWhere_ok h
    obtain ⟨dropped, hg, hd⟩ := Step.applyAll_grows steps hs hb
    refine ⟨_, Query.groupJoin_grows hg, fun hp => ?_⟩
    rw [hd hp, Step.besides_of_arePredicates hp hb]
    rfl
  case filter => exact ⟨[], Query.filter_grows h, fun _ => rfl⟩
  case aggregate => exact ⟨[], Query.withAggregate_grows h, fun _ => rfl⟩
  case insert => exact ⟨[], Query.insert_grows h, fun _ => rfl⟩
  case insertJson => exact ⟨[], Query.insertJson_grows h, fun _ => rfl⟩
  case update => exact ⟨[], Query.update_grows h, fun _ => rfl⟩
  case adjust => exact ⟨[], Query.adjust_grows h, fun _ => rfl⟩
  case delete => exact ⟨[], Query.delete_grows h, fun _ => rfl⟩
  all_goals
    subst h
    refine ⟨[], ?_, fun _ => rfl⟩
  case filterEq => exact Query.filterEq_grows _ _ _ _
  case whereKey => exact Query.filterEq_grows _ _ _ _
  case whereIn => exact Query.whereIn_grows _ _ _ _ _
  case whereNull link negated column =>
    cases negated <;> exact Query.grows_push_plain rfl
  case whereColumn => exact Query.grows_push_plain rfl
  case whereBetween => exact Query.whereBetween_grows _ _ _ _ _ _
  case join => exact Query.joinColumns_grows _ _ _ _ _
  case crossJoin => exact Query.crossJoin_grows _ _
  -- what is left sets the projection, the groups, the ordering or the window
  all_goals exact Query.grows_of_eq rfl rfl
theorem Step.applyAll_grows (steps : List Step) {q q' : Query}
    (hs : Step.areBuilders steps = true) (h : Step.applyAll steps q = .ok q') :
    ∃ dropped, q.Grows (Step.boundAll steps) q' dropped ∧
      (Step.arePredicates steps = true → dropped = []) := by
  cases steps with
  | nil =>
    cases h
    exact ⟨[], Query.Grows.refl q, fun _ => rfl⟩
  | cons s rest =>
    rw [Step.areBuilders, Bool.and_eq_true] at hs
    rw [Step.applyAll] at h
    split at h
    next => cases h
    next q₁ h₁ =>
      obtain ⟨dropped₁, hg₁, hd₁⟩ := Step.apply_grows s hs.1 h₁
      obtain ⟨dropped₂, hg₂, hd₂⟩ := Step.applyAll_grows rest hs.2 h
      refine ⟨_, hg₁.trans hg₂, fun hp => ?_⟩
      rw [Step.arePredicates, Bool.and_eq_true] at hp
      rw [hd₁ (Step.groupsArePlain_of_isPredicate hp.1), hd₂ hp.2]
      rfl
end

/-! ## Whole runs -/

namespace Query

/-- The data bound by those of the steps that succeed, in their order. -/
def boundBy : List Step → Query → List Json
  | [], _ => []
  | step :: rest, q =>
    match step.apply q with
    | .ok q' => step.bound ++ boundBy rest q'
    | .error _ => boundBy rest q

theorem runLenient_cons (s : Step) (rest : List Step) (q : Query) :
    q.runLenient (s :: rest) =
      match s.apply q with
      | .ok q' => q'.runLenient rest
      | .error _ => q.runLenient rest := by
  unfold runLenient
  rw [List.foldl_cons]
  cases s.apply q <;> rfl

/-- What each step keeps, and a step that fails keeps anyhow, holds after all of them. -/
theorem runLenient_keeps {P : Query → Prop} {steps : List Step}
    (hstep : ∀ s ∈ steps, ∀ q r, P q → s.apply q = .ok r → P r) {q : Query} (hq : P q) :
    P (q.runLenient steps) := by
  induction steps generalizing q with
  | nil => exact hq
  | cons s rest ih =>
    have hrest {p : Query} : P p → P (p.runLenient rest) :=
      ih fun s' hm => hstep s' (List.mem_cons_of_mem s hm)
    rw [runLenient_cons]
    cases h : s.apply q with
    | error e => exact hrest hq
    | ok r => exact hrest (hstep s List.mem_cons_self q r hq h)

theorem runLenient_append (first rest : List Step) (q : Query) :
    q.runLenient (first ++ rest) = (q.runLenient first).runLenient rest :=
  List.foldl_append

theorem boundBy_append (first rest : List Step) (q : Query) :
    q.boundBy (first ++ rest) = q.boundBy first ++ (q.runLenient first).boundBy rest := by
  induction first generalizing q with
  | nil => rfl
  | cons s steps ih =>
    rw [List.cons_append, boundBy, boundBy, runLenient_cons]
    cases s.apply q with
    | error e => exact ih q
    | ok q' =>
      change s.bound ++ q'.boundBy (steps ++ rest) = s.bound ++ q'.boundBy steps ++ _
      rw [ih q', List.append_assoc]

theorem runLenient_grows {steps : List Step} {q : Query}
    (hs : ∀ s ∈ steps, s.isBuilder = true) :
    ∃ dropped, q.Grows (q.boundBy steps) (q.runLenient steps) dropped ∧
      ((∀ s ∈ steps, s.groupsArePlain = true) → dropped = []) := by
  induction steps generalizing q with
  | nil => exact ⟨[], Grows.refl q, fun _ => rfl⟩
  | cons s rest ih =>
    have hrest := fun s' hm => hs s' (List.mem_cons_of_mem s hm)
    rw [runLenient_cons, boundBy]
    cases h : s.apply q with
    | error e =>
      -- the query is as before, and so are its table and its names
      obtain ⟨dropped, hg, hd⟩ := @ih q hrest
      exact ⟨dropped, hg, fun hp => hd fun s' hm => hp s' (List.mem_cons_of_mem s hm)⟩
    | ok q₁ =>
      obtain ⟨dropped₁, hg₁, hd₁⟩ := Step.apply_grows s (hs s List.mem_cons_self) h
      obtain ⟨dropped₂, hg₂, hd₂⟩ := @ih q₁ hrest
      refine ⟨_, hg₁.trans hg₂, fun hp => ?_⟩
      rw [hd₁ (hp s List.mem_cons_self), hd₂ fun s' hm => hp s' (List.mem_cons_of_mem s hm)]
      rfl

theorem length_boundBy_le (steps : List Step) (q : Query) :
    (q.boundBy steps).length ≤ (Step.boundAll steps).length := by
  induction steps generalizing q with
  | nil => exact Nat.le_refl 0
  | cons s rest ih =>
    rw [boundBy, Step.boundAll, List.length_append]
    split
    next q' _ =>
      have := ih q'
      rw [List.length_append]
      omega
    next =>
      have := ih q
      omega

/-- What grows from a closed query is closed. -/
theorem Closed.of_grows {q q' : Query} {data : List Json} {dropped : List String}
    (hc : q.Closed) (hg : q.Grows data q' dropped) : q'.Closed := by
  intro name hn
  have hm := hg.names.subset (List.mem_append_left dropped hn)
  rw [hg.bindings, BindTable.mem_names_bindAll]
  rcases List.mem_append.mp hm with hold | hnew
  · exact Or.inl (hc name hold)
  · exact Or.inr hnew

theorem closed_table (name : String) : (table name).Closed := by
  intro n hn
  cases hn

end Query

end AqlQuery

import AqlQuery.Proofs.Binding.Inline
import AqlQuery.Proofs.Binding.Normal

/-!
# Placeholders stand for their literals

Every step does the same to a query and to its inline form: `apply_inline` is the commuting square
of one step, read through any table that extends the one the step leaves behind. A closed query
reads the same through all such tables, so the squares of a run compose, and the final table gives
each placeholder the literal that was supplied for it.
-/

namespace AqlQuery

/-! ## Reading through two tables -/

mutual
theorem Condition.inlineWith_congr {f g : Operand → Literal} (c : Condition)
    (h : ∀ o ∈ c.operands, f o = g o) : c.inlineWith f = c.inlineWith g := by
  cases c with
  | compare column operator value =>
    rw [inlineWith, inlineWith, h value List.mem_cons_self]
  | member column values =>
    rw [operands] at h
    rw [inlineWith, inlineWith, List.map_congr_left h]
  | notMember column values =>
    rw [operands] at h
    rw [inlineWith, inlineWith, List.map_congr_left h]
  | isNull column => rfl
  | notNull column => rfl
  | compareColumns first operator second => rfl
  | group members => rw [inlineWith, inlineWith, Condition.inlineMembers_congr members h]
theorem Condition.inlineMembers_congr {f g : Operand → Literal} (members : List Predicate)
    (h : ∀ o ∈ Condition.memberOperands members, f o = g o) :
    Condition.inlineMembers f members = Condition.inlineMembers g members := by
  cases members with
  | nil => rfl
  | cons member rest =>
    obtain ⟨link, c⟩ := member
    rw [Condition.memberOperands] at h
    rw [inlineMembers, inlineMembers,
      Condition.inlineWith_congr c fun o ho => h o (List.mem_append_left _ ho),
      Condition.inlineMembers_congr rest fun o ho => h o (List.mem_append_right _ ho)]
end

theorem Assignment.inlineWith_congr {f g : Operand → Literal} (a : Assignment)
    (h : ∀ o ∈ a.operands, f o = g o) : a.inlineWith f = a.inlineWith g := by
  cases a with
  | set column value => rw [inlineWith, inlineWith, h value List.mem_cons_self]
  | adjust column op amount => rfl

theorem Mutation.inlineWith_congr {f g : Operand → Literal} (m : Mutation)
    (h : ∀ o ∈ m.operands, f o = g o) : m.inlineWith f = m.inlineWith g := by
  cases m with
  | insert records =>
    rw [inlineWith, inlineWith]
    congr 1
    apply List.map_congr_left
    intro record hr
    apply OrderedMap.ext
    apply List.map_congr_left
    intro entry he
    have ho : entry.2 ∈ (Mutation.insert records).operands :=
      List.mem_flatMap.mpr ⟨record, hr, List.mem_map_of_mem he⟩
    rw [h entry.2 ho]
  | update assignments =>
    rw [inlineWith, inlineWith]
    congr 1
    apply List.map_congr_left
    intro a ha
    exact a.inlineWith_congr fun o ho => h o (List.mem_flatMap.mpr ⟨a, ha, ho⟩)
  | delete => rfl

namespace Query

theorem inlineWith_congr {f g : Operand → Literal} (q : Query)
    (h : ∀ o ∈ q.operands, f o = g o) : q.inlineWith f = q.inlineWith g := by
  have hp : Condition.inlineMembers f q.predicates = Condition.inlineMembers g q.predicates :=
    Condition.inlineMembers_congr _ fun o ho =>
      h o (List.mem_append_left _ (List.mem_append_right _ ho))
  have hj : q.joins.map (Join.inlineWith f) = q.joins.map (Join.inlineWith g) := by
    apply List.map_congr_left
    intro j hj
    have hc := Condition.inlineMembers_congr j.conditions fun o ho =>
      h o (List.mem_append_left _ (List.mem_append_left _ (List.mem_flatMap.mpr ⟨j, hj, ho⟩)))
    rw [Join.inlineWith, Join.inlineWith, hc]
  have hm : q.mutation.map (Mutation.inlineWith f) = q.mutation.map (Mutation.inlineWith g) := by
    cases hq : q.mutation with
    | none => rfl
    | some m =>
      have hmo : q.mutationOperands = m.operands := by rw [mutationOperands, hq]; rfl
      have hc := m.inlineWith_congr fun o ho => h o (List.mem_append_right _ (hmo ▸ ho))
      rw [Option.map_some, Option.map_some, hc]
  rw [inlineWith, inlineWith, hp, hj, hm]

/-- A closed query reads the same through every extension of its table. -/
theorem Closed.inlineWith_eq {q : Query} {later : BindTable} (hc : q.Closed)
    (hl : q.bindings.PrefixOf later) : q.inlineWith (literalOf later) = q.inline := by
  apply inlineWith_congr
  intro o ho
  cases o with
  | raw text => rfl
  | bound name =>
    have hn : name ∈ q.bindings.names := hc name (List.mem_filterMap.mpr ⟨_, ho, rfl⟩)
    obtain ⟨v, hv⟩ := Option.isSome_iff_exists.mp ((q.bindings.get?_isSome_iff name).mpr hn)
    rw [literalOf, literalOf, hl.get? hv, hv]

/-! ## The builder functions one by one -/

section Square

variable {q : Query} {later : BindTable}

theorem inlineWith_push (f : Operand → Literal) (q : Query) (link : Connective)
    (condition : Condition) :
    (q.push link condition).inlineWith f =
      (q.inlineWith f).push link (condition.inlineWith f) := by
  have h : Condition.inlineMembers f (q.predicates ++ [(link, condition)]) =
      Condition.inlineMembers f q.predicates ++ [(link, condition.inlineWith f)] := by
    induction q.predicates with
    | nil => rfl
    | cons p rest ih =>
      rw [List.cons_append, Condition.inlineMembers, ih]
      rfl
  rw [push, inlineWith, h]
  rfl

theorem inlineWith_pushJoin (f : Operand → Literal) (q : Query) (collection : String)
    (conditions : List Predicate) :
    (q.pushJoin collection conditions).inlineWith f =
      (q.inlineWith f).pushJoin collection (Condition.inlineMembers f conditions) := by
  rw [pushJoin, inlineWith, List.map_append]
  rfl

theorem compare_inline {value : Literal} (link : Connective) (column : String)
    (operator : Operator) (hl : (q.bindings.bindAll value.data).PrefixOf later) :
    ((q.bind value).2.push link (.compare column operator (q.bind value).1)).inlineWith
        (literalOf later) =
      (q.inlineWith (literalOf later)).push link (.compare column operator value) := by
  have hv : literalOf later (q.bind value).1 = value := literalOf_allocate hl
  rw [inlineWith_push, Condition.inlineWith, hv]
  rfl

theorem isNull_eq_true_iff (value : Literal) : value.isNull = true ↔ value = .value .null := by
  cases value with
  | raw text => simp [Literal.isNull]
  | value v => cases v <;> simp [Literal.isNull, Json.isNull]

theorem filter_inline {value : Literal} (link : Connective) (column : String)
    (operator : Operator) (hl : (q.bindings.bindAll value.comparedData).PrefixOf later) :
    (q.inlineWith (literalOf later)).filter link column operator value =
      (q.filter link column operator value).map (inlineWith (literalOf later)) := by
  by_cases hnull : value.isNull = true
  · rw [isNull_eq_true_iff] at hnull
    subst hnull
    cases operator with
    | eq => exact congrArg Except.ok (inlineWith_push _ q link (.isNull column)).symm
    | ne => exact congrArg Except.ok (inlineWith_push _ q link (.notNull column)).symm
    | _ => rfl
  · have hd : value.comparedData = value.data := if_neg hnull
    rw [hd] at hl
    have hq : q.filter link column operator value =
        .ok ((q.bind value).2.push link (.compare column operator (q.bind value).1)) :=
      if_neg hnull
    rw [hq, Except.map, compare_inline link column operator hl]
    -- the first three cases of the reference are about null
    unfold Inline.Query.filter
    split
    · exact absurd rfl hnull
    · exact absurd rfl hnull
    · exact absurd rfl hnull
    · rfl

theorem filterEq_inline {value : Literal} (link : Connective) (column : String)
    (hl : (q.bindings.bindAll value.comparedData).PrefixOf later) :
    (q.inlineWith (literalOf later)).filterEq link column value =
      (q.filterEq link column value).inlineWith (literalOf later) := by
  by_cases hnull : value.isNull = true
  · rw [isNull_eq_true_iff] at hnull
    subst hnull
    exact (inlineWith_push _ q link (.isNull column)).symm
  · have hd : value.comparedData = value.data := if_neg hnull
    rw [hd] at hl
    have hq : q.filterEq link column value =
        (q.bind value).2.push link (.compare column .eq (q.bind value).1) := if_neg hnull
    rw [hq, compare_inline link column .eq hl]
    unfold Inline.Query.filterEq
    split
    · exact absurd rfl hnull
    · rfl

theorem whereIn_inline {values : List Literal} (link : Connective) (negated : Bool)
    (column : String) (ht : q.bindings.Takes (values.flatMap Literal.data))
    (hl : (q.bindings.bindAll (values.flatMap Literal.data)).PrefixOf later) :
    (q.inlineWith (literalOf later)).whereIn link negated column values =
      (q.whereIn link negated column values).inlineWith (literalOf later) := by
  have hv := literalOf_allocateAll ht hl
  unfold whereIn
  rw [inlineWith_push]
  cases negated with
  | false =>
    simp only [Bool.false_eq_true, if_false, Condition.inlineWith]
    rw [hv]
    rfl
  | true =>
    simp only [if_true, Condition.inlineWith]
    rw [hv]
    rfl

theorem whereBetween_inline {low high : Literal} (link : Connective) (negated : Bool)
    (column : String) (ht : q.bindings.Takes (low.data ++ high.data))
    (hl : (q.bindings.bindAll (low.data ++ high.data)).PrefixOf later) :
    (q.inlineWith (literalOf later)).whereBetween link negated column low high =
      (q.whereBetween link negated column low high).inlineWith (literalOf later) := by
  have hlow : literalOf later (q.bind low).1 = low := literalOf_allocate (ht.prefixOf_left hl)
  have hhigh : literalOf later ((q.bind low).2.bind high).1 = high := by
    apply literalOf_allocate
    change ((q.bindings.allocate low).2.bindAll high.data).PrefixOf later
    rw [BindTable.allocate_table, ← BindTable.bindAll_append]
    exact hl
  unfold whereBetween
  rw [inlineWith_push]
  cases negated with
  | false =>
    simp only [Bool.false_eq_true, if_false, Condition.inlineWith, Condition.inlineMembers]
    rw [hlow, hhigh]
    rfl
  | true =>
    simp only [if_true, Condition.inlineWith, Condition.inlineMembers]
    rw [hlow, hhigh]
    rfl

theorem withAggregate_inline (f : Operand → Literal) (q : Query) (function : AggregateFunction)
    (columns : List String) :
    (q.inlineWith f).withAggregate function columns =
      (q.withAggregate function columns).map (inlineWith f) := by
  simp only [withAggregate, Inline.Query.withAggregate]
  generalize (if columns = [] then [wholeDocument] else columns) = target
  split <;> rfl

/-- A mutation that is set after another fails alike with and without a table. -/
theorem mutate_inline {f : Operand → Literal} {q : Query}
    {mutation : Except BuildError Inline.Mutation} {next : Except BuildError Query}
    (h : q.mutation = none →
      mutation.map (fun m => { q.inlineWith f with mutation := some m }) =
        next.map (inlineWith f)) :
    (q.inlineWith f).mutate mutation =
      (q.ensureNoMutation >>= fun _ => next).map (inlineWith f) := by
  unfold Inline.Query.mutate ensureNoMutation
  cases hm : q.mutation with
  | some m =>
    have hi : (q.inlineWith f).mutation = some (m.inlineWith f) := by
      rw [inlineWith, hm]
      rfl
    have hs : (m.inlineWith f).shape = m.shape := by cases m <;> rfl
    simp only [hi, hs]
    rfl
  | none =>
    have hi : (q.inlineWith f).mutation = none := by rw [inlineWith, hm]; rfl
    simp only [hi]
    exact h hm

/-- Bound records read back as the records cut down to the given columns. -/
theorem bindRecords_inline {columns : List String} {table : BindTable}
    {records : List (OrderedMap Literal)} (hc : columns.Nodup)
    (ht : table.Takes ((records.map (recordPairs columns)).flatMap pairsData))
    (hl : (table.bindAll ((records.map (recordPairs columns)).flatMap pairsData)).PrefixOf later) :
    (bindRecords columns table records).1.map (fun row => row.map (literalOf later)) =
      records.map fun record => OrderedMap.ofList (recordPairs columns record) := by
  have hr := congrArg Prod.fst (bindRecords_eq hc table records)
  have hb := literalOf_allocateRows ht hl
  rw [← hr] at hb
  apply (List.map_inj_right fun _ _ => OrderedMap.ext).mp
  rw [List.map_map, List.map_map]
  calc
    _ = ((bindRecords columns table records).1.map OrderedMap.entries).map
        (Entries.mapValues (literalOf later)) := by rw [List.map_map]; rfl
    _ = records.map (recordPairs columns) := hb
    _ = _ := by
      apply List.map_congr_left
      intro record _
      exact (OrderedMap.entries_ofList ((keys_recordPairs_sublist columns record).nodup hc)).symm

theorem insert_inline {records : List (List (String × Literal))}
    (ht : q.bindings.Takes ((insertPairs records).flatMap pairsData))
    (hl : (q.bindings.bindAll ((insertPairs records).flatMap pairsData)).PrefixOf later) :
    (q.inlineWith (literalOf later)).insert records =
      (q.insert records).map (inlineWith (literalOf later)) := by
  apply mutate_inline
  intro _
  cases records with
  | nil => rfl
  | cons first rest =>
    have hp : insertPairs (first :: rest) = ((first :: rest).map OrderedMap.ofList).map
        (recordPairs (OrderedMap.ofList first).keys) := by
      rw [List.map_map]
      rfl
    rw [hp] at ht hl
    have hb := bindRecords_inline (OrderedMap.ofList first).nodup ht hl
    simp only [List.map_cons, Inline.Query.insertion] at hb ⊢
    split
    · rfl
    · exact congrArg (fun rows => Except.ok
        { q.inlineWith (literalOf later) with mutation := some (.insert rows) }) hb.symm

theorem assignments_inline {pairs : List (String × Literal)}
    (ht : q.bindings.Takes (pairsData pairs))
    (hl : (q.bindings.bindAll (pairsData pairs)).PrefixOf later) :
    (setAll (q.bindings.allocatePairs pairs).1).map (Assignment.inlineWith (literalOf later)) =
      Inline.Query.assignments pairs := by
  have h (f : Operand → Literal) (pairs : List (String × Operand)) :
      (setAll pairs).map (Assignment.inlineWith f) =
        Inline.Query.assignments (Entries.mapValues f pairs) := by
    rw [setAll, Inline.Query.assignments, Entries.mapValues, List.map_map, List.map_map]
    rfl
  rw [h, literalOf_allocatePairs ht hl]

theorem update_inline {values : List (String × Literal)}
    (ht : q.bindings.Takes (pairsData values))
    (hl : (q.bindings.bindAll (pairsData values)).PrefixOf later) :
    (q.inlineWith (literalOf later)).mutate (.ok (.update (Inline.Query.assignments values))) =
      (q.update values).map (inlineWith (literalOf later)) := by
  apply mutate_inline
  intro _
  rw [← assignments_inline ht hl]
  rfl

theorem adjust_inline {extra : List (String × Literal)} (op : AdjustOp) (column : String)
    (amount : Json) (ht : q.bindings.Takes (pairsData extra))
    (hl : (q.bindings.bindAll (pairsData extra)).PrefixOf later) :
    (q.inlineWith (literalOf later)).mutate ((numericAmount op amount).map fun n =>
        .update (.adjust column op n :: Inline.Query.assignments extra)) =
      (q.adjust op column amount extra).map (inlineWith (literalOf later)) := by
  apply mutate_inline
  intro _
  rw [← assignments_inline ht hl]
  cases numericAmount op amount <;> rfl

theorem delete_inline (f : Operand → Literal) (q : Query) :
    (q.inlineWith f).mutate (.ok .delete) = q.delete.map (inlineWith f) :=
  mutate_inline fun _ => rfl

/-- A group that is built alike on both scratch queries is added alike. -/
theorem whereNested_inline {f : Operand → Literal} {q : Query}
    {build : Query → Except BuildError Query} {built : Except BuildError Inline.Query}
    (link : Connective) (hb : built = (build q.scratch).map (inlineWith f)) :
    built.map (fun b => (q.inlineWith f).push link (.group b.predicates)) =
      (q.whereNested link build).map (inlineWith f) := by
  subst hb
  unfold whereNested
  cases build q.scratch with
  | error e => rfl
  | ok b =>
    exact congrArg Except.ok
      (inlineWith_push f { q with bindings := b.bindings } link (.group b.predicates)).symm

theorem joinWhere_inline {f : Operand → Literal} {q : Query}
    {build : Query → Except BuildError Query} {built : Except BuildError Inline.Query}
    (collection : String) (hb : built = (build q.scratch).map (inlineWith f)) :
    built.map (fun b => (q.inlineWith f).pushJoin collection b.predicates) =
      (q.joinWhere collection build).map (inlineWith f) := by
  subst hb
  unfold joinWhere
  cases build q.scratch with
  | error e => rfl
  | ok b =>
    exact congrArg Except.ok
      (inlineWith_pushJoin f { q with bindings := b.bindings } collection b.predicates).symm

end Square

end Query

/-! ## Steps -/

open Query in
mutual
/-- The square of one step: to replace its placeholders before it or after it makes no difference,
through any table that extends the one the step leaves behind. -/
theorem Step.apply_inline (s : Step) (q : Query) {later : BindTable} (hs : s.isBuilder = true)
    (ht : q.bindings.Takes s.bound) (hl : (q.bindings.bindAll s.bound).PrefixOf later) :
    Inline.apply s (q.inlineWith (literalOf later)) =
      (s.apply q).map (inlineWith (literalOf later)) := by
  cases s <;> rw [Inline.apply, Step.apply]
  case table => cases hs
  case load => cases hs
  case filter => exact filter_inline _ _ _ hl
  case filterEq => exact congrArg Except.ok (filterEq_inline _ _ hl)
  case whereKey => exact congrArg Except.ok (filterEq_inline _ _ hl)
  case whereIn => exact congrArg Except.ok (whereIn_inline _ _ _ ht hl)
  case whereNull link negated column =>
    cases negated with
    | false => exact congrArg Except.ok (inlineWith_push _ q link (.isNull column)).symm
    | true => exact congrArg Except.ok (inlineWith_push _ q link (.notNull column)).symm
  case whereColumn => exact congrArg Except.ok (inlineWith_push _ q _ (.compareColumns _ _ _)).symm
  case whereBetween => exact congrArg Except.ok (whereBetween_inline _ _ _ ht hl)
  case whereNested link steps =>
    exact whereNested_inline link (Step.applyAll_inline steps q.scratch hs ht hl)
  case join collection first operator second =>
    exact congrArg Except.ok (inlineWith_pushJoin _ q collection
      [(.and, .compareColumns first operator second)]).symm
  case joinWhere collection steps =>
    exact joinWhere_inline collection (Step.applyAll_inline steps q.scratch hs ht hl)
  case crossJoin collection => exact congrArg Except.ok (inlineWith_pushJoin _ q collection []).symm
  case aggregate => exact withAggregate_inline _ _ _ _
  case insert => exact insert_inline ht hl
  case insertJson records =>
    unfold Step.bound at ht hl
    unfold Query.insertJson
    cases hm : recordMembers 0 records with
    | error e => rfl
    | ok objects =>
      rw [hm] at ht hl
      exact insert_inline ht hl
  case update => exact update_inline ht hl
  case adjust => exact adjust_inline _ _ _ ht hl
  case delete => exact delete_inline _ _
  -- what is left sets the projection, the groups, the ordering or the window
  all_goals rfl
theorem Step.applyAll_inline (steps : List Step) (q : Query) {later : BindTable}
    (hs : Step.areBuilders steps = true) (ht : q.bindings.Takes (Step.boundAll steps))
    (hl : (q.bindings.bindAll (Step.boundAll steps)).PrefixOf later) :
    Inline.applyAll steps (q.inlineWith (literalOf later)) =
      (Step.applyAll steps q).map (inlineWith (literalOf later)) := by
  cases steps with
  | nil => rfl
  | cons s rest =>
    rw [Step.areBuilders, Bool.and_eq_true] at hs
    rw [Step.boundAll] at ht hl
    have h := Step.apply_inline s q hs.1 ht.left (ht.prefixOf_left hl)
    rw [Inline.applyAll, h, Step.applyAll]
    cases ha : s.apply q with
    | error e => rfl
    | ok q₁ =>
      obtain ⟨_, hg, _⟩ := Step.apply_grows s hs.1 ha
      -- the rest starts from the table with the data of `s`
      have htail := ht.right
      rw [BindTable.bindAll_append] at hl
      rw [← hg.bindings] at htail hl
      exact Step.applyAll_inline rest q₁ hs.2 htail hl
end

/-! ## Runs -/

namespace Query

theorem runLenient_inline {steps : List Step} {q : Query} (hs : ∀ s ∈ steps, s.isBuilder = true)
    (hc : q.Closed) (ht : q.bindings.Takes (Step.boundAll steps)) :
    (q.runLenient steps).inline = Inline.runLenient steps q.inline := by
  induction steps generalizing q with
  | nil => rfl
  | cons s rest ih =>
    have hb := hs s List.mem_cons_self
    have hrest := fun s' hm => hs s' (List.mem_cons_of_mem s hm)
    rw [Step.boundAll] at ht
    -- the square reads `q` through the table after `s`, which gives what its own table gives
    have hq : q.inlineWith (literalOf (q.bindings.bindAll s.bound)) = q.inline :=
      hc.inlineWith_eq ht.left.prefixOf
    have h := Step.apply_inline s q hb ht.left (List.prefix_refl _)
    rw [hq] at h
    rw [runLenient_cons, Inline.runLenient, List.foldl_cons, ← Inline.runLenient, h]
    cases ha : s.apply q with
    | error e =>
      -- the data of a step that fails are not bound, which leaves more room for the rest
      exact ih hrest hc ht.skip
    | ok q₁ =>
      obtain ⟨_, hg, _⟩ := Step.apply_grows s hb ha
      have htail := ht.right
      rw [← hg.bindings] at htail ⊢
      exact ih hrest (hc.of_grows hg) htail

/-! ## Normal form -/

/-- Records that were bound anew read through the new table as they read through the old one. -/
theorem rebindRecords_inline {previous : BindTable} {records : List (OrderedMap Operand)}
    (hfit : ((Mutation.insert records).operands.filterMap Operand.name?).length < UInt32.size) :
    (rebindRecords previous .empty records).1.map
        (fun record => record.map (literalOf (rebindRecords previous .empty records).2)) =
      records.map fun record => record.map (literalOf previous) := by
  have hr := Prod.ext_iff.mp (rebindRecords_eq previous .empty records)
  have ht : BindTable.empty.Takes ((records.map fun record =>
      Entries.mapValues (literalOf previous) record.entries).flatMap pairsData) := by
    refine ⟨BindTable.dense_empty, ?_⟩
    rw [length_rebound]
    change 0 + _ < _
    omega
  -- binding the literals of the old table in the new one and reading them back changes nothing
  have hb := literalOf_allocateRows ht (List.prefix_refl _)
  rw [← BindTable.allocateRows_table, ← hr.1, ← hr.2, List.map_map] at hb
  apply (List.map_inj_right fun _ _ => OrderedMap.ext).mp
  rw [List.map_map, List.map_map]
  exact hb

theorem normalize_inline {q : Query} (hfit : q.boundNames.length < UInt32.size) :
    q.normalize.inline = q.inline.normalize := by
  rcases q.insert_or_not with ⟨records, hm⟩ | hm
  · have hi : q.inline.isInsert = true := by
      rw [inline, inlineWith, Inline.Query.isInsert, hm]
      rfl
    have hlen : ((Mutation.insert records).operands.filterMap Operand.name?).length ≤
        q.boundNames.length := by
      rw [boundNames, operands, mutationOperands, hm, List.filterMap_append, List.length_append]
      exact Nat.le_add_left _ _
    have hr := @rebindRecords_inline q.bindings records (Nat.lt_of_le_of_lt hlen hfit)
    rw [normalize_of_insert hm, Inline.Query.normalize, hi]
    simp only [inline, inlineWith, hm, Option.map_some, Mutation.inlineWith, hr, if_true,
      Bool.true_or]
    rfl
  · have hi : q.inline.isInsert = false := by
      rw [inline, inlineWith, Inline.Query.isInsert]
      cases hq : q.mutation with
      | none => rfl
      | some m =>
        cases m with
        | insert records => exact absurd hq (hm records)
        | update assignments => rfl
        | delete => rfl
    rw [normalize_of_not_insert hm, Inline.Query.normalize, hi]
    rfl

/-! ## From the first step to the statement -/

theorem takes_table {name : String} {data : List Json} (h : data.length < UInt32.size) :
    (table name).bindings.Takes data := by
  refine ⟨BindTable.dense_empty, ?_⟩
  change 0 + data.length < UInt32.size
  omega

/-- A run refers to no more names than it had data to bind. -/
theorem length_boundNames_runLenient {name : String} {steps : List Step}
    (hs : ∀ s ∈ steps, s.isBuilder = true) :
    ((table name).runLenient steps).boundNames.length ≤ ((table name).boundBy steps).length := by
  obtain ⟨dropped, hg, _⟩ := @runLenient_grows steps (table name) hs
  have hlen := hg.names.length_eq
  rw [List.length_append, List.length_append, BindTable.length_freshNames] at hlen
  change _ = 0 + _ at hlen
  omega

/-- What was bound by the first steps of a run stays at its place. -/
theorem prefixOf_runLenient {q : Query} {first rest : List Step}
    (hs : ∀ s ∈ first ++ rest, s.isBuilder = true)
    (ht : q.bindings.Takes (q.boundBy (first ++ rest))) :
    (q.runLenient first).bindings.PrefixOf (q.runLenient (first ++ rest)).bindings := by
  rw [boundBy_append] at ht
  obtain ⟨_, hfirst, _⟩ := @runLenient_grows first q
    fun s hm => hs s (List.mem_append_left rest hm)
  obtain ⟨_, hrest, _⟩ := @runLenient_grows rest (q.runLenient first)
    fun s hm => hs s (List.mem_append_right first hm)
  rw [runLenient_append, hrest.bindings]
  have htail := ht.right
  rw [← hfirst.bindings] at htail
  exact htail.prefixOf

/-- Substituting the final table for the placeholders of a run gives the query that holds each
literal where it was supplied. No placeholder dangles, and no step changes what an earlier one
stands for. Whatever the pipeline makes of the query stands for the same literals. -/
theorem runLenient_simulates (name : String) (steps : List Step)
    (hs : ∀ s ∈ steps, s.isBuilder = true) (hfit : (Step.boundAll steps).length < UInt32.size) :
    let q := (table name).runLenient steps
    let r := Inline.runLenient steps (.table name)
    (q.Closed ∧ q.inline = r) ∧
      (∀ n, ((table name).runLenient (steps.take n)).bindings.PrefixOf q.bindings) ∧
      ∀ p, Pipeline.default.run q = .ok p → p.Closed ∧ p.inline = r.normalize := by
  intro q r
  have hbound := length_boundBy_le steps (table name)
  obtain ⟨_, hg, _⟩ := @runLenient_grows steps (table name) hs
  have hclosed : q.Closed := (closed_table name).of_grows hg
  have hinline : q.inline = r := runLenient_inline hs (closed_table name) (takes_table hfit)
  refine ⟨⟨hclosed, hinline⟩, ?_, ?_⟩
  · intro n
    have happ := List.take_append_drop n steps
    have hp := @prefixOf_runLenient (table name) (steps.take n) (steps.drop n)
    rw [happ] at hp
    exact hp hs (takes_table (by omega))
  · intro p hp
    obtain ⟨_, rfl⟩ := run_default_ok hp
    have hlen := @length_boundNames_runLenient name steps hs
    refine ⟨closed_normalize hclosed, ?_⟩
    have hnames : q.boundNames.length < UInt32.size :=
      Nat.lt_of_le_of_lt (Nat.le_trans hlen hbound) hfit
    rw [normalize_inline hnames, hinline]

/-- Conditions, nested groups and a join, a comparison that fails, and an insert that renumbers. -/
def sampleSteps : List Step :=
  [.filter .and "age" .gt (.value (.number (.int 18))),
    .whereNested .or
      [.filterEq .and "name" (.value (.string "x")),
        .whereNested .and [.whereIn .and false "role" [.value .null, .raw "DATE_NOW()"]]],
    .filter .and "age" .lt (.value .null),
    .joinWhere "orders"
      [.whereBetween .and true "orders.total" (.value (.number (.int 1))) (.raw "2")],
    .insert
      [[("name", .value (.string "y")), ("at", .raw "DATE_NOW()")],
        [("name", .value (.bool true)), ("age", .value .null)]]]

theorem runLenient_simulates_sample :
    (∀ s ∈ sampleSteps, s.isBuilder = true) ∧ (Step.boundAll sampleSteps).length < UInt32.size ∧
      ∃ p, Pipeline.default.run ((table "users").runLenient sampleSteps) = .ok p ∧
        p.Closed ∧ p.inline = (Inline.runLenient sampleSteps (.table "users")).normalize :=
  ⟨by decide, by decide, _, rfl,
    (runLenient_simulates "users" sampleSteps (by decide) (by decide)).2.2 _ rfl⟩

end Query

end AqlQuery

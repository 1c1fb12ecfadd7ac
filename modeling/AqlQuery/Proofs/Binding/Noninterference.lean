import AqlQuery.Proofs.Aql.Clauses
import AqlQuery.Proofs.Binding.Mask
import AqlQuery.Proofs.Binding.Normal

/-!
# Data never reach the text

Two runs of steps that differ in their data only fail at the same steps with the same errors, and
compile to the same error or to statements with the same text, the same form and the same names. At
each name the two statements hold the data that the two runs were given at the same place.
-/

namespace AqlQuery

/-! ## Texts do not depend on the table -/

namespace Aql

theorem Program.ofQuery_mask (q : Query) : Program.ofQuery q.mask = Program.ofQuery q :=
  ofQuery_congr rfl rfl rfl rfl rfl (Frame.clauses_mutated q q.mutation q.bindings.mask)

end Aql

/-! ## Normal forms -/

theorem BindTable.mask_mask (table : BindTable) : table.mask.mask = table.mask := by
  have he : (table.entries.map fun _ => Json.masked).map (fun _ => Json.masked) =
      table.entries.map fun _ => Json.masked :=
    OrderedMap.ext (List.map_map ..)
  exact congrArg (BindTable.mk table.counter) he

theorem BindTable.allocateRows_mask (table : BindTable) (rows : List (List (String × Literal))) :
    table.mask.allocateRows (rows.map (Entries.mapValues Literal.mask)) =
      ((table.allocateRows rows).1, (table.allocateRows rows).2.mask) := by
  induction rows generalizing table with
  | nil => rfl
  | cons pairs rest ih =>
    rw [List.map_cons, allocateRows_cons, allocatePairs_mask, ih]
    rfl

namespace Query

/-- The masked rows do not depend on what is behind the placeholders. -/
theorem rebindRecords_mask (previous : BindTable) (records : List (OrderedMap Operand)) :
    (rebindRecords previous.mask .empty records).1 = (rebindRecords previous .empty records).1 ∧
      (rebindRecords previous.mask .empty records).2.mask =
        (rebindRecords previous .empty records).2.mask := by
  -- a placeholder becomes the same masked literal through any table, so read through the empty one
  have hrows (table : BindTable) :
      (records.map fun record => Entries.mapValues (literalOf table) record.entries).map
          (Entries.mapValues Literal.mask) =
        records.map fun record => Entries.mapValues (fun o => (literalOf .empty o).mask)
          record.entries := by
    rw [List.map_map]
    refine List.map_congr_left fun record _ => ?_
    simp only [Function.comp_apply, Entries.mapValues, List.map_map]
    refine List.map_congr_left fun pair _ => ?_
    cases h : pair.2 <;> simp [literalOf, Literal.mask, h]
  have heq (table : BindTable) :
      ((rebindRecords table .empty records).1.map OrderedMap.entries,
        (rebindRecords table .empty records).2.mask) = BindTable.empty.mask.allocateRows
          (records.map fun record => Entries.mapValues (fun o => (literalOf .empty o).mask)
            record.entries) := by
    have hr := rebindRecords_eq table .empty records
    rw [← hrows table, BindTable.allocateRows_mask, ← hr]
  have hboth := (heq previous.mask).trans (heq previous).symm
  refine ⟨?_, congrArg Prod.snd hboth⟩
  exact (List.map_inj_right fun _ _ => OrderedMap.ext).mp (congrArg Prod.fst hboth)

theorem normalize_mask (q : Query) : q.mask.normalize.mask = q.normalize.mask := by
  rcases q.insert_or_not with ⟨records, hm⟩ | hm
  · have hmask : q.mask.mutation = some (.insert records) := hm
    obtain ⟨hrows, htable⟩ := rebindRecords_mask q.bindings records
    rw [normalize_of_insert hm, normalize_of_insert hmask]
    simp only [mask] at hrows htable ⊢
    rw [hrows, htable]
  · have hmask : ∀ records, q.mask.mutation ≠ some (.insert records) := hm
    rw [normalize_of_not_insert hm, normalize_of_not_insert hmask]
    simp only [mask, BindTable.mask_mask]
    rfl

end Query

/-! ## Tables with corresponding data -/

namespace BindTable

/-- Tables with the same names, and under each of them data that are related. -/
structure Alike (R : Json → Json → Prop) (first second : BindTable) : Prop where
  counter : first.counter = second.counter
  names : first.names = second.names
  values : ∀ name ∈ first.names, ∃ v w, first.get? name = some v ∧ second.get? name = some w ∧ R v w

variable {R : Json → Json → Prop}

theorem alike_empty : Alike R empty empty :=
  ⟨rfl, rfl, fun _ hm => nomatch hm⟩

theorem Alike.allocate {first second : BindTable} (h : Alike R first second) {v w : Json}
    (hr : R v w) : Alike R (first.allocate (.value v)).2 (second.allocate (.value w)).2 := by
  obtain ⟨counter, entries⟩ := first
  obtain ⟨counter', entries'⟩ := second
  cases h.counter
  refine ⟨rfl, Entries.keys_put_congr h.names _ v w, ?_⟩
  intro name hm
  by_cases hn : name = nameOf (counter + 1)
  · subst hn
    exact ⟨v, w, Entries.lookup_put_self _ v _, Entries.lookup_put_self _ w _, hr⟩
  · have hold : name ∈ Entries.keys entries.entries :=
      ((Entries.mem_keys_put _ _ _ _).mp hm).resolve_right hn
    obtain ⟨a, b, ha, hb, hab⟩ := h.values name hold
    exact ⟨a, b, (Entries.lookup_put_of_ne hn v _).trans ha,
      (Entries.lookup_put_of_ne hn w _).trans hb, hab⟩

theorem Alike.bindAll {first second : BindTable} (h : Alike R first second) {xs ys : List Json}
    (hlen : xs.length = ys.length)
    (hr : ∀ (i : Nat) v w, xs[i]? = some v → ys[i]? = some w → R v w) :
    Alike R (first.bindAll xs) (second.bindAll ys) := by
  induction xs generalizing first second ys with
  | nil =>
    cases ys with
    | nil => exact h
    | cons w rest => cases hlen
  | cons v xs ih =>
    cases ys with
    | nil => cases hlen
    | cons w ys =>
      refine ih (h.allocate (hr 0 v w rfl rfl)) (Nat.succ.inj hlen) ?_
      exact fun i => hr (i + 1)

end BindTable

namespace Query

/-- What an insert binds anew was bound at the same place before. -/
theorem normalize_alike {R : Json → Json → Prop} {first second : Query}
    (hmask : first.mask = second.mask) (hc : first.Closed)
    (h : first.bindings.Alike R second.bindings) :
    first.normalize.bindings.Alike R second.normalize.bindings := by
  have hmutation := congrArg mutation hmask
  change first.mutation = second.mutation at hmutation
  rcases first.insert_or_not with ⟨records, hm⟩ | hm
  · rw [bindings_normalize_of_insert hm, bindings_normalize_of_insert (hmutation ▸ hm)]
    refine BindTable.alike_empty.bindAll (by rw [length_rebound, length_rebound]) ?_
    intro i v w hv hw
    rw [rebound_eq, List.getElem?_map, Option.map_eq_some_iff] at hv hw
    obtain ⟨name, hname, rfl⟩ := hv
    obtain ⟨name', hname', rfl⟩ := hw
    -- both data stood behind one and the same name before
    cases hname.symm.trans hname'
    have hbound : name ∈ first.boundNames := by
      rw [boundNames, operands, mutationOperands, hm, List.filterMap_append]
      exact List.mem_append_right _ (List.mem_of_getElem? hname)
    obtain ⟨a, b, ha, hb, hr⟩ := h.values name (hc name hbound)
    rw [ha, hb]
    exact hr
  · rw [normalize_of_not_insert hm,
      normalize_of_not_insert fun records hr => hm records (hmutation.trans hr)]
    exact h

/-! ## Two runs -/

/-- Two outcomes that differ in data only: the same error, or statements with the same text, form
and names, which hold under each name the data at one place of the two lists. -/
inductive Agree (xs ys : List Json) :
    Except CompileError Statement → Except CompileError Statement → Prop where
  | error (e : CompileError) : Agree xs ys (.error e) (.error e)
  | ok {first second : Statement} (text : first.text = second.text)
      (shape : first.shape = second.shape)
      (names : first.bindings.names = second.bindings.names)
      (values : ∀ name ∈ first.bindings.names, ∃ (i : Nat) (v w : Json),
        (xs[i]? = some v ∧ ys[i]? = some w) ∧
          first.bindings.get? name = some v ∧ second.bindings.get? name = some w) :
      Agree xs ys (.ok first) (.ok second)

theorem compileWith_agree {first second : Query} (hmask : first.mask = second.mask)
    (hc : first.Closed) {xs ys : List Json}
    (h : first.bindings.Alike (fun v w => ∃ i : Nat, xs[i]? = some v ∧ ys[i]? = some w)
      second.bindings) (expected : Option Shape) :
    Agree xs ys (first.compileWith .default expected) (second.compileWith .default expected) := by
  have hshape := congrArg (requireShape expected) hmask
  have hcheck := congrArg check hmask
  have hform := congrArg shape hmask
  -- none of the three looks at the table
  change first.requireShape expected = second.requireShape expected at hshape
  change first.check = second.check at hcheck
  change first.shape = second.shape at hform
  have hprogram : Aql.Program.ofQuery first.normalize = Aql.Program.ofQuery second.normalize := by
    rw [← Aql.Program.ofQuery_mask first.normalize, ← normalize_mask, hmask, normalize_mask,
      Aql.Program.ofQuery_mask]
  have htables := normalize_alike hmask hc h
  rw [compileWith_default, compileWith_default, hshape, hcheck, hprogram, hform]
  cases second.requireShape expected with
  | error e => exact .error e
  | ok u =>
    cases second.check with
    | error e => exact .error (.structural e)
    | ok u =>
      cases Aql.Program.ofQuery second.normalize with
      | error e => exact .error e
      | ok program =>
        refine .ok rfl rfl htables.names ?_
        intro name hm
        obtain ⟨v, w, hv, hw, i, hi⟩ := htables.values name hm
        exact ⟨i, v, w, hi, hv, hw⟩

theorem compileInsertGetId_agree {first second : Query} {xs ys : List Json}
    (h : Agree xs ys (first.compileAs .insert) (second.compileAs .insert)) :
    Agree xs ys first.compileInsertGetId second.compileInsertGetId := by
  unfold compileInsertGetId compileInsertGetIdWith
  change Agree xs ys (first.compileAs .insert >>= _) (second.compileAs .insert >>= _)
  generalize first.compileAs .insert = x at h
  generalize second.compileAs .insert = y at h
  cases h with
  | error e => exact .error e
  | ok text shape names values => exact .ok (congrArg (· ++ returnNew) text) shape names values

theorem runLenient_alike {name : String} {steps steps' : List Step}
    (hs : ∀ s ∈ steps, s.isBuilder = true) (hs' : ∀ s ∈ steps', s.isBuilder = true)
    (hmask : Step.maskAll steps = Step.maskAll steps') :
    ((table name).runLenient steps).bindings.Alike
      (fun v w => ∃ i : Nat, ((table name).boundBy steps)[i]? = some v ∧
        ((table name).boundBy steps')[i]? = some w)
      ((table name).runLenient steps').bindings := by
  obtain ⟨_, hg, _⟩ := @runLenient_grows steps (table name) hs
  obtain ⟨_, hg', _⟩ := @runLenient_grows steps' (table name) hs'
  rw [hg.bindings, hg'.bindings]
  refine BindTable.alike_empty.bindAll ?_ fun i v w hv hw => ⟨i, hv, hw⟩
  rw [← length_boundBy_mask, hmask, length_boundBy_mask]

/-- Two runs over the same collection whose steps differ in the data they bind only. -/
theorem compile_noninterference (name : String) (steps steps' : List Step)
    (hs : ∀ s ∈ steps, s.isBuilder = true) (hmask : Step.maskAll steps = Step.maskAll steps') :
    let first := (table name).runLenient steps
    let second := (table name).runLenient steps'
    let xs := (table name).boundBy steps
    let ys := (table name).boundBy steps'
    stepErrors steps (table name) = stepErrors steps' (table name) ∧
      Agree xs ys first.compile second.compile ∧
      (∀ shape, Agree xs ys (first.compileAs shape) (second.compileAs shape)) ∧
      Agree xs ys first.compileInsertGetId second.compileInsertGetId := by
  intro first second xs ys
  have hs' : ∀ s ∈ steps', s.isBuilder = true := by
    rw [← Step.areBuilders_iff] at hs ⊢
    rw [← Step.areBuilders_mask, ← hmask, Step.areBuilders_mask, hs]
  have hqueries : first.mask = second.mask := by
    have hrun := runLenient_mask steps (table name)
    rw [hmask, runLenient_mask] at hrun
    exact hrun.symm
  obtain ⟨_, hg, _⟩ := @runLenient_grows steps (table name) hs
  have hagree := compileWith_agree hqueries ((closed_table name).of_grows hg)
    (runLenient_alike hs hs' hmask)
  refine ⟨?_, hagree none, fun shape => hagree (some shape), ?_⟩
  · rw [← stepErrors_mask, hmask, stepErrors_mask]
  · exact compileInsertGetId_agree (hagree (some .insert))

/-- A comparison, a group, a comparison that fails, and an insert with two records. -/
def recordSteps (age role name : Json) : List Step :=
  [.filter .and "age" .gt (.value age),
    .whereNested .or [.whereIn .and false "role" [.value role, .raw "1"]],
    .filter .or "age" .lt (.value .null),
    .insertJson [.object [("name", name), ("role", role)], .object [("role", name)]]]

theorem compile_noninterference_records :
    let steps := recordSteps (.number (.int 18)) .null (.string "x")
    let steps' := recordSteps (.string "@B2") (.bool true) (.array [.null])
    ((∀ s ∈ steps, s.isBuilder = true) ∧ Step.maskAll steps = Step.maskAll steps') ∧
      stepErrors steps (table "users") = [none, none, some (.illegalOperatorValue .lt), none] ∧
      stepErrors steps (table "users") = stepErrors steps' (table "users") ∧
      Agree ((table "users").boundBy steps) ((table "users").boundBy steps')
        ((table "users").runLenient steps).compileInsertGetId
        ((table "users").runLenient steps').compileInsertGetId := by
  intro steps steps'
  have h := compile_noninterference "users" steps steps' (by decide) rfl
  exact ⟨⟨by decide, rfl⟩, by decide, h.1, h.2.2.2⟩

end Query

end AqlQuery

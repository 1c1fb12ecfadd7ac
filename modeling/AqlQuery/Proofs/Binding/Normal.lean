import AqlQuery.Proofs.Binding.Growth
import AqlQuery.Proofs.Outcome
import AqlQuery.Statement

/-!
# Normal form, part by part

What normalisation makes of each part of a query, apart for inserts and for the other statements.
The records of an insert are bound anew, which keeps the number of their placeholders and leaves
none of them without a binding.
-/

namespace AqlQuery.Query

/-- Whole documents in place of no columns at all. -/
def shownProjection : Projection → Projection
  | .columns [] => .all
  | projection => projection

theorem fillProjection_eq (q : Query) :
    q.fillProjection = { q with projection := shownProjection q.projection } := by
  obtain ⟨_, _, _, projection, _, _, _, _, _, _, _⟩ := q
  cases projection with
  | all => rfl
  | columns columns => cases columns <;> rfl

theorem dropScalarOrder_eq (q : Query) :
    q.dropScalarOrder =
      { q with ordering :=
          if q.aggregate.isSome && q.groups.isEmpty then [] else q.ordering } := by
  unfold dropScalarOrder isScalarAggregate
  split <;> rfl

/-- The data behind records are those of their placeholders, in order. -/
theorem rebound_eq (previous : BindTable) (records : List (OrderedMap Operand)) :
    (records.map fun record => Entries.mapValues (literalOf previous) record.entries).flatMap
        pairsData =
      ((Mutation.insert records).operands.filterMap Operand.name?).map
        fun name => (previous.get? name).getD .null := by
  -- one row at a time: a raw expression has neither a name nor a datum
  have hrow (pairs : List (String × Operand)) :
      pairsData (Entries.mapValues (literalOf previous) pairs) =
        ((pairs.map Prod.snd).filterMap Operand.name?).map
          fun name => (previous.get? name).getD .null := by
    induction pairs with
    | nil => rfl
    | cons pair rest ih =>
      rw [pairsData, Entries.mapValues] at ih ⊢
      rw [List.map_cons, List.flatMap_cons, ih, List.map_cons, List.filterMap_cons]
      cases pair.2 <;> rfl
  rw [List.flatMap_map, Mutation.operands, List.filterMap_flatMap, List.map_flatMap]
  simp only [hrow]

theorem length_rebound (previous : BindTable) (records : List (OrderedMap Operand)) :
    ((records.map fun record => Entries.mapValues (literalOf previous) record.entries).flatMap
        pairsData).length =
      ((Mutation.insert records).operands.filterMap Operand.name?).length := by
  rw [rebound_eq, List.length_map]

theorem normalize_of_insert {q : Query} {records : List (OrderedMap Operand)}
    (hm : q.mutation = some (.insert records)) :
    q.normalize = { q with
      predicates := []
      joins := []
      projection := shownProjection q.projection
      ordering := []
      limit := none
      offset := none
      mutation := some (.insert (rebindRecords q.bindings .empty records).1)
      bindings := (rebindRecords q.bindings .empty records).2 } := by
  rw [normalize, fillProjection_eq, dropScalarOrder_eq, isolateInsert]
  simp only [hm]

theorem normalize_of_not_insert {q : Query} (hm : ∀ records, q.mutation ≠ some (.insert records)) :
    q.normalize = { q with
      projection := shownProjection q.projection
      ordering := if q.aggregate.isSome && q.groups.isEmpty then [] else q.ordering } := by
  rw [normalize, fillProjection_eq, dropScalarOrder_eq, isolateInsert]
  split
  next records h => exact absurd h (hm records)
  next => rfl

/-- The two cases of normalisation. -/
theorem insert_or_not (q : Query) :
    (∃ records, q.mutation = some (.insert records)) ∨
      ∀ records, q.mutation ≠ some (.insert records) := by
  by_cases hm : ∃ records, q.mutation = some (.insert records)
  · exact Or.inl hm
  · exact Or.inr fun records hr => hm ⟨records, hr⟩

theorem shape_eq_insert_iff {q : Query} :
    q.shape = .insert ↔ ∃ records, q.mutation = some (.insert records) := by
  unfold shape
  cases q.mutation with
  | none => simp
  | some m => cases m <;> simp [Mutation.shape]

theorem shape_normalize (q : Query) : q.normalize.shape = q.shape := by
  rcases q.insert_or_not with ⟨records, hm⟩ | hm
  · rw [normalize_of_insert hm, shape, shape, hm]
    rfl
  · rw [normalize_of_not_insert hm]
    rfl

/-- The pipeline hands on the normal form of what it lets pass. -/
theorem run_default_ok {q p : Query} (h : Pipeline.default.run q = .ok p) :
    q.check = .ok () ∧ p = q.normalize := by
  rw [Pipeline.default, Pipeline.run, Stage.apply] at h
  cases hc : q.check with
  | error e =>
    rw [hc] at h
    cases h
  | ok u =>
    rw [hc] at h
    cases h
    exact ⟨rfl, rfl⟩

/-- What compilation comes down to: two checks, and the text of the normal form. -/
theorem compileWith_default (expected : Option Shape) (q : Query) :
    q.compileWith .default expected = (do
      q.requireShape expected
      q.check.mapError .structural
      let program ← Aql.Program.ofQuery q.normalize
      .ok ⟨program.text, q.normalize.bindings, q.shape⟩) := by
  unfold compileWith
  rw [Pipeline.default, Pipeline.run, Stage.apply]
  cases q.check with
  | error e => rfl
  | ok u =>
    rw [← shape_normalize]
    rfl

/-- A compiled statement is the text of the normal form, with its bindings. -/
theorem compileWith_ok {expected : Option Shape} {q : Query} {statement : Statement}
    (h : q.compileWith .default expected = .ok statement) :
    ∃ program, Aql.Program.ofQuery q.normalize = .ok program ∧
      statement = ⟨program.text, q.normalize.bindings, q.shape⟩ := by
  rw [compileWith_default] at h
  obtain ⟨_, _, h⟩ := Outcome.bind_ok h
  obtain ⟨_, _, h⟩ := Outcome.bind_ok h
  obtain ⟨program, hprogram, h⟩ := Outcome.bind_ok h
  cases h
  exact ⟨program, hprogram, rfl⟩

theorem check_of_compileWith {expected : Option Shape} {q : Query} {statement : Statement}
    (h : q.compileWith .default expected = .ok statement) : q.check = .ok () := by
  rw [compileWith_default] at h
  obtain ⟨_, _, h⟩ := Outcome.bind_ok h
  obtain ⟨_, hcheck, _⟩ := Outcome.bind_ok h
  exact Outcome.mapError_ok hcheck

/-! ## Bindings of the normal form -/

/-- The names of a normalised insert, in the order of its records. -/
theorem boundNames_normalize_of_insert {q : Query} {records : List (OrderedMap Operand)}
    (hm : q.mutation = some (.insert records)) :
    q.normalize.boundNames = BindTable.freshNames 0
      ((Mutation.insert records).operands.filterMap Operand.name?).length := by
  have hr := congrArg Prod.fst (rebindRecords_eq q.bindings .empty records)
  have hn := BindTable.empty.allocateRows_names
    (records.map fun record => Entries.mapValues (literalOf q.bindings) record.entries)
  rw [← hr, length_rebound, List.flatMap_map] at hn
  rw [normalize_of_insert hm]
  change ((Mutation.insert _).operands).filterMap Operand.name? = _
  rw [Mutation.operands, List.filterMap_flatMap]
  simp only [List.filterMap_map]
  exact hn

theorem bindings_normalize_of_insert {q : Query} {records : List (OrderedMap Operand)}
    (hm : q.mutation = some (.insert records)) :
    q.normalize.bindings = BindTable.empty.bindAll ((records.map fun record =>
      Entries.mapValues (literalOf q.bindings) record.entries).flatMap pairsData) := by
  have hr := congrArg Prod.snd (rebindRecords_eq q.bindings .empty records)
  rw [BindTable.allocateRows_table] at hr
  rw [normalize_of_insert hm]
  exact hr

theorem closed_normalize {q : Query} (hc : q.Closed) : q.normalize.Closed := by
  rcases q.insert_or_not with ⟨records, hm⟩ | hm
  · -- the new names are those that the fresh table was asked for, whatever `q` referred to
    intro name hn
    rw [boundNames_normalize_of_insert hm] at hn
    rw [bindings_normalize_of_insert hm, BindTable.mem_names_bindAll, length_rebound]
    exact Or.inr hn
  · rw [normalize_of_not_insert hm]
    exact hc

end AqlQuery.Query

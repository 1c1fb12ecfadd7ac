import AqlQuery.Proofs.Aql.References
import AqlQuery.Proofs.Binding.Renumbering

/-!
# Statements refer to each binding once

A statement comes with the bindings `B1`, …, `Bn`, and its text refers to each of them exactly once:
no binding is left over and no reference dangles. This holds as long as groups are built by steps
that add conditions only, and as long as no text of the query brings an at sign of its own.
-/

namespace AqlQuery

namespace Query

/-! ## The texts of the normal form -/

theorem mem_texts {q : Query} {t : String} :
    t ∈ q.texts ↔ t ∈ q.collections ∨ t ∈ q.conditionColumns ∨ t ∈ q.groups ∨
      t ∈ q.ordering.map OrderBy.column ∨ t ∈ q.projection.texts ∨
      t ∈ q.aggregate.elim [] Aggregate.columns ∨ t ∈ q.mutation.elim [] Mutation.columns ∨
      t ∈ q.mutation.elim [] Mutation.recordKeys ∨ t ∈ q.operands.filterMap Operand.raw? := by
  simp only [texts, columns, List.mem_append, or_assoc]

/-- Normalisation brings in no text. -/
theorem texts_normalize_subset (q : Query) : q.normalize.texts ⊆ q.texts := by
  intro t ht
  -- one case for each part of `texts`; those that normalisation empties have no member
  rcases q.insert_or_not with ⟨records, hm⟩ | hm
  · rw [normalize_of_insert hm, mem_texts] at ht
    rw [mem_texts]
    rcases ht with h | h | h | h | h | h | h | h | h
    · cases List.mem_singleton.mp h
      exact Or.inl List.mem_cons_self
    · cases h
    · simp [h]
    · cases h
    · rw [texts_shownProjection] at h
      simp [h]
    · simp only [h, true_or, or_true]
    · cases h
    · have hk : t ∈ (Mutation.insert records).recordKeys := by
        rw [Mutation.recordKeys, List.flatMap_def, ← keys_rebindRecords q.bindings .empty records]
        exact h
      simp [hm, hk]
    · have hr : t ∈ (Mutation.insert records).operands.filterMap Operand.raw? := by
        rw [List.mem_filterMap, ← List.mem_map, ← raws_rebindRecords q.bindings .empty records,
          List.mem_map, ← List.mem_filterMap]
        exact h
      simp only [operands, mutationOperands, hm, List.filterMap_append, List.mem_append]
      simp [hr]
  · rw [normalize_of_not_insert hm, mem_texts] at ht
    rw [mem_texts]
    rcases ht with h | h | h | h | h | h | h | h | h
    · exact Or.inl h
    · exact Or.inr (Or.inl h)
    · simp [h]
    · simp only at h
      split at h
      · cases h
      · simp only [h, true_or, or_true]
    · rw [texts_shownProjection] at h
      simp [h]
    · simp only [h, true_or, or_true]
    · simp only [h, true_or, or_true]
    · simp only [h, true_or, or_true]
    · have hr : t ∈ q.operands.filterMap Operand.raw? := h
      simp only [hr, or_true]

/-! ## Coverage -/

theorem exists_decimal_of_mem_freshNames {counter : UInt32} {n : Nat} {name : String}
    (h : name ∈ BindTable.freshNames counter n) : ∃ k, name = "B" ++ Text.decimal k := by
  induction n generalizing counter with
  | zero => cases h
  | succ n ih =>
    rcases List.mem_cons.mp h with rfl | hm
    · exact ⟨(counter + 1).toNat, rfl⟩
    · exact ih hm

theorem plainQuery_of_texts {q : Query} (ht : ∀ t ∈ q.texts, Text.Plain t)
    (hn : ∀ name ∈ q.boundNames, ∃ k, name = "B" ++ Text.decimal k) : Aql.PlainQuery q := by
  refine ⟨ht, ?_⟩
  intro o ho
  cases o with
  | bound name =>
    obtain ⟨k, rfl⟩ := hn name (List.mem_filterMap.mpr ⟨_, ho, rfl⟩)
    exact Text.references_placeholder k
  | raw text =>
    have hraw : text ∈ q.texts :=
      List.mem_append_right _ (List.mem_filterMap.mpr ⟨_, ho, rfl⟩)
    exact Text.references_of_plain (ht text hraw)

theorem boundNames_eq (q : Query) :
    q.boundNames = Aql.conditionNames q ++ q.mutationOperands.filterMap Operand.name? := by
  rw [boundNames, operands, List.filterMap_append, Aql.conditionNames]

/-- The text of a normal form refers to the names of its query, in their order. -/
theorem references_normalize {q : Query} (ht : ∀ t ∈ q.texts, Text.Plain t)
    (hn : ∀ name ∈ q.normalize.boundNames, ∃ k, name = "B" ++ Text.decimal k)
    {program : Aql.Program} (h : Aql.Program.ofQuery q.normalize = .ok program) :
    Text.references program.text = q.normalize.boundNames := by
  have hp := plainQuery_of_texts (fun t hm => ht t (q.texts_normalize_subset hm)) hn
  rw [Aql.references_ofQuery hp h, boundNames_eq]
  split
  next hshape =>
    -- an insert has lost its conditions by now
    rw [shape_normalize] at hshape
    obtain ⟨records, hm⟩ := shape_eq_insert_iff.mp hshape
    rw [normalize_of_insert hm]
    rfl
  next => rfl

theorem names_bindAll_empty {data : List Json} (h : data.length < UInt32.size) :
    (BindTable.empty.bindAll data).names = BindTable.firstNames data.length := by
  rw [BindTable.dense_empty.names_bindAll (by change 0 + data.length < _; omega),
    ← freshNames_zero h]
  rfl

/-- The bindings of a statement are `B1`, …, `Bn`, and its text refers to each of them exactly once
and to nothing else. Unless it inserts, they are as many as the data supplied. -/
theorem compile_covers (name : String) (steps : List Step)
    (hs : ∀ s ∈ steps, s.isBuilder = true ∧ s.groupsArePlain = true)
    (hfit : (Step.boundAll steps).length < UInt32.size)
    (hplain : ∀ t ∈ ((table name).runLenient steps).texts, Text.Plain t)
    {statement : Statement} (h : ((table name).runLenient steps).compile = .ok statement) :
    ∃ n, statement.bindings.names = BindTable.firstNames n ∧
      (Text.references statement.text).Perm (BindTable.firstNames n) ∧
      (statement.shape ≠ .insert → n = ((table name).boundBy steps).length) := by
  obtain ⟨program, hprogram, rfl⟩ := compileWith_ok h
  obtain ⟨dropped, hg, hd⟩ := @runLenient_grows steps (table name) fun s hm => (hs s hm).1
  cases hd fun s hm => (hs s hm).2
  -- from here on it matters only that the query grew from an empty one by `data`
  generalize (table name).runLenient steps = q at *
  have hlen := length_boundBy_le steps (table name)
  generalize (table name).boundBy steps = data at *
  have hnames : q.boundNames.Perm (BindTable.freshNames 0 data.length) := by
    have hn := hg.names
    rw [List.append_nil] at hn
    exact hn
  have hbindings : q.bindings = BindTable.empty.bindAll data := hg.bindings
  rcases q.insert_or_not with ⟨records, hm⟩ | hm
  · have hbound := boundNames_normalize_of_insert hm
    -- the records hold some of the placeholders of the query
    have hcount : ((Mutation.insert records).operands.filterMap Operand.name?).length ≤
        data.length := by
      have hall := hnames.length_eq
      rw [boundNames_eq, mutationOperands, hm, List.length_append,
        BindTable.length_freshNames] at hall
      change _ + ((Mutation.insert records).operands.filterMap Operand.name?).length = _ at hall
      omega
    have hrefs := references_normalize hplain
      (fun n hn => exists_decimal_of_mem_freshNames (hbound ▸ hn)) hprogram
    refine ⟨((Mutation.insert records).operands.filterMap Operand.name?).length, ?_, ?_,
      fun hne => absurd (shape_eq_insert_iff.mpr ⟨records, hm⟩) hne⟩
    · change q.normalize.bindings.names = _
      rw [bindings_normalize_of_insert hm, names_bindAll_empty (by rw [length_rebound]; omega),
        length_rebound]
    · change (Text.references program.text).Perm _
      rw [hrefs, hbound, freshNames_zero (by omega)]
  · have hnormal := normalize_of_not_insert hm
    have hbound : q.normalize.boundNames = q.boundNames := by rw [hnormal]; rfl
    have hrefs := references_normalize hplain
      (fun n hn => exists_decimal_of_mem_freshNames (hnames.subset (hbound ▸ hn))) hprogram
    refine ⟨data.length, ?_, ?_, fun _ => rfl⟩
    · change q.normalize.bindings.names = _
      rw [hnormal]
      change q.bindings.names = _
      rw [hbindings, names_bindAll_empty (by omega)]
    · change (Text.references program.text).Perm _
      rw [hrefs, hbound, ← freshNames_zero (by omega)]
      exact hnames

/-- A condition bound before that of a join, which is written first, and a group without members. -/
def joinedSteps : List Step :=
  [.filter .and "users.age" .gt (.value (.number (.int 18))),
    .whereNested .or [],
    .filter .and "users.name" .lt (.value .null),
    .joinWhere "orders"
      [.whereColumn .and "orders.user" .eq "users._key",
        .whereIn .or false "orders.state" [.value (.string "@B1"), .raw "1", .value .null]],
    .select ["users.name AS who"]]

theorem compile_covers_joined :
    (∀ s ∈ joinedSteps, s.isBuilder = true ∧ s.groupsArePlain = true) ∧
      (Step.boundAll joinedSteps).length < UInt32.size ∧
      (∀ t ∈ ((table "users").runLenient joinedSteps).texts, Text.Plain t) ∧
      ∃ statement, ((table "users").runLenient joinedSteps).compile = .ok statement ∧
        ∃ n, statement.bindings.names = BindTable.firstNames n ∧
          (Text.references statement.text).Perm (BindTable.firstNames n) ∧
          (statement.shape ≠ .insert → n = ((table "users").boundBy joinedSteps).length) :=
  ⟨by decide, by decide, by decide, _, rfl,
    compile_covers "users" joinedSteps (by decide) (by decide) (by decide) rfl⟩

end Query

end AqlQuery

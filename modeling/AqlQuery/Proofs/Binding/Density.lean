import AqlQuery.Proofs.Binding.Growth

/-!
# Tables of built queries

A query that is built from the start, without loading another one, has a dense table for as long as
not all names are given out. Starting over is allowed anywhere, also inside a group, where it drops
what the query has bound before.
-/

namespace AqlQuery

namespace BindTable

/-- The names are the first ones, in order, unless all of them are given out. -/
def DenseUntilFull (table : BindTable) : Prop :=
  table.size < UInt32.size → table.Dense

theorem length_names (table : BindTable) : table.names.length = table.size :=
  List.length_map ..

theorem Dense.size_eq {table : BindTable} (hd : table.Dense) :
    table.size = table.counter.toNat := by
  rw [← length_names, hd, firstNames, List.length_map, List.length_range]

theorem names_allocate (table : BindTable) (v : Json) :
    table.names <+: (table.allocate (.value v)).2.names := by
  change table.names <+: Entries.keys (Entries.put _ v table.entries.entries)
  by_cases hm : nameOf (table.counter + 1) ∈ Entries.keys table.entries.entries
  · rw [Entries.keys_put_of_mem v hm]
    exact List.prefix_rfl
  · rw [Entries.keys_put_of_not_mem v hm]
    exact List.prefix_append _ _

/-- A name that has been given out keeps its place. -/
theorem names_bindAll_prefix (table : BindTable) (data : List Json) :
    table.names <+: (table.bindAll data).names := by
  induction data generalizing table with
  | nil => exact List.prefix_rfl
  | cons v rest ih => exact (names_allocate table v).trans (ih _)

theorem DenseUntilFull.allocate {table : BindTable} (h : table.DenseUntilFull) (v : Json) :
    (table.allocate (.value v)).2.DenseUntilFull := by
  intro hsize
  have hle : table.size ≤ (table.allocate (.value v)).2.size := by
    rw [← length_names, ← length_names]
    exact (names_allocate table v).length_le
  have hd : table.Dense := h (by omega)
  have hcount := hd.size_eq
  by_cases hfit : table.counter.toNat + 1 < UInt32.size
  · exact hd.allocate v hfit
  · -- the counter wraps to zero, which gives the one name that was missing
    exfalso
    have hzero : (table.counter + 1).toNat = 0 := by
      have hlt := table.counter.toNat_lt_size
      have hsum : table.counter.toNat + 1 = UInt32.size := by omega
      rw [UInt32.toNat_add]
      change (table.counter.toNat + 1) % UInt32.size = 0
      rw [hsum, Nat.mod_self]
    have hfresh : nameOf (table.counter + 1) ∉ table.names := by
      rw [hd, nameOf, hzero]
      intro hm
      obtain ⟨i, _, he⟩ := List.mem_map.mp hm
      have hi : i + 1 = 0 := decimal_injective (String.append_right_inj "B" |>.mp he)
      omega
    have hnames : (table.allocate (.value v)).2.names =
        table.names ++ [nameOf (table.counter + 1)] := Entries.keys_put_of_not_mem v hfresh
    have hlen := congrArg List.length hnames
    rw [length_names, List.length_append, length_names, List.length_singleton] at hlen
    omega

theorem DenseUntilFull.bindAll {table : BindTable} (h : table.DenseUntilFull) (data : List Json) :
    (table.bindAll data).DenseUntilFull := by
  induction data generalizing table with
  | nil => exact h
  | cons v rest ih => exact ih (h.allocate v)

/-- Data go behind the entries of a table that has names left for all of them. -/
theorem DenseUntilFull.prefixOf_bindAll {table : BindTable} (h : table.DenseUntilFull)
    {data : List Json} (hfit : table.size + data.length < UInt32.size) :
    table.PrefixOf (table.bindAll data) := by
  have hd : table.Dense := h (by omega)
  rw [hd.size_eq] at hfit
  exact hd.prefixOf_bindAll hfit

end BindTable

/-! ## Steps that do not load -/

mutual
/-- Whether neither the step nor one of its groups loads a query. -/
def Step.isLoadFree : Step → Bool
  | .load _ => false
  | .whereNested _ steps => Step.areLoadFree steps
  | .joinWhere _ steps => Step.areLoadFree steps
  | _ => true
/-- `isLoadFree` of every step. -/
def Step.areLoadFree : List Step → Bool
  | [] => true
  | step :: rest => step.isLoadFree && Step.areLoadFree rest
end

mutual
theorem Step.apply_denseUntilFull (s : Step) {q q' : Query} (hs : s.isLoadFree = true)
    (hd : q.bindings.DenseUntilFull) (h : s.apply q = .ok q') : q'.bindings.DenseUntilFull := by
  cases s
  case table name =>
    cases h
    exact fun _ => BindTable.dense_empty
  case load query => cases hs
  case whereNested link steps =>
    obtain ⟨built, hb, rfl⟩ := Query.whereNested_ok h
    have hbuilt : built.bindings.DenseUntilFull :=
      Step.applyAll_denseUntilFull steps (q := q.scratch) hs hd hb
    exact hbuilt
  case joinWhere collection steps =>
    obtain ⟨built, hb, rfl⟩ := Query.joinWhere_ok h
    have hbuilt : built.bindings.DenseUntilFull :=
      Step.applyAll_denseUntilFull steps (q := q.scratch) hs hd hb
    exact hbuilt
  -- every other step binds its own data
  all_goals
    obtain ⟨_, hg, _⟩ := Step.apply_grows _ rfl h
    rw [hg.bindings]
    exact hd.bindAll _
theorem Step.applyAll_denseUntilFull (steps : List Step) {q q' : Query}
    (hs : Step.areLoadFree steps = true) (hd : q.bindings.DenseUntilFull)
    (h : Step.applyAll steps q = .ok q') : q'.bindings.DenseUntilFull := by
  cases steps with
  | nil =>
    cases h
    exact hd
  | cons s rest =>
    rw [Step.areLoadFree, Bool.and_eq_true] at hs
    rw [Step.applyAll] at h
    split at h
    next => cases h
    next q₁ h₁ =>
      exact Step.applyAll_denseUntilFull rest hs.2 (Step.apply_denseUntilFull s hs.1 hd h₁) h
end

namespace Query

theorem runLenient_denseUntilFull {steps : List Step} {q : Query}
    (hs : ∀ s ∈ steps, s.isLoadFree = true) (hd : q.bindings.DenseUntilFull) :
    (q.runLenient steps).bindings.DenseUntilFull :=
  runLenient_keeps (P := fun q => q.bindings.DenseUntilFull)
    (fun s hm _ _ hq h => s.apply_denseUntilFull (hs s hm) hq h) hd

/-- The query comes from steps on a collection, none of which loads another query. -/
def Built (q : Query) : Prop :=
  ∃ name steps, (∀ s ∈ steps, s.isLoadFree = true) ∧ q = (table name).runLenient steps

theorem Built.denseUntilFull {q : Query} (h : q.Built) : q.bindings.DenseUntilFull := by
  obtain ⟨name, steps, hs, rfl⟩ := h
  exact runLenient_denseUntilFull hs fun _ => BindTable.dense_empty

end Query

end AqlQuery

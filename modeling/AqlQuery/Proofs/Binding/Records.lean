import AqlQuery.Proofs.Binding.Table
import AqlQuery.Query.Builder
import AqlQuery.Query.Normal

/-!
# Records and their bindings

An insert binds the pairs of its records row by row, and normalisation binds them again in a fresh
table. Both come down to `allocateRows`. The second half of the module says that allocation can be
undone: in any later table the operands stand for the literals that were bound.
-/

namespace AqlQuery

namespace Query

/-- The pairs of a record under the given columns, in the order of the columns. -/
def recordPairs (columns : List String) (record : OrderedMap Literal) : List (String × Literal) :=
  columns.filterMap fun column => (record.get? column).map fun v => (column, v)

/-- What an insert writes: of each record the pairs under the columns of the first one. -/
def insertPairs (records : List (List (String × Literal))) : List (List (String × Literal)) :=
  match records with
  | [] => []
  | first :: _ =>
    records.map fun record =>
      recordPairs (OrderedMap.ofList first).keys (OrderedMap.ofList record)

theorem keys_recordPairs_sublist (columns : List String) (record : OrderedMap Literal) :
    (Entries.keys (recordPairs columns record)).Sublist columns := by
  induction columns with
  | nil => exact List.Sublist.slnil
  | cons column rest ih =>
    unfold recordPairs at ih ⊢
    rw [List.filterMap_cons]
    cases record.get? column with
    | none => exact ih.cons column
    | some v => exact ih.cons_cons column

end Query

/-! ## Rows -/

namespace BindTable

/-- Allocates the literals of one row after the other. -/
def allocateRows (table : BindTable) :
    List (List (String × Literal)) → List (List (String × Operand)) × BindTable
  | [] => ([], table)
  | pairs :: rest =>
    let (row, table) := table.allocatePairs pairs
    let (rows, table) := table.allocateRows rest
    (row :: rows, table)

theorem allocateRows_cons (table : BindTable) (pairs : List (String × Literal))
    (rest : List (List (String × Literal))) :
    table.allocateRows (pairs :: rest) =
      ((table.allocatePairs pairs).1 :: ((table.allocatePairs pairs).2.allocateRows rest).1,
        ((table.allocatePairs pairs).2.allocateRows rest).2) := rfl

theorem allocateRows_table (table : BindTable) (rows : List (List (String × Literal))) :
    (table.allocateRows rows).2 = table.bindAll (rows.flatMap pairsData) := by
  induction rows generalizing table with
  | nil => rfl
  | cons pairs rest ih =>
    rw [List.flatMap_cons, bindAll_append, ← allocatePairs_table]
    exact ih _

theorem allocateRows_names (table : BindTable) (rows : List (List (String × Literal))) :
    ((table.allocateRows rows).1.flatMap fun row => row.filterMap fun pair => pair.2.name?) =
      freshNames table.counter (rows.flatMap pairsData).length := by
  induction rows generalizing table with
  | nil => rfl
  | cons pairs rest ih =>
    have hp := allocatePairs_names table pairs
    have hr := ih (table.allocatePairs pairs).2
    rw [allocatePairs_table, counter_bindAll] at hr
    rw [List.flatMap_cons, List.length_append, freshNames_add, ← hp, ← hr,
      ← allocatePairs_table]
    rfl

end BindTable

namespace Query

theorem bindRecords_eq {columns : List String} (hc : columns.Nodup) (table : BindTable)
    (records : List (OrderedMap Literal)) :
    ((bindRecords columns table records).1.map OrderedMap.entries,
      (bindRecords columns table records).2) =
      table.allocateRows (records.map (recordPairs columns)) := by
  induction records generalizing table with
  | nil => rfl
  | cons record rest ih =>
    have hr := ih (table.allocatePairs (recordPairs columns record)).2
    rw [Prod.ext_iff] at hr
    -- rebuilding a record as a map keeps its pairs, since no column comes twice
    have hk : (Entries.keys (table.allocatePairs (recordPairs columns record)).1).Nodup := by
      rw [BindTable.keys_allocatePairs]
      exact (keys_recordPairs_sublist columns record).nodup hc
    rw [List.map_cons, BindTable.allocateRows_cons, ← hr.1, ← hr.2,
      ← OrderedMap.entries_ofList hk]
    rfl

theorem rebindEntries_eq (previous table : BindTable) (pairs : List (String × Operand)) :
    rebindEntries previous table pairs =
      table.allocatePairs (Entries.mapValues (literalOf previous) pairs) := by
  induction pairs generalizing table with
  | nil => rfl
  | cons pair rest ih =>
    have hr := ih (table.allocate (literalOf previous pair.2)).2
    simp only [rebindEntries, Entries.mapValues, List.map_cons, BindTable.allocatePairs] at hr ⊢
    rw [hr]

theorem rebindRecords_eq (previous table : BindTable) (records : List (OrderedMap Operand)) :
    ((rebindRecords previous table records).1.map OrderedMap.entries,
      (rebindRecords previous table records).2) =
      table.allocateRows
        (records.map fun record => Entries.mapValues (literalOf previous) record.entries) := by
  induction records generalizing table with
  | nil => rfl
  | cons record rest ih =>
    have hr := ih (rebindEntries previous table record.entries).2
    rw [Prod.ext_iff] at hr
    rw [List.map_cons, BindTable.allocateRows_cons, ← rebindEntries_eq, ← hr.1, ← hr.2]
    rfl

theorem mutation_of_ensureNoMutation {q : Query} (h : q.ensureNoMutation = .ok ()) :
    q.mutation = none := by
  unfold ensureNoMutation at h
  split at h
  · cases h
  next hm => exact hm

/-- A mutation is the last thing to be checked for, before anything is bound. -/
theorem ok_of_ensureNoMutation {α : Type} {q : Query} {next : Except BuildError α} {a : α}
    (h : (q.ensureNoMutation >>= fun _ => next) = .ok a) : q.mutation = none ∧ next = .ok a := by
  cases hm : q.ensureNoMutation with
  | error e =>
    rw [hm] at h
    cases h
  | ok u =>
    rw [hm] at h
    exact ⟨mutation_of_ensureNoMutation hm, h⟩

/-- An insert that succeeds is the first mutation of its query and binds its rows. -/
theorem insert_ok {q q' : Query} {records : List (List (String × Literal))}
    (h : q.insert records = .ok q') :
    q.mutation = none ∧ ∃ rows,
      q' = { q with
        mutation := some (.insert rows)
        bindings := (q.bindings.allocateRows (insertPairs records)).2 } ∧
      rows.map OrderedMap.entries = (q.bindings.allocateRows (insertPairs records)).1 := by
  obtain ⟨hm, h⟩ := ok_of_ensureNoMutation h
  refine ⟨hm, ?_⟩
  cases records with
  | nil => cases h
  | cons first rest =>
    have hr := bindRecords_eq (OrderedMap.ofList first).nodup q.bindings
      ((first :: rest).map OrderedMap.ofList)
    rw [Prod.ext_iff, List.map_map] at hr
    have ht : (bindRecords (OrderedMap.ofList first).keys q.bindings
        ((first :: rest).map OrderedMap.ofList)).2 =
        (q.bindings.allocateRows (insertPairs (first :: rest))).2 := hr.2
    simp only [List.map_cons] at h
    split at h
    · cases h
    · cases h
      exact ⟨_, by rw [← ht]; rfl, hr.1⟩

/-! ## From operands back to literals -/

theorem literalOf_allocate {table later : BindTable} {literal : Literal}
    (hl : (table.bindAll literal.data).PrefixOf later) :
    literalOf later (table.allocate literal).1 = literal := by
  cases literal with
  | raw text => rfl
  | value v =>
    have hv : (table.bindAll [v]).get? (BindTable.nameOf (table.counter + 1)) = some v :=
      Entries.lookup_put_self _ _ _
    change Literal.value ((later.get? (BindTable.nameOf (table.counter + 1))).getD .null) = _
    rw [hl.get? hv]
    rfl

theorem literalOf_allocateAll {table later : BindTable} {literals : List Literal}
    (ht : table.Takes (literals.flatMap Literal.data))
    (hl : (table.bindAll (literals.flatMap Literal.data)).PrefixOf later) :
    (table.allocateAll literals).1.map (literalOf later) = literals := by
  induction literals generalizing table with
  | nil => rfl
  | cons literal rest ih =>
    rw [List.flatMap_cons] at ht hl
    have hhead := literalOf_allocate (ht.prefixOf_left hl)
    have htail : ((table.allocate literal).2.allocateAll rest).1.map (literalOf later) = rest := by
      rw [BindTable.allocate_table]
      apply ih ht.right
      rw [← BindTable.bindAll_append]
      exact hl
    rw [BindTable.allocateAll, List.map_cons, hhead, htail]

theorem literalOf_allocatePairs {table later : BindTable} {pairs : List (String × Literal)}
    (ht : table.Takes (pairsData pairs))
    (hl : (table.bindAll (pairsData pairs)).PrefixOf later) :
    Entries.mapValues (literalOf later) (table.allocatePairs pairs).1 = pairs := by
  induction pairs generalizing table with
  | nil => rfl
  | cons pair rest ih =>
    rw [pairsData, List.flatMap_cons] at ht hl
    have hhead := literalOf_allocate (ht.prefixOf_left hl)
    have htail : Entries.mapValues (literalOf later)
        ((table.allocate pair.2).2.allocatePairs rest).1 = rest := by
      rw [BindTable.allocate_table]
      apply ih ht.right
      rw [pairsData, ← BindTable.bindAll_append]
      exact hl
    rw [Entries.mapValues] at htail ⊢
    rw [BindTable.allocatePairs, List.map_cons, hhead, htail]

theorem literalOf_allocateRows {table later : BindTable} {rows : List (List (String × Literal))}
    (ht : table.Takes (rows.flatMap pairsData))
    (hl : (table.bindAll (rows.flatMap pairsData)).PrefixOf later) :
    (table.allocateRows rows).1.map (Entries.mapValues (literalOf later)) = rows := by
  induction rows generalizing table with
  | nil => rfl
  | cons pairs rest ih =>
    rw [List.flatMap_cons] at ht hl
    have hhead := literalOf_allocatePairs ht.left (ht.prefixOf_left hl)
    have htail : ((table.allocatePairs pairs).2.allocateRows rest).1.map
        (Entries.mapValues (literalOf later)) = rest := by
      rw [BindTable.allocatePairs_table]
      apply ih ht.right
      rw [← BindTable.bindAll_append]
      exact hl
    rw [BindTable.allocateRows_cons, List.map_cons, hhead, htail]

end Query

end AqlQuery

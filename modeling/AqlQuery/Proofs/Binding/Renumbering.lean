import AqlQuery.Proofs.Binding.Noninterference
import AqlQuery.Proofs.Query.Texts

/-!
# Records numbered anew

Normalisation binds the data of an insert again, in a fresh table and in the order of the records.
The keys and the raw expressions stay where they are, and the placeholders take the names of the
fresh table one after the other, whatever they were called before: one that was missing stands for
null, and one that was used twice becomes two. To number again what has just been numbered changes
nothing, also where there are more placeholders than names.
-/

namespace AqlQuery

/-! ## Data that their names decide -/

namespace BindTable

/-- Where the name decides the datum it does not matter how often the name is given out. -/
theorem get?_bindAll_map (table : BindTable) (f : String → Json) (n : Nat) (name : String) :
    (table.bindAll ((freshNames table.counter n).map f)).get? name =
      if name ∈ freshNames table.counter n then some (f name) else table.get? name := by
  induction n generalizing table with
  | zero => simp [freshNames, bindAll]
  | succ n ih =>
    have hrest := ih (table.allocate (.value (f (nameOf (table.counter + 1))))).2
    have hcounter : (table.allocate (.value (f (nameOf (table.counter + 1))))).2.counter =
        table.counter + 1 := rfl
    rw [hcounter] at hrest
    rw [freshNames, List.map_cons, bindAll, hrest]
    by_cases hlater : name ∈ freshNames (table.counter + 1) n
    · rw [if_pos hlater, if_pos (List.mem_cons_of_mem _ hlater)]
    · rw [if_neg hlater]
      by_cases hname : name = nameOf (table.counter + 1)
      · rw [if_pos (hname ▸ List.mem_cons_self), hname]
        exact get?_allocate_self table _
      · rw [if_neg (by simp [hname, hlater])]
        exact Entries.lookup_put_of_ne hname _ _

/-- Fresh tables that took as many data have the same names, so only the data tell them apart. -/
theorem bindAll_empty_ext {xs ys : List Json} (hlength : xs.length = ys.length)
    (hget : ∀ name ∈ (empty.bindAll ys).names,
      (empty.bindAll xs).get? name = (empty.bindAll ys).get? name) :
    empty.bindAll xs = empty.bindAll ys := by
  have hcounter : (empty.bindAll xs).counter = (empty.bindAll ys).counter := by
    rw [counter_bindAll, counter_bindAll, hlength]
  have hnames : (empty.bindAll xs).names = (empty.bindAll ys).names :=
    ((@alike_empty fun _ _ => True).bindAll hlength fun _ _ _ _ _ => trivial).names
  have hentries : (empty.bindAll xs).entries = (empty.bindAll ys).entries := by
    apply OrderedMap.ext
    apply Entries.eq_of_lookup (empty.bindAll xs).entries.nodup hnames
    intro name hm
    exact hget name (hnames ▸ hm)
  show BindTable.mk (empty.bindAll xs).counter (empty.bindAll xs).entries = _
  rw [hcounter, hentries]

/-- Binding what a table holds, in the order in which its names were given out, gives the table
again. -/
theorem bindAll_reread (data : List Json) :
    empty.bindAll ((freshNames 0 data.length).map fun name =>
      ((empty.bindAll data).get? name).getD .null) = empty.bindAll data := by
  apply bindAll_empty_ext
  · rw [List.length_map, length_freshNames]
  · intro name hm
    have hfresh : name ∈ freshNames empty.counter data.length :=
      ((mem_names_bindAll empty data name).mp hm).resolve_left fun h => nomatch h
    obtain ⟨v, hv⟩ := Option.isSome_iff_exists.mp ((get?_isSome_iff _ name).mpr hm)
    have hget := get?_bindAll_map empty (fun name => ((empty.bindAll data).get? name).getD .null)
      data.length name
    rw [if_pos hfresh, hv] at hget
    rw [hv]
    exact hget

end BindTable

/-! ## One pass -/

namespace Query

/-- The names that records refer to, one for each place. -/
def recordNames (records : List (OrderedMap Operand)) : List String :=
  (Mutation.insert records).operands.filterMap Operand.name?

/-- What a table holds under the names of records, and null where it holds nothing. -/
def recordData (table : BindTable) (records : List (OrderedMap Operand)) : List Json :=
  (recordNames records).map fun name => (table.get? name).getD .null

/-- The rows are the records with new names, given out in their order, and the table holds under
these what the old one held. -/
structure Renumbered (old : BindTable) (records rows : List (OrderedMap Operand))
    (table : BindTable) : Prop where
  keys : rows.map OrderedMap.keys = records.map OrderedMap.keys
  raws : (Mutation.insert rows).operands.map Operand.raw? =
    (Mutation.insert records).operands.map Operand.raw?
  names : recordNames rows = BindTable.freshNames 0 (recordNames records).length
  bindings : table = BindTable.empty.bindAll (recordData old records)

theorem keys_rebindRecords (previous table : BindTable) (records : List (OrderedMap Operand)) :
    (rebindRecords previous table records).1.map OrderedMap.keys =
      records.map OrderedMap.keys := by
  induction records generalizing table with
  | nil => rfl
  | cons record rest ih =>
    rw [rebindRecords, List.map_cons, List.map_cons]
    congr 1
    · exact keys_rebindEntries previous table record.entries
    · exact ih _

theorem raws_rebindEntries (previous table : BindTable) (pairs : List (String × Operand)) :
    ((rebindEntries previous table pairs).1.map fun pair => pair.2.raw?) =
      pairs.map fun pair => pair.2.raw? := by
  induction pairs generalizing table with
  | nil => rfl
  | cons pair rest ih =>
    obtain ⟨key, operand⟩ := pair
    have hrest := ih (table.allocate (literalOf previous operand)).2
    cases operand with
    | bound name => exact congrArg (none :: ·) hrest
    | raw text => exact congrArg (some text :: ·) hrest

theorem raws_rebindRecords (previous table : BindTable) (records : List (OrderedMap Operand)) :
    (Mutation.insert (rebindRecords previous table records).1).operands.map Operand.raw? =
      (Mutation.insert records).operands.map Operand.raw? := by
  induction records generalizing table with
  | nil => rfl
  | cons record rest ih =>
    have hhead := raws_rebindEntries previous table record.entries
    have hrest := ih (rebindRecord previous table record).2
    simp only [Mutation.operands, List.map_flatMap, List.map_map] at hrest ⊢
    rw [rebindRecords, List.flatMap_cons, List.flatMap_cons]
    exact congr (congrArg _ hhead) hrest

theorem names_rebindRecords (previous : BindTable) (records : List (OrderedMap Operand)) :
    recordNames (rebindRecords previous .empty records).1 =
      BindTable.freshNames 0 (recordNames records).length := by
  have hr := congrArg Prod.fst (rebindRecords_eq previous .empty records)
  have hn := BindTable.empty.allocateRows_names
    (records.map fun record => Entries.mapValues (literalOf previous) record.entries)
  rw [← hr, length_rebound, List.flatMap_map] at hn
  rw [recordNames, Mutation.operands, List.filterMap_flatMap]
  simp only [List.filterMap_map]
  exact hn

theorem table_rebindRecords (previous : BindTable) (records : List (OrderedMap Operand)) :
    (rebindRecords previous .empty records).2 =
      BindTable.empty.bindAll (recordData previous records) := by
  have hr := congrArg Prod.snd (rebindRecords_eq previous .empty records)
  rw [BindTable.allocateRows_table, rebound_eq] at hr
  exact hr

theorem renumbered_rebindRecords (previous : BindTable) (records : List (OrderedMap Operand)) :
    Renumbered previous records (rebindRecords previous .empty records).1
      (rebindRecords previous .empty records).2 where
  keys := keys_rebindRecords previous .empty records
  raws := raws_rebindRecords previous .empty records
  names := names_rebindRecords previous records
  bindings := table_rebindRecords previous records

theorem freshNames_zero {n : Nat} (h : n < UInt32.size) :
    BindTable.freshNames 0 n = BindTable.firstNames n := by
  have hn := @BindTable.firstNames_append_freshNames 0 n (by change 0 + n < _; omega)
  change BindTable.freshNames 0 n = BindTable.firstNames (0 + n) at hn
  rw [hn, Nat.zero_add]

/-- While there are names left, the placeholders become `B1`, …, `Bn`, and the table holds these
and nothing else. -/
theorem Renumbered.first_names {old table : BindTable} {records rows : List (OrderedMap Operand)}
    (h : Renumbered old records rows table)
    (hfit : (recordNames records).length < UInt32.size) :
    recordNames rows = BindTable.firstNames (recordNames records).length ∧
      table.entries.entries =
        (BindTable.firstNames (recordNames records).length).zip (recordData old records) ∧
      table.counter.toNat = (recordNames records).length := by
  have hlength : (recordData old records).length = (recordNames records).length :=
    List.length_map ..
  have htakes : BindTable.empty.Takes (recordData old records) := by
    refine ⟨BindTable.dense_empty, ?_⟩
    show 0 + (recordData old records).length < UInt32.size
    omega
  have hfresh := freshNames_zero hfit
  refine ⟨h.names.trans hfresh, ?_, ?_⟩
  · rw [h.bindings, htakes.dense.sound.entries_bindAll htakes.fit, hlength, ← hfresh]
    rfl
  · rw [h.bindings, BindTable.toNat_counter_bindAll htakes.fit, hlength]
    exact Nat.zero_add _

/-! ## A second pass -/

theorem operands_ext {xs ys : List Operand} (hraws : xs.map Operand.raw? = ys.map Operand.raw?)
    (hnames : xs.filterMap Operand.name? = ys.filterMap Operand.name?) : xs = ys := by
  induction xs generalizing ys with
  | nil =>
    cases ys with
    | nil => rfl
    | cons y ys => cases hraws
  | cons x xs ih =>
    cases ys with
    | nil => cases hraws
    | cons y ys =>
      obtain ⟨hhead, htail⟩ := List.cons.inj hraws
      -- a placeholder meets a placeholder, and a raw expression the same one
      cases x <;> cases y <;> simp [Operand.raw?, Operand.name?] at hhead hnames
      · rw [hnames.1, ih htail hnames.2]
      · rw [hhead, ih htail hnames]

/-- Keys and operands make up a record. -/
theorem records_ext {rows rows' : List (OrderedMap Operand)}
    (hkeys : rows.map OrderedMap.keys = rows'.map OrderedMap.keys)
    (hoperands : (Mutation.insert rows).operands = (Mutation.insert rows').operands) :
    rows = rows' := by
  induction rows generalizing rows' with
  | nil =>
    cases rows' with
    | nil => rfl
    | cons row' rest' => cases hkeys
  | cons row rest ih =>
    cases rows' with
    | nil => cases hkeys
    | cons row' rest' =>
      obtain ⟨hkey, hkeys⟩ := List.cons.inj hkeys
      have hlength : (row.entries.map Prod.snd).length = (row'.entries.map Prod.snd).length := by
        have h := congrArg List.length hkey
        simpa [OrderedMap.keys, Entries.keys] using h
      obtain ⟨hsnd, hrest⟩ := List.append_inj hoperands hlength
      have hrow : row = row' := by
        apply OrderedMap.ext
        exact (List.zip_of_prod hkey hsnd).trans (List.zip_of_prod rfl rfl).symm
      rw [hrow, ih hkeys hrest]

/-- What rows are renumbered to is determined by the old table. -/
theorem Renumbered.unique {old table table' : BindTable}
    {records rows rows' : List (OrderedMap Operand)} (h : Renumbered old records rows table)
    (h' : Renumbered old records rows' table') : rows = rows' ∧ table = table' := by
  refine ⟨records_ext (h.keys.trans h'.keys.symm) ?_, h.bindings.trans h'.bindings.symm⟩
  exact operands_ext (h.raws.trans h'.raws.symm) (h.names.trans h'.names.symm)

/-- Rows that are numbered from one already are left as they are. -/
theorem Renumbered.again {old table : BindTable} {records rows : List (OrderedMap Operand)}
    (h : Renumbered old records rows table) : Renumbered table rows rows table where
  keys := rfl
  raws := rfl
  names := by rw [h.names, BindTable.length_freshNames]
  bindings := by
    have hlength : (recordData old records).length = (recordNames records).length :=
      List.length_map ..
    have hreread := BindTable.bindAll_reread (recordData old records)
    rw [hlength, ← h.names, ← h.bindings] at hreread
    exact hreread.symm

theorem rebindRecords_rebindRecords (previous : BindTable) (records : List (OrderedMap Operand)) :
    rebindRecords (rebindRecords previous .empty records).2 .empty
      (rebindRecords previous .empty records).1 = rebindRecords previous .empty records := by
  have hagain := (renumbered_rebindRecords previous records).again
  obtain ⟨hrows, htable⟩ := (renumbered_rebindRecords _ _).unique hagain
  exact Prod.ext hrows htable

end Query

end AqlQuery

import AqlQuery.Proofs.Binding.Isolation

/-!
# Rows of data and their placeholders

Rows that hold data and no raw expressions are bound in their order, so that the keys of a row and
the counter before it give its placeholders. The data are found again under these as long as there
are no more of them than names, wherever the count starts and whatever the table held before.
-/

namespace AqlQuery

/-! ## Data under fresh names -/

namespace BindTable

/-- No name comes back before the counter has gone all the way round. -/
theorem nameOf_not_mem_freshNames {counter : UInt32} {n : Nat} (h : n < UInt32.size) :
    nameOf counter ∉ freshNames counter n := by
  rw [freshNames_eq_map]
  intro hm
  obtain ⟨i, hi, he⟩ := List.mem_map.mp hm
  have hstep : counter + UInt32.ofNat (i + 1) = counter + 0 := by
    rw [UInt32.add_zero]
    exact nameOf_injective he
  have hzero := congrArg UInt32.toNat (UInt32.add_right_inj counter |>.mp hstep)
  have hlt := List.mem_range.mp hi
  rw [UInt32.toNat_ofNat_of_lt' (by omega)] at hzero
  cases hzero

theorem get?_bindAll_of_not_mem {table : BindTable} {data : List Json} {name : String}
    (h : name ∉ freshNames table.counter data.length) :
    (table.bindAll data).get? name = table.get? name := by
  induction data generalizing table with
  | nil => rfl
  | cons v rest ih =>
    rw [List.length_cons, freshNames, List.mem_cons, not_or] at h
    rw [bindAll, ih h.2]
    exact Entries.lookup_put_of_ne h.1 v _

/-- The table has the data under the names that come after the counter, in their order. -/
def Holds (table : BindTable) (counter : UInt32) (data : List Json) : Prop :=
  (freshNames counter data.length).map table.get? = data.map some

theorem holds_bindAll (table : BindTable) {data : List Json} (h : data.length ≤ UInt32.size) :
    (table.bindAll data).Holds table.counter data := by
  unfold Holds
  induction data generalizing table with
  | nil => rfl
  | cons v rest ih =>
    have hrest := ih (table.allocate (.value v)).2 (Nat.le_of_succ_le h)
    -- the name of the first datum is not given out again for those after it
    have hnew : nameOf (table.counter + 1) ∉
        freshNames (table.allocate (.value v)).2.counter rest.length :=
      nameOf_not_mem_freshNames h
    have hfirst : (table.bindAll (v :: rest)).get? (nameOf (table.counter + 1)) = some v := by
      rw [bindAll, get?_bindAll_of_not_mem hnew]
      exact get?_allocate_self table v
    rw [List.length_cons, freshNames, List.map_cons, List.map_cons, hfirst]
    exact congrArg _ hrest

theorem Holds.append {table : BindTable} {counter : UInt32} {xs ys : List Json}
    (h : table.Holds counter (xs ++ ys)) :
    table.Holds counter xs ∧ table.Holds (counter + UInt32.ofNat xs.length) ys := by
  unfold Holds at h
  rw [List.length_append, freshNames_add, List.map_append, List.map_append] at h
  exact List.append_inj h (by simp [length_freshNames])

/-! ## Placeholders of rows -/

/-- The data of members, in their order. -/
def memberData (members : List (String × Json)) : List Json := members.map Prod.snd

theorem length_memberData (members : List (String × Json)) :
    (memberData members).length = (Entries.keys members).length := by
  simp [memberData, Entries.keys]

/-- The keys of a row with the names that its data get. -/
def placeholders (counter : UInt32) (keys : List String) : List (String × String) :=
  keys.zip (freshNames counter keys.length)

/-- The keys of one row after the other with the names that their data get. -/
def placeholderRows (counter : UInt32) : List (List String) → List (List (String × String))
  | [] => []
  | keys :: rest =>
    placeholders counter keys :: placeholderRows (counter + UInt32.ofNat keys.length) rest

@[simp] theorem keys_placeholders (counter : UInt32) (keys : List String) :
    Entries.keys (placeholders counter keys) = keys := by
  apply List.map_fst_zip
  exact Nat.le_of_eq (length_freshNames counter keys.length).symm

theorem keys_placeholderRows (counter : UInt32) (rows : List (List String)) :
    (placeholderRows counter rows).map Entries.keys = rows := by
  induction rows generalizing counter with
  | nil => rfl
  | cons keys rest ih => rw [placeholderRows, List.map_cons, keys_placeholders, ih]

theorem exists_nameOf_of_mem_placeholderRows {counter : UInt32} {rows : List (List String)}
    {row : List (String × String)} (hrow : row ∈ placeholderRows counter rows)
    {member : String × String} (hm : member ∈ row) : ∃ n, member.2 = nameOf n := by
  induction rows generalizing counter with
  | nil => cases hrow
  | cons keys rest ih =>
    rcases List.mem_cons.mp hrow with rfl | hrest
    · have hname := (List.of_mem_zip hm).2
      rw [freshNames_eq_map] at hname
      obtain ⟨i, _, he⟩ := List.mem_map.mp hname
      exact ⟨_, he.symm⟩
    · exact ih hrest

theorem pairsData_values (members : List (String × Json)) :
    pairsData (Entries.mapValues .value members) = memberData members := by
  rw [pairsData, Entries.mapValues, List.flatMap_map, memberData, List.map_eq_flatMap]
  rfl

theorem allocatePairs_values (table : BindTable) (members : List (String × Json)) :
    (table.allocatePairs (Entries.mapValues .value members)).1 =
      Entries.mapValues .bound (placeholders table.counter (Entries.keys members)) := by
  induction members generalizing table with
  | nil => rfl
  | cons member rest ih =>
    have hrest := ih (table.allocate (.value member.2)).2
    exact congrArg _ hrest

theorem allocateRows_values (table : BindTable) (rows : List (List (String × Json))) :
    (table.allocateRows (rows.map (Entries.mapValues .value))).1 =
      (placeholderRows table.counter (rows.map Entries.keys)).map (Entries.mapValues .bound) := by
  induction rows generalizing table with
  | nil => rfl
  | cons members rest ih =>
    have hrest := ih (table.allocatePairs (Entries.mapValues .value members)).2
    -- the rows after this one count on from where its data end
    rw [allocatePairs_table, counter_bindAll, pairsData_values, length_memberData] at hrest
    rw [List.map_cons, allocateRows_cons, allocatePairs_values, allocatePairs_table,
      pairsData_values, hrest, List.map_cons, placeholderRows, List.map_cons]

/-- What the placeholders of rows stand for in a table that holds the data. -/
theorem Holds.placeholderRows {table : BindTable} {counter : UInt32}
    {rows : List (List (String × Json))} (h : table.Holds counter (rows.flatMap memberData)) :
    (placeholderRows counter (rows.map Entries.keys)).map (Entries.mapValues table.get?) =
      rows.map (Entries.mapValues some) := by
  induction rows generalizing counter with
  | nil => rfl
  | cons members rest ih =>
    rw [List.flatMap_cons] at h
    obtain ⟨hfirst, hrest⟩ := h.append
    rw [length_memberData] at hrest
    have hrow : Entries.mapValues table.get? (placeholders counter (Entries.keys members)) =
        Entries.mapValues some members := by
      have hdata : (freshNames counter (memberData members).length).map table.get? = _ := hfirst
      rw [length_memberData] at hdata
      rw [placeholders, Entries.mapValues_zip, hdata, ← Entries.mapValues_zip]
      exact congrArg _ (List.zip_of_prod rfl rfl).symm
    rw [List.map_cons, BindTable.placeholderRows, List.map_cons, List.map_cons, hrow, ih hrest]

end BindTable

/-! ## Rows bound again -/

namespace Query

/-- What a table has under the names of rows, and null where it has nothing. -/
def rowData (table : BindTable) (rows : List (List (String × String))) :
    List (List (String × Json)) :=
  rows.map (Entries.mapValues fun name => (table.get? name).getD .null)

theorem rowData_of_holds {table : BindTable} {counter : UInt32}
    {rows : List (List (String × Json))}
    (h : table.Holds counter (rows.flatMap BindTable.memberData)) :
    rowData table (BindTable.placeholderRows counter (rows.map Entries.keys)) = rows := by
  -- where every datum is found, none is replaced by null
  have hrows := congrArg (List.map (Entries.mapValues fun v : Option Json => v.getD .null))
    h.placeholderRows
  simp only [List.map_map, Function.comp_def, Entries.mapValues_mapValues] at hrows
  rw [rowData, hrows]
  simp [Entries.mapValues]

/-- Rows of placeholders that are bound again have the same keys, and the placeholders of a fresh
table. -/
theorem rebindRecords_bound (previous : BindTable) {records : List (OrderedMap Operand)}
    {rows : List (List (String × String))}
    (h : records.map OrderedMap.entries = rows.map (Entries.mapValues .bound)) :
    (rebindRecords previous .empty records).1.map OrderedMap.entries =
        (BindTable.placeholderRows 0 (rows.map Entries.keys)).map (Entries.mapValues .bound) ∧
      (rebindRecords previous .empty records).2 =
        BindTable.empty.bindAll ((rowData previous rows).flatMap BindTable.memberData) := by
  -- no operand is raw, so what is bound again is a list of data
  have hliterals : (records.map fun record =>
      Entries.mapValues (literalOf previous) record.entries) =
        (rowData previous rows).map (Entries.mapValues .value) := by
    have hmap := congrArg (List.map (Entries.mapValues (literalOf previous))) h
    simp only [List.map_map, Function.comp_def, Entries.mapValues_mapValues] at hmap
    rw [rowData, List.map_map, hmap]
    simp only [Function.comp_def, Entries.mapValues_mapValues]
    rfl
  have hkeys : (rowData previous rows).map Entries.keys = rows.map Entries.keys := by
    simp [rowData, Function.comp_def]
  obtain ⟨hrows, htable⟩ := Prod.ext_iff.mp (rebindRecords_eq previous .empty records)
  constructor
  · have hvalues := BindTable.allocateRows_values .empty (rowData previous rows)
    rw [← hliterals, hkeys] at hvalues
    exact hrows.trans hvalues
  · have hvalues := BindTable.allocateRows_table .empty
      ((rowData previous rows).map (Entries.mapValues .value))
    simp only [List.flatMap_map, BindTable.pairsData_values] at hvalues
    rw [← hliterals] at hvalues
    exact htable.trans hvalues

end Query

end AqlQuery

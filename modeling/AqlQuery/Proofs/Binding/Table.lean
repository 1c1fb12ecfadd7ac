import AqlQuery.BindTable
import AqlQuery.Proofs.Entries

/-!
# What allocation does to a bind table

Every function that binds literals comes down to `bindAll`, which binds a list of data one after the
other. The names it hands out depend on the counter and on the number of data only. A table is
sound if no entry has a name that is still to be given out; binding data in a sound table appends
entries and changes none, as long as the counter does not wrap. A table is dense if its names are
`B1`, …, `Bn` in this order and its counter is `n`, and then it is sound.
-/

namespace AqlQuery

/-- The data of a literal: its value, and nothing for a raw expression. -/
def Literal.data : Literal → List Json
  | .value v => [v]
  | .raw _ => []

/-- The data of pairs, in their order. -/
def pairsData (pairs : List (String × Literal)) : List Json :=
  pairs.flatMap fun pair => pair.2.data

namespace BindTable

/-- Binds one datum after the other. -/
def bindAll (table : BindTable) : List Json → BindTable
  | [] => table
  | v :: rest => bindAll (table.allocate (.value v)).2 rest

/-- The names that the next `n` data get, after a table has counted up to `counter`. -/
def freshNames (counter : UInt32) : Nat → List String
  | 0 => []
  | n + 1 => nameOf (counter + 1) :: freshNames (counter + 1) n

/-- The names `B1`, …, `Bn`. -/
def firstNames (n : Nat) : List String :=
  (List.range n).map fun i => "B" ++ Text.decimal (i + 1)

/-- No entry is named by a number that the counter has not reached. Any other names may occur. -/
def Sound (table : BindTable) : Prop :=
  ∀ n, table.counter.toNat < n → "B" ++ Text.decimal n ∉ table.names

/-- The names of the table are `B1`, …, `Bn`, where `n` is its counter. -/
def Dense (table : BindTable) : Prop :=
  table.names = firstNames table.counter.toNat

/-- Every entry of the first table stands at the same place in the second. -/
def PrefixOf (table later : BindTable) : Prop :=
  table.entries.entries <+: later.entries.entries

/-! ## Binding lists of data -/

theorem bindAll_append (table : BindTable) (xs ys : List Json) :
    table.bindAll (xs ++ ys) = (table.bindAll xs).bindAll ys := by
  induction xs generalizing table with
  | nil => rfl
  | cons v rest ih => exact ih _

theorem counter_add_succ (counter : UInt32) (n : Nat) :
    counter + 1 + UInt32.ofNat n = counter + UInt32.ofNat (n + 1) := by
  rw [UInt32.ofNat_add, UInt32.add_assoc, UInt32.add_comm 1]
  rfl

theorem freshNames_add (counter : UInt32) (m n : Nat) :
    freshNames counter (m + n) =
      freshNames counter m ++ freshNames (counter + UInt32.ofNat m) n := by
  induction m generalizing counter with
  | zero => simp [freshNames]
  | succ m ih =>
    rw [show m + 1 + n = (m + n) + 1 by omega, freshNames, freshNames, ih, counter_add_succ,
      List.cons_append]

theorem length_freshNames (counter : UInt32) (n : Nat) : (freshNames counter n).length = n := by
  induction n generalizing counter with
  | zero => rfl
  | succ n ih => rw [freshNames, List.length_cons, ih]

theorem counter_bindAll (table : BindTable) (data : List Json) :
    (table.bindAll data).counter = table.counter + UInt32.ofNat data.length := by
  induction data generalizing table with
  | nil => simp [bindAll]
  | cons v rest ih =>
    rw [bindAll, ih, List.length_cons, ← counter_add_succ]
    rfl

theorem allocate_table (table : BindTable) (literal : Literal) :
    (table.allocate literal).2 = table.bindAll literal.data := by
  cases literal <;> rfl

theorem allocate_name (table : BindTable) (literal : Literal) :
    (table.allocate literal).1.name?.toList =
      freshNames table.counter literal.data.length := by
  cases literal <;> rfl

theorem allocateAll_table (table : BindTable) (literals : List Literal) :
    (table.allocateAll literals).2 = table.bindAll (literals.flatMap Literal.data) := by
  induction literals generalizing table with
  | nil => rfl
  | cons literal rest ih =>
    rw [List.flatMap_cons, bindAll_append, ← allocate_table]
    exact ih _

theorem allocateAll_names (table : BindTable) (literals : List Literal) :
    (table.allocateAll literals).1.filterMap Operand.name? =
      freshNames table.counter (literals.flatMap Literal.data).length := by
  induction literals generalizing table with
  | nil => rfl
  | cons literal rest ih =>
    have hn := allocate_name table literal
    have ht := ih (table.allocate literal).2
    rw [allocate_table, counter_bindAll] at ht
    rw [List.flatMap_cons, List.length_append, freshNames_add, ← hn, ← ht, allocateAll,
      ← allocate_table]
    -- a raw expression adds no name, a datum adds one
    cases literal <;> rfl

/-- The keys of pairs play no part in the allocation of their literals. -/
theorem allocatePairs_snd (table : BindTable) (pairs : List (String × Literal)) :
    ((table.allocatePairs pairs).1.map Prod.snd, (table.allocatePairs pairs).2) =
      table.allocateAll (pairs.map Prod.snd) := by
  induction pairs generalizing table with
  | nil => rfl
  | cons pair rest ih =>
    have h := ih (table.allocate pair.2).2
    rw [Prod.ext_iff] at h
    simp only [allocatePairs, List.map_cons, allocateAll, ← h.1, ← h.2]

theorem keys_allocatePairs (table : BindTable) (pairs : List (String × Literal)) :
    Entries.keys (table.allocatePairs pairs).1 = Entries.keys pairs := by
  induction pairs generalizing table with
  | nil => rfl
  | cons pair rest ih =>
    have h := ih (table.allocate pair.2).2
    simp only [Entries.keys] at h
    simp only [allocatePairs, Entries.keys, List.map_cons, h]

theorem allocatePairs_table (table : BindTable) (pairs : List (String × Literal)) :
    (table.allocatePairs pairs).2 = table.bindAll (pairsData pairs) := by
  have h := congrArg Prod.snd (allocatePairs_snd table pairs)
  rw [allocateAll_table, List.flatMap_map] at h
  exact h

theorem allocatePairs_names (table : BindTable) (pairs : List (String × Literal)) :
    (table.allocatePairs pairs).1.filterMap (fun pair => pair.2.name?) =
      freshNames table.counter (pairsData pairs).length := by
  have h := congrArg (fun r => r.1.filterMap Operand.name?) (allocatePairs_snd table pairs)
  simp only [List.filterMap_map, allocateAll_names, List.flatMap_map] at h
  exact h

/-! ## Names in a table -/

theorem mem_names_bindAll (table : BindTable) (data : List Json) (name : String) :
    name ∈ (table.bindAll data).names ↔
      name ∈ table.names ∨ name ∈ freshNames table.counter data.length := by
  induction data generalizing table with
  | nil => simp [bindAll, freshNames]
  | cons v rest ih =>
    rw [bindAll, ih, List.length_cons, freshNames, List.mem_cons]
    have h : name ∈ (table.allocate (.value v)).2.names ↔
        name ∈ table.names ∨ name = nameOf (table.counter + 1) := Entries.mem_keys_put _ _ v _
    rw [h, or_assoc]
    rfl

theorem get?_isSome_iff (table : BindTable) (name : String) :
    (table.get? name).isSome ↔ name ∈ table.names := by
  unfold get? OrderedMap.get? names OrderedMap.keys Entries.keys
  simp

/-! ## Names that were given out -/

theorem decimal_injective {m n : Nat} (h : Text.decimal m = Text.decimal n) : m = n := by
  have hd : Nat.toDigits 10 m = Nat.toDigits 10 n := String.ofList_injective h
  calc
    m = Nat.ofDigitChars 10 (Nat.toDigits 10 m) 0 := Nat.ofDigitChars_ten_toDigits.symm
    _ = Nat.ofDigitChars 10 (Nat.toDigits 10 n) 0 := by rw [hd]
    _ = n := Nat.ofDigitChars_ten_toDigits

theorem nameOf_injective {m n : UInt32} (h : nameOf m = nameOf n) : m = n := by
  have hd : Text.decimal m.toNat = Text.decimal n.toNat := (String.append_right_inj "B").mp h
  exact UInt32.toNat_inj.mp (decimal_injective hd)

theorem get?_allocate_self (table : BindTable) (v : Json) :
    (table.allocate (.value v)).2.get? (nameOf (table.counter + 1)) = some v :=
  Entries.lookup_put_self _ v _

theorem get?_allocate_of_ne {table : BindTable} {n : UInt32} (h : n ≠ table.counter + 1)
    (v : Json) : (table.allocate (.value v)).2.get? (nameOf n) = table.get? (nameOf n) :=
  Entries.lookup_put_of_ne (fun he => h (nameOf_injective he)) v _

theorem toNat_add_one {counter : UInt32} (h : counter.toNat + 1 < UInt32.size) :
    (counter + 1).toNat = counter.toNat + 1 := by
  rw [UInt32.toNat_add]
  exact Nat.mod_eq_of_lt h

theorem toNat_counter_bindAll {table : BindTable} {data : List Json}
    (hfit : table.counter.toNat + data.length < UInt32.size) :
    (table.bindAll data).counter.toNat = table.counter.toNat + data.length := by
  rw [counter_bindAll, UInt32.toNat_add, UInt32.toNat_ofNat_of_lt' (by omega)]
  exact Nat.mod_eq_of_lt hfit

/-! ## Sound tables -/

section Sound

variable {table : BindTable} (hs : table.Sound)
include hs

theorem Sound.nameOf_not_mem (hfit : table.counter.toNat + 1 < UInt32.size) :
    nameOf (table.counter + 1) ∉ table.names := by
  rw [nameOf, toNat_add_one hfit]
  exact hs _ (Nat.lt_succ_self _)

/-- A sound table takes a datum at its end. -/
theorem Sound.entries_allocate (v : Json) (hfit : table.counter.toNat + 1 < UInt32.size) :
    (table.allocate (.value v)).2.entries.entries =
      table.entries.entries ++ [(nameOf (table.counter + 1), v)] :=
  Entries.put_of_not_mem v (hs.nameOf_not_mem hfit)

theorem Sound.allocate (v : Json) (hfit : table.counter.toNat + 1 < UInt32.size) :
    (table.allocate (.value v)).2.Sound := by
  intro n hn hm
  have hc : (table.allocate (.value v)).2.counter.toNat = table.counter.toNat + 1 :=
    toNat_add_one hfit
  rw [hc] at hn
  rcases (Entries.mem_keys_put _ _ v _).mp hm with hm | he
  · exact hs n (by omega) hm
  · -- the name that was given out is that of the new counter
    rw [nameOf, toNat_add_one hfit] at he
    have hd : n = table.counter.toNat + 1 :=
      decimal_injective ((String.append_right_inj "B").mp he)
    omega

end Sound

/-- Binding data in a sound table appends them, in their order and under the next names. -/
theorem Sound.entries_bindAll {table : BindTable} (hs : table.Sound) {data : List Json}
    (hfit : table.counter.toNat + data.length < UInt32.size) :
    (table.bindAll data).entries.entries =
      table.entries.entries ++ (freshNames table.counter data.length).zip data := by
  induction data generalizing table with
  | nil => simp [bindAll, freshNames]
  | cons v rest ih =>
    rw [List.length_cons] at hfit
    have hc : (table.allocate (.value v)).2.counter.toNat = table.counter.toNat + 1 :=
      toNat_add_one (by omega)
    rw [bindAll, ih (hs.allocate v (by omega)) (by omega), hs.entries_allocate v (by omega),
      List.append_assoc]
    rfl

/-! ## Dense tables -/

theorem firstNames_succ (n : Nat) :
    firstNames (n + 1) = firstNames n ++ ["B" ++ Text.decimal (n + 1)] := by
  simp [firstNames, List.range_succ]

theorem not_mem_firstNames {m n : Nat} (h : n < m) : "B" ++ Text.decimal m ∉ firstNames n := by
  intro hm
  obtain ⟨i, hi, he⟩ := List.mem_map.mp hm
  have hd : i + 1 = m := decimal_injective (String.append_right_inj "B" |>.mp he)
  have := List.mem_range.mp hi
  omega

theorem firstNames_append_freshNames {counter : UInt32} {n : Nat}
    (h : counter.toNat + n < UInt32.size) :
    firstNames counter.toNat ++ freshNames counter n = firstNames (counter.toNat + n) := by
  induction n generalizing counter with
  | zero => simp [freshNames]
  | succ n ih =>
    have hc : (counter + 1).toNat = counter.toNat + 1 := toNat_add_one (by omega)
    have hr := @ih (counter + 1) (by omega)
    rw [hc, firstNames_succ] at hr
    rw [freshNames, nameOf, hc, show counter.toNat + (n + 1) = counter.toNat + 1 + n by omega,
      ← hr, List.append_assoc]
    rfl

theorem dense_empty : Dense empty := rfl

theorem Dense.sound {table : BindTable} (hd : table.Dense) : table.Sound := by
  intro n hn
  rw [hd]
  exact not_mem_firstNames hn

theorem Dense.allocate {table : BindTable} (hd : table.Dense) (v : Json)
    (hfit : table.counter.toNat + 1 < UInt32.size) : (table.allocate (.value v)).2.Dense := by
  have hn : (table.allocate (.value v)).2.names = table.names ++ [nameOf (table.counter + 1)] := by
    unfold names OrderedMap.keys Entries.keys
    rw [hd.sound.entries_allocate v hfit, List.map_append]
    rfl
  have hc : (table.allocate (.value v)).2.counter.toNat = table.counter.toNat + 1 :=
    toNat_add_one hfit
  rw [Dense, hn, hd, hc, firstNames_succ, nameOf, toNat_add_one hfit]

theorem Dense.bindAll {table : BindTable} (hd : table.Dense) {data : List Json}
    (hfit : table.counter.toNat + data.length < UInt32.size) : (table.bindAll data).Dense := by
  induction data generalizing table with
  | nil => exact hd
  | cons v rest ih =>
    rw [List.length_cons] at hfit
    have hc : (table.allocate (.value v)).2.counter.toNat = table.counter.toNat + 1 :=
      toNat_add_one (by omega)
    exact ih (hd.allocate v (by omega)) (by omega)

theorem Dense.names_bindAll {table : BindTable} (hd : table.Dense) {data : List Json}
    (hfit : table.counter.toNat + data.length < UInt32.size) :
    (table.bindAll data).names = table.names ++ freshNames table.counter data.length := by
  rw [hd.bindAll hfit, hd, firstNames_append_freshNames hfit, toNat_counter_bindAll hfit]

theorem Dense.prefixOf_bindAll {table : BindTable} (hd : table.Dense) {data : List Json}
    (hfit : table.counter.toNat + data.length < UInt32.size) :
    table.PrefixOf (table.bindAll data) := by
  rw [PrefixOf, hd.sound.entries_bindAll hfit]
  exact List.prefix_append _ _

theorem PrefixOf.trans {a b c : BindTable} (hab : a.PrefixOf b) (hbc : b.PrefixOf c) :
    a.PrefixOf c :=
  List.IsPrefix.trans hab hbc

theorem PrefixOf.get? {table later : BindTable} (h : table.PrefixOf later) {name : String}
    {v : Json} (hv : table.get? name = some v) : later.get? name = some v :=
  List.IsPrefix.lookup_eq_some h hv

/-- The table is dense and can count the data without a wrap. -/
structure Takes (table : BindTable) (data : List Json) : Prop where
  dense : table.Dense
  fit : table.counter.toNat + data.length < UInt32.size

theorem Takes.left {table : BindTable} {xs ys : List Json} (h : table.Takes (xs ++ ys)) :
    table.Takes xs := by
  have hfit := h.fit
  rw [List.length_append] at hfit
  exact ⟨h.dense, by omega⟩

theorem Takes.right {table : BindTable} {xs ys : List Json} (h : table.Takes (xs ++ ys)) :
    (table.bindAll xs).Takes ys := by
  have hfit := h.fit
  rw [List.length_append] at hfit
  refine ⟨h.dense.bindAll h.left.fit, ?_⟩
  rw [toNat_counter_bindAll h.left.fit]
  omega

/-- Data that were not bound after all leave room for those after them. -/
theorem Takes.skip {table : BindTable} {xs ys : List Json} (h : table.Takes (xs ++ ys)) :
    table.Takes ys := by
  have hfit := h.fit
  rw [List.length_append] at hfit
  exact ⟨h.dense, by omega⟩

theorem Takes.prefixOf {table : BindTable} {data : List Json} (h : table.Takes data) :
    table.PrefixOf (table.bindAll data) :=
  h.dense.prefixOf_bindAll h.fit

/-- What extends the table after all data extends it after the first of them. -/
theorem Takes.prefixOf_left {table later : BindTable} {xs ys : List Json}
    (h : table.Takes (xs ++ ys)) (hl : (table.bindAll (xs ++ ys)).PrefixOf later) :
    (table.bindAll xs).PrefixOf later := by
  rw [bindAll_append] at hl
  exact h.right.prefixOf.trans hl

end BindTable

end AqlQuery

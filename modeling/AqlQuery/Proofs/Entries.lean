import AqlQuery.OrderedMap

/-!
# Entries under `put`

What putting a value under a key does to the keys, to the value behind each key, and to a map over
all values.
-/

namespace AqlQuery

namespace Entries

variable {α β : Type}

theorem mem_keys_put (name key : String) (v : α) (entries : List (String × α)) :
    name ∈ keys (put key v entries) ↔ name ∈ keys entries ∨ name = key := by
  by_cases h : key ∈ keys entries
  · rw [keys_put_of_mem v h]
    constructor
    · exact Or.inl
    · rintro (hm | rfl)
      · exact hm
      · exact h
  · rw [keys_put_of_not_mem v h, List.mem_append, List.mem_singleton]

theorem keys_put_congr {xs : List (String × α)} {ys : List (String × β)} (h : keys xs = keys ys)
    (key : String) (v : α) (w : β) : keys (put key v xs) = keys (put key w ys) := by
  by_cases hk : key ∈ keys xs
  · rw [keys_put_of_mem v hk, keys_put_of_mem w (h ▸ hk), h]
  · rw [keys_put_of_not_mem v hk, keys_put_of_not_mem w (h ▸ hk), h]

theorem put_of_not_mem {key : String} (v : α) {entries : List (String × α)}
    (h : key ∉ keys entries) : put key v entries = entries ++ [(key, v)] := by
  induction entries with
  | nil => rfl
  | cons entry rest ih =>
    rw [keys, List.map_cons, List.mem_cons, not_or] at h
    rw [put, if_neg (Ne.symm h.1), ih h.2]
    rfl

theorem lookup_put_self (key : String) (v : α) (entries : List (String × α)) :
    (put key v entries).lookup key = some v := by
  induction entries with
  | nil => simp [put]
  | cons entry rest ih =>
    obtain ⟨k, w⟩ := entry
    by_cases hk : k = key
    · simp [put, hk]
    · rw [put, if_neg hk, List.lookup_cons, beq_false_of_ne (Ne.symm hk)]
      exact ih

theorem lookup_put_of_ne {key name : String} (h : name ≠ key) (v : α)
    (entries : List (String × α)) : (put key v entries).lookup name = entries.lookup name := by
  induction entries with
  | nil => rw [put, List.lookup_cons, beq_false_of_ne h]
  | cons entry rest ih =>
    obtain ⟨k, w⟩ := entry
    rw [put]
    split
    next hk =>
      subst hk
      rw [List.lookup_cons, List.lookup_cons, beq_false_of_ne h]
    next => rw [List.lookup_cons, List.lookup_cons, ih]

/-- Entries without repeated keys are told apart by their keys and the values behind them. -/
theorem eq_of_lookup {xs ys : List (String × α)} (hx : (keys xs).Nodup) (hk : keys xs = keys ys)
    (hl : ∀ key ∈ keys xs, xs.lookup key = ys.lookup key) : xs = ys := by
  induction xs generalizing ys with
  | nil =>
    cases ys with
    | nil => rfl
    | cons y ys => cases hk
  | cons x xs ih =>
    cases ys with
    | nil => cases hk
    | cons y ys =>
      obtain ⟨k, v⟩ := x
      obtain ⟨k', w⟩ := y
      obtain ⟨hkey, hkeys⟩ := List.cons.inj hk
      simp only at hkey
      subst hkey
      obtain ⟨hfirst, hrest⟩ := List.nodup_cons.mp hx
      have hvalue : v = w := by
        have h := hl k List.mem_cons_self
        simpa using h
      rw [hvalue, ih hrest hkeys]
      intro key hm
      -- further down no key is the first one, so the first entry is passed over
      have hne : (key == k) = false := beq_false_of_ne fun he => hfirst (he ▸ hm)
      have h := hl key (List.mem_cons_of_mem k hm)
      simpa [List.lookup_cons, hne] using h

theorem mapValues_put (f : α → β) (key : String) (v : α) (entries : List (String × α)) :
    mapValues f (put key v entries) = put key (f v) (mapValues f entries) := by
  induction entries with
  | nil => rfl
  | cons entry rest ih =>
    obtain ⟨k, w⟩ := entry
    rw [put, mapValues, mapValues, List.map_cons, put]
    split
    · rfl
    · rw [List.map_cons, ← mapValues, ih]
      rfl

theorem mapValues_mapValues {γ : Type} (g : β → γ) (f : α → β) (entries : List (String × α)) :
    mapValues g (mapValues f entries) = mapValues (fun v => g (f v)) entries := by
  simp [mapValues]

theorem mapValues_zip (f : α → β) (keys : List String) (values : List α) :
    mapValues f (keys.zip values) = keys.zip (values.map f) := by
  rw [List.zip_map_right]
  rfl

theorem lookup_mapValues (f : α → β) (key : String) (entries : List (String × α)) :
    (mapValues f entries).lookup key = (entries.lookup key).map f := by
  induction entries with
  | nil => rfl
  | cons entry rest ih =>
    obtain ⟨k, w⟩ := entry
    rw [mapValues, List.map_cons, List.lookup_cons, List.lookup_cons]
    cases key == k with
    | true => rfl
    | false => exact ih

end Entries

namespace OrderedMap

variable {α β : Type}

theorem entries_foldl_insert {pairs : List (String × α)} {m : OrderedMap α}
    (h : (m.keys ++ Entries.keys pairs).Nodup) :
    (pairs.foldl (fun m pair => m.insert pair.1 pair.2) m).entries = m.entries ++ pairs := by
  induction pairs generalizing m with
  | nil => simp
  | cons pair rest ih =>
    have hnew : pair.1 ∉ Entries.keys m.entries := fun hm =>
      (List.nodup_append.mp h).2.2 pair.1 hm pair.1 (by simp [Entries.keys]) rfl
    have he : (m.insert pair.1 pair.2).entries = m.entries ++ [pair] :=
      Entries.put_of_not_mem pair.2 hnew
    have hk : ((m.insert pair.1 pair.2).keys ++ Entries.keys rest).Nodup := by
      rw [keys, he, Entries.keys, List.map_append, List.append_assoc]
      exact h
    rw [List.foldl_cons, ih hk, he, List.append_assoc]
    rfl

/-- Pairs without repeated keys are the entries of their map. -/
theorem entries_ofList {pairs : List (String × α)} (h : (Entries.keys pairs).Nodup) :
    (ofList pairs).entries = pairs :=
  @entries_foldl_insert α pairs empty h

theorem map_insert (f : α → β) (m : OrderedMap α) (key : String) (v : α) :
    (m.insert key v).map f = (m.map f).insert key (f v) :=
  ext (Entries.mapValues_put f key v m.entries)

theorem ofList_mapValues (f : α → β) (pairs : List (String × α)) :
    ofList (Entries.mapValues f pairs) = (ofList pairs).map f := by
  -- the fold starts from any map, of which the empty one is a case
  have hfold (m : OrderedMap α) :
      (Entries.mapValues f pairs).foldl (fun m pair => m.insert pair.1 pair.2) (m.map f) =
        (pairs.foldl (fun m pair => m.insert pair.1 pair.2) m).map f := by
    induction pairs generalizing m with
    | nil => rfl
    | cons pair rest ih =>
      rw [List.foldl_cons, ← ih, map_insert]
      rfl
  exact hfold empty

end OrderedMap

end AqlQuery

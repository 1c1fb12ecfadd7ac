/-!
# Maps that keep the order of insertion

Entries are a list of pairs. Putting a value under a key that is there already keeps the key's
place and replaces the value; a new key goes to the end. `OrderedMap` carries the fact that no key
occurs twice, which every operation keeps.
-/

namespace AqlQuery

/-! ## Entries as plain lists -/

namespace Entries

variable {α β : Type}

/-- Puts `v` under `k`: in the place of `k` if it is there, else at the end. -/
def put (k : String) (v : α) : List (String × α) → List (String × α)
  | [] => [(k, v)]
  | (k', v') :: rest => if k' = k then (k', v) :: rest else (k', v') :: put k v rest

/-- Puts the given pairs one after the other; the last value of a repeated key wins, at the place
of its first occurrence. -/
def ofList (pairs : List (String × α)) : List (String × α) :=
  pairs.foldl (fun entries pair => put pair.1 pair.2 entries) []

/-- The keys in their order. -/
def keys (entries : List (String × α)) : List String :=
  entries.map Prod.fst

theorem keys_put_of_mem {k : String} (v : α) {entries : List (String × α)}
    (h : k ∈ keys entries) : keys (put k v entries) = keys entries := by
  induction entries with
  | nil => simp [keys] at h
  | cons entry rest ih =>
    obtain ⟨k', v'⟩ := entry
    by_cases hk : k' = k
    · simp [put, keys, hk]
    · have hr : k ∈ keys rest := by
        simpa [keys, Ne.symm hk] using h
      have := ih hr
      simp only [keys] at this
      simp [put, keys, hk, this]

theorem keys_put_of_not_mem {k : String} (v : α) {entries : List (String × α)}
    (h : k ∉ keys entries) : keys (put k v entries) = keys entries ++ [k] := by
  induction entries with
  | nil => simp [put, keys]
  | cons entry rest ih =>
    obtain ⟨k', v'⟩ := entry
    have hk : ¬ k' = k := fun e => h (by simp [keys, e])
    have hr : k ∉ keys rest := fun m => h (by simpa [keys] using Or.inr m)
    have := ih hr
    simp only [keys] at this
    simp [put, keys, hk, this]

theorem nodup_keys_put (k : String) (v : α) {entries : List (String × α)}
    (h : (keys entries).Nodup) : (keys (put k v entries)).Nodup := by
  by_cases hk : k ∈ keys entries
  · rw [keys_put_of_mem v hk]; exact h
  · rw [keys_put_of_not_mem v hk, List.nodup_append]
    refine ⟨h, by simp, ?_⟩
    intro a ha b hb e
    simp only [List.mem_singleton] at hb
    exact hk (hb ▸ e ▸ ha)

/-- Replaces every value, with its key at hand. -/
def mapValues (f : α → β) (entries : List (String × α)) : List (String × β) :=
  entries.map fun entry => (entry.1, f entry.2)

@[simp] theorem keys_mapValues (f : α → β) (entries : List (String × α)) :
    keys (mapValues f entries) = keys entries := by
  simp [keys, mapValues, Function.comp_def]

end Entries

/-! ## Maps without repeated keys -/

/-- A map from texts that remembers the order in which its keys arrived. -/
structure OrderedMap (α : Type) where
  entries : List (String × α)
  nodup : (Entries.keys entries).Nodup

namespace OrderedMap

variable {α β : Type}

@[ext] theorem ext {a b : OrderedMap α} (h : a.entries = b.entries) : a = b := by
  cases a; cases b; simp_all

instance [DecidableEq α] : DecidableEq (OrderedMap α) := fun a b =>
  if h : a.entries = b.entries then isTrue (ext h) else isFalse fun e => h (e ▸ rfl)

/-- The map without entries. -/
def empty : OrderedMap α := ⟨[], by simp [Entries.keys]⟩

instance : Inhabited (OrderedMap α) := ⟨empty⟩

/-- Puts a value under a key, in the key's place if it has one. -/
def insert (m : OrderedMap α) (k : String) (v : α) : OrderedMap α :=
  ⟨Entries.put k v m.entries, Entries.nodup_keys_put k v m.nodup⟩

/-- The map of the given pairs; the last value of a repeated key wins. -/
def ofList (pairs : List (String × α)) : OrderedMap α :=
  pairs.foldl (fun m pair => m.insert pair.1 pair.2) empty

/-- The value under a key. -/
def get? (m : OrderedMap α) (k : String) : Option α := m.entries.lookup k

/-- The keys in order of arrival. -/
def keys (m : OrderedMap α) : List String := Entries.keys m.entries

/-- Number of entries. -/
def size (m : OrderedMap α) : Nat := m.entries.length

/-- Whether there is no entry. -/
def isEmpty (m : OrderedMap α) : Bool := m.entries.isEmpty

/-- The same keys with every value replaced. -/
def map (f : α → β) (m : OrderedMap α) : OrderedMap β :=
  ⟨Entries.mapValues f m.entries, by rw [Entries.keys_mapValues]; exact m.nodup⟩

@[simp] theorem entries_insert (m : OrderedMap α) (k : String) (v : α) :
    (m.insert k v).entries = Entries.put k v m.entries := rfl

@[simp] theorem entries_empty : (empty : OrderedMap α).entries = [] := rfl

end OrderedMap

end AqlQuery

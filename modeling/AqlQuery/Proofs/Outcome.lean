/-!
# Computations that succeed or fail

A chain of fallible computations that succeeds is taken apart into its links, and one that fails is
known by its first error. A computation can succeed wherever another one does, with the same result.
-/

namespace AqlQuery.Outcome

variable {α β γ ε δ : Type}

theorem bind_ok {x : Except ε α} {f : α → Except ε β} {r : β} (h : (x >>= f) = .ok r) :
    ∃ a, x = .ok a ∧ f a = .ok r := by
  cases x with
  | error e => cases h
  | ok a => exact ⟨a, rfl, h⟩

/-- An error that the second computation cannot have comes from the first. -/
theorem error_of_bind {x : Except ε α} {f : α → Except ε β} {e : ε} (h : (x >>= f) = .error e)
    (hf : ∀ a, f a ≠ .error e) : x = .error e := by
  cases x with
  | error e' =>
    cases h
    rfl
  | ok a => exact absurd h (hf a)

/-- Success can be decided where errors cannot be compared. -/
theorem ok_of_toOption {x : Except ε α} {a : α} (h : x.toOption = some a) : x = .ok a := by
  cases x with
  | error e => cases h
  | ok b =>
    cases h
    rfl

theorem bind_toOption {x : Except ε α} {f : α → Option β} {b : β}
    (h : (x.toOption >>= f) = some b) : ∃ a, x = .ok a ∧ f a = some b := by
  cases x with
  | error e => cases h
  | ok a => exact ⟨a, rfl, h⟩

theorem exists_ok {x : Except ε α} (h : x.toOption.isSome = true) : ∃ a, x = .ok a := by
  cases x with
  | error e => cases h
  | ok a => exact ⟨a, rfl⟩

/-- What is computed from a result can be evaluated without it. -/
theorem eq_of_ok {x : Except ε α} {a : α} {f : α → β} {b : β} (h : x = .ok a)
    (hf : x.toOption.map f = some b) : f a = b := by
  rw [h] at hf
  exact Option.some.inj hf

theorem map_ok {x : Except ε α} {f : α → β} {b : β} (h : x.map f = .ok b) :
    ∃ a, x = .ok a ∧ b = f a := by
  cases x with
  | error e => cases h
  | ok a =>
    cases h
    exact ⟨a, rfl, rfl⟩

theorem mapError_ok {x : Except ε α} {f : ε → δ} {a : α} (h : x.mapError f = .ok a) :
    x = .ok a := by
  cases x with
  | error e => cases h
  | ok b =>
    cases h
    rfl

theorem mapM_cons_ok {f : α → Except ε β} {x : α} {xs : List α} {ys : List β}
    (h : (x :: xs).mapM f = .ok ys) :
    ∃ y rest, f x = .ok y ∧ xs.mapM f = .ok rest ∧ ys = y :: rest := by
  rw [List.mapM_cons] at h
  obtain ⟨y, hy, h⟩ := bind_ok h
  obtain ⟨rest, hrest, h⟩ := bind_ok h
  cases h
  exact ⟨y, rest, hy, hrest, rfl⟩

/-- What is undone item by item is undone as a whole. -/
theorem mapM_map_some {f : β → Option α} {g : α → β} {xs : List α}
    (h : ∀ x ∈ xs, f (g x) = some x) : (xs.map g).mapM f = some xs := by
  induction xs with
  | nil => rfl
  | cons x rest ih =>
    rw [List.map_cons, List.mapM_cons, h x List.mem_cons_self,
      ih fun y hy => h y (List.mem_cons_of_mem x hy)]
    rfl

/-- Each result comes from one of the inputs. -/
theorem mem_mapM_ok {f : α → Except ε β} {xs : List α} {ys : List β} (h : xs.mapM f = .ok ys)
    {y : β} (hy : y ∈ ys) : ∃ x ∈ xs, f x = .ok y := by
  induction xs generalizing ys with
  | nil =>
    cases h
    cases hy
  | cons x rest ih =>
    obtain ⟨y₁, ys₁, hx, hrest, rfl⟩ := mapM_cons_ok h
    rcases List.mem_cons.mp hy with rfl | hm
    · exact ⟨x, List.mem_cons_self, hx⟩
    · obtain ⟨x', hx', he⟩ := ih hrest hm
      exact ⟨x', List.mem_cons_of_mem x hx', he⟩

/-- What is read off each result alike can be read off the inputs. -/
theorem flatMap_mapM_ok {f : α → Except ε β} {g : β → List γ} {g' : α → List γ} {xs : List α}
    {ys : List β} (hf : ∀ x ∈ xs, ∀ y, f x = .ok y → g y = g' x) (h : xs.mapM f = .ok ys) :
    ys.flatMap g = xs.flatMap g' := by
  induction xs generalizing ys with
  | nil =>
    cases h
    rfl
  | cons x rest ih =>
    obtain ⟨y, ys, hx, hrest, rfl⟩ := mapM_cons_ok h
    rw [List.flatMap_cons, List.flatMap_cons, hf x List.mem_cons_self y hx,
      ih (fun x' hm => hf x' (List.mem_cons_of_mem x hm)) hrest]

theorem map_mapM_ok {f : α → Except ε β} {g : β → γ} {g' : α → γ} {xs : List α} {ys : List β}
    (hf : ∀ x ∈ xs, ∀ y, f x = .ok y → g y = g' x) (h : xs.mapM f = .ok ys) :
    ys.map g = xs.map g' := by
  have hflat : (ys.flatMap fun y => [g y]) = xs.flatMap fun x => [g' x] :=
    flatMap_mapM_ok (fun x hx y hy => by rw [hf x hx y hy]) h
  rwa [← List.map_eq_flatMap, ← List.map_eq_flatMap] at hflat

/-- Each input has a result among the others. -/
theorem exists_of_mem_mapM {f : α → Except ε β} {xs : List α} {ys : List β}
    (h : xs.mapM f = .ok ys) {x : α} (hx : x ∈ xs) : ∃ y ∈ ys, f x = .ok y := by
  induction xs generalizing ys with
  | nil => cases hx
  | cons x₁ rest ih =>
    obtain ⟨y, ys, hy, hrest, rfl⟩ := mapM_cons_ok h
    rcases List.mem_cons.mp hx with rfl | hm
    · exact ⟨y, List.mem_cons_self, hy⟩
    · obtain ⟨y', hy', he⟩ := ih hrest hm
      exact ⟨y', List.mem_cons_of_mem y hy', he⟩

/-- The error of a computation that fails. -/
def failure? : Except ε α → Option ε
  | .ok _ => none
  | .error e => some e

theorem failure?_eq_some_iff {x : Except ε α} {e : ε} : failure? x = some e ↔ x = .error e := by
  cases x with
  | ok a => exact ⟨fun h => (nomatch h), fun h => (nomatch h)⟩
  | error e' => rw [failure?, Option.some.injEq, Except.error.injEq]

/-! ## Computations that keep a result -/

/-- Where the first computation succeeds, the second has the same result. -/
def Keeps (x y : Except ε α) : Prop := ∀ a, x = .ok a → y = .ok a

namespace Keeps

theorem refl (x : Except ε α) : Keeps x x := fun _ h => h

theorem bind {x y : Except ε α} {f g : α → Except ε β} (hxy : Keeps x y)
    (hfg : ∀ a, x = .ok a → Keeps (f a) (g a)) : Keeps (x >>= f) (y >>= g) := by
  intro b hb
  obtain ⟨a, ha, hf⟩ := bind_ok hb
  rw [hxy a ha]
  exact hfg a ha b hf

/-- What is done with a result does not depend on where it comes from. -/
theorem andThen {x y : Except ε α} (hxy : Keeps x y) (f : α → Except ε β) :
    Keeps (x >>= f) (y >>= f) :=
  hxy.bind fun a _ => refl (f a)

theorem map {x y : Except ε α} (hxy : Keeps x y) (f : α → β) : Keeps (x.map f) (y.map f) := by
  intro b hb
  cases x with
  | error e => cases hb
  | ok a =>
    rw [hxy a rfl]
    exact hb

theorem mapM {f g : α → Except ε β} {xs : List α} (h : ∀ x ∈ xs, Keeps (f x) (g x)) :
    Keeps (xs.mapM f) (xs.mapM g) := by
  induction xs with
  | nil => exact refl _
  | cons x rest ih =>
    rw [List.mapM_cons, List.mapM_cons]
    refine (h x List.mem_cons_self).bind fun y _ => ?_
    exact (ih fun x' hm => h x' (List.mem_cons_of_mem x hm)).andThen _

theorem mapError {x y : Except ε α} (hxy : Keeps x y) (f : ε → δ) :
    Keeps (x.mapError f) (y.mapError f) := by
  intro a ha
  rw [hxy a (mapError_ok ha)]
  rfl

end Keeps

end AqlQuery.Outcome

import AqlQuery.Proofs.Column.Parts

/-!
# Names of collections

A name is made bare when it enters a scope, and once more when its variable is spelled from there.
A loop over a joined collection spells its variable from the name as it was given. The two agree for
names without blanks, where the first time takes away everything that there is to take away.
-/

namespace AqlQuery

namespace Text

/-! ## Stripping twice -/

theorem dropWhile_eq_self {p : Char → Bool} {cs : List Char}
    (hhead : ∀ c ∈ cs.head?, p c = false) : cs.dropWhile p = cs := by
  cases cs with
  | nil => rfl
  | cons c rest =>
    have hc : p c = false := hhead c rfl
    rw [List.dropWhile_cons, hc]
    rfl

/-- A text that neither begins nor ends with such a character is left alone. -/
theorem stripChars_eq_self {p : Char → Bool} {cs : List Char}
    (hhead : ∀ c ∈ cs.head?, p c = false) (hlast : ∀ c ∈ cs.getLast?, p c = false) :
    stripChars p cs = cs := by
  have hend : ∀ c ∈ cs.reverse.head?, p c = false := by rwa [List.head?_reverse]
  rw [stripChars, dropWhile_eq_self hhead, dropWhile_eq_self hend, List.reverse_reverse]

theorem head?_dropWhile {p : Char → Bool} {cs : List Char} {c : Char}
    (hc : c ∈ (cs.dropWhile p).head?) : p c = false := by
  have hnot := List.head?_dropWhile_not p cs
  rw [Option.mem_def.mp hc] at hnot
  exact hnot

theorem getLast?_stripChars {p : Char → Bool} {cs : List Char} {c : Char}
    (hc : c ∈ (stripChars p cs).getLast?) : p c = false := by
  rw [stripChars, List.getLast?_reverse] at hc
  exact head?_dropWhile hc

theorem head?_stripChars {p : Char → Bool} {cs : List Char} {c : Char}
    (hc : c ∈ (stripChars p cs).head?) : p c = false := by
  -- what is left is a beginning of the text that was stripped on the left
  have hbegin : stripChars p cs <+: cs.dropWhile p := by
    have hend := List.reverse_prefix.mpr (List.dropWhile_suffix p (l := (cs.dropWhile p).reverse))
    rwa [List.reverse_reverse] at hend
  obtain ⟨rest, hrest⟩ := hbegin
  apply @head?_dropWhile p cs
  rw [← hrest, List.head?_append, Option.mem_def.mp hc]
  rfl

theorem stripChars_stripChars (p : Char → Bool) (cs : List Char) :
    stripChars p (stripChars p cs) = stripChars p cs :=
  stripChars_eq_self (fun _ hc => head?_stripChars hc) (fun _ hc => getLast?_stripChars hc)

theorem strip_strip (p : Char → Bool) (s : String) : strip p (strip p s) = strip p s := by
  rw [strip, strip, String.toList_ofList, stripChars_stripChars]

/-- No character of the text is a blank. -/
def IsUnbroken (s : String) : Prop := ∀ c ∈ s.toList, isBlank c = false

instance (s : String) : Decidable (IsUnbroken s) := List.decidableBAll ..

theorem trim_of_isUnbroken {s : String} (h : IsUnbroken s) : trim s = s := by
  have hkept : stripChars isBlank s.toList = s.toList := by
    apply stripChars_eq_self
    · intro c hc
      exact h c (List.mem_of_mem_head? hc)
    · intro c hc
      exact h c (List.mem_of_getLast? hc)
  rw [trim, strip, hkept, String.ofList_toList]

theorem IsUnbroken.strip {s : String} (h : IsUnbroken s) (p : Char → Bool) :
    IsUnbroken (Text.strip p s) :=
  fun c hc => h c (strip_subset p s hc)

theorem IsUnbroken.append {s t : String} (hs : IsUnbroken s) (ht : IsUnbroken t) :
    IsUnbroken (s ++ t) := by
  intro c hc
  rw [String.toList_append] at hc
  exact (List.mem_append.mp hc).elim (hs c) (ht c)

end Text

namespace Collection

theorem bareName_of_isUnbroken {name : String} (h : Text.IsUnbroken name) :
    bareName name = Text.strip isBacktick name := by
  rw [bareName, Text.trim_of_isUnbroken h, Text.trim_of_isUnbroken (h.strip isBacktick)]

/-- Without blanks, a bare name stays as it is. -/
theorem bareName_bareName {name : String} (h : Text.IsUnbroken name) :
    bareName (bareName name) = bareName name := by
  rw [bareName_of_isUnbroken h, bareName_of_isUnbroken (h.strip isBacktick), Text.strip_strip]

/-- A variable is spelled alike from a name and from its bare name if the bare name stays. -/
theorem variableName_bareName_iff (name : String) :
    variableName (bareName name) = variableName name ↔ bareName (bareName name) = bareName name :=
  String.append_left_inj variableSuffix

-- with blanks inside the backticks there can be more backticks behind them
example : bareName "\x60 \x60users\x60 \x60" = "\x60users\x60" ∧
    bareName (bareName "\x60 \x60users\x60 \x60") = "users" := by
  decide

end Collection

end AqlQuery

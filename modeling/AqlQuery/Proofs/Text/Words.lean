import AqlQuery.Text.Blank

/-!
# The words of a text

A word is a longest run of characters that are no blanks. A text is its words with blanks between
them, so wherever its list of words is cut in two, the text can be cut: behind the last word of the
first part.
-/

namespace AqlQuery.Text

/-- Every character is a blank. -/
def IsGap (cs : List Char) : Prop := ∀ c ∈ cs, isBlank c = true

/-- Some characters, and no blank among them. -/
def IsWord (cs : List Char) : Prop := cs ≠ [] ∧ ∀ c ∈ cs, isBlank c = false

/-- The text is empty, or begins with a blank. -/
def OpensBlank (cs : List Char) : Prop := ∀ c ∈ cs.head?, isBlank c = true

/-- The words of a text, in their order. -/
def words (cs : List Char) : List (List Char) :=
  (cs.splitOnP isBlank).filter fun w => !w.isEmpty

/-! ## Words of parts -/

theorem words_append_cons {b : Char} (hb : isBlank b = true) (xs ys : List Char) :
    words (xs ++ b :: ys) = words xs ++ words ys := by
  rw [words, List.splitOnP_append_cons xs ys hb, List.filter_append]
  rfl

theorem words_cons {b : Char} (hb : isBlank b = true) (ys : List Char) :
    words (b :: ys) = words ys :=
  words_append_cons hb [] ys

theorem words_append {xs ys : List Char} (h : OpensBlank ys) :
    words (xs ++ ys) = words xs ++ words ys := by
  cases ys with
  | nil => rw [List.append_nil, show words [] = [] from rfl, List.append_nil]
  | cons b ys =>
    have hb : isBlank b = true := h b rfl
    rw [words_append_cons hb, words_cons hb]

theorem IsWord.words_eq {w : List Char} (hw : IsWord w) : words w = [w] := by
  have hfull : w.isEmpty = false := List.isEmpty_eq_false_iff.mpr hw.1
  rw [words, List.splitOnP_eq_singleton hw.2, List.filter_cons, hfull]
  rfl

theorem IsGap.words_append {gap : List Char} (hgap : IsGap gap) (cs : List Char) :
    words (gap ++ cs) = words cs := by
  induction gap with
  | nil => rfl
  | cons b gap ih =>
    rw [List.cons_append, words_cons (hgap b List.mem_cons_self)]
    exact ih fun c hc => hgap c (List.mem_cons_of_mem b hc)

theorem IsGap.words_eq {gap : List Char} (hgap : IsGap gap) : words gap = [] := by
  have happend := hgap.words_append []
  rwa [List.append_nil] at happend

theorem IsGap.opensBlank {gap : List Char} (hgap : IsGap gap) : OpensBlank gap :=
  fun c hc => hgap c (List.mem_of_mem_head? hc)

/-! ## Runs of characters -/

theorem dropWhile_of_all {p : Char → Bool} {cs : List Char} (h : ∀ c ∈ cs, p c = true) :
    cs.dropWhile p = [] := by
  rw [← List.append_nil cs, List.dropWhile_append_of_pos h]
  rfl

theorem dropWhile_gap {gap w : List Char} (hgap : IsGap gap) (hw : IsWord w)
    (behind : List Char) : (gap ++ (w ++ behind)).dropWhile isBlank = w ++ behind := by
  obtain ⟨c, w, rfl⟩ := List.exists_cons_of_ne_nil hw.1
  have hc := hw.2 c List.mem_cons_self
  rw [List.dropWhile_append_of_pos hgap, List.cons_append,
    List.dropWhile_cons_of_neg (by simp [hc])]

theorem takeWhile_gap {gap w : List Char} (hgap : IsGap gap) (hw : IsWord w)
    (behind : List Char) : (gap ++ (w ++ behind)).takeWhile isBlank = gap := by
  obtain ⟨c, w, rfl⟩ := List.exists_cons_of_ne_nil hw.1
  have hc := hw.2 c List.mem_cons_self
  rw [List.takeWhile_append_of_pos hgap, List.cons_append,
    List.takeWhile_cons_of_neg (by simp [hc]), List.append_nil]

theorem takeWhile_word {w behind : List Char} (hw : IsWord w) (hbehind : OpensBlank behind) :
    (w ++ behind).takeWhile (fun c => !isBlank c) = w := by
  rw [List.takeWhile_append_of_pos (by simpa using hw.2)]
  cases behind with
  | nil => rw [List.takeWhile_nil, List.append_nil]
  | cons b behind =>
    have hb : isBlank b = true := hbehind b rfl
    rw [List.takeWhile_cons_of_neg (by simp [hb]), List.append_nil]

theorem ne_nil_of_opensBlank {gap w behind : List Char} (hw : IsWord w)
    (h : OpensBlank (gap ++ w ++ behind)) : gap ≠ [] := by
  rintro rfl
  obtain ⟨c, w, rfl⟩ := List.exists_cons_of_ne_nil hw.1
  have hblank : isBlank c = true := h c rfl
  rw [hw.2 c List.mem_cons_self] at hblank
  cases hblank

/-! ## Cutting a text -/

theorem isGap_takeWhile (cs : List Char) : IsGap (cs.takeWhile isBlank) :=
  fun c hc => List.all_eq_true.mp List.all_takeWhile c hc

theorem opensBlank_dropWhile (cs : List Char) :
    OpensBlank (cs.dropWhile fun c => !isBlank c) := by
  intro c hc
  have hnot := List.head?_dropWhile_not (fun c => !isBlank c) cs
  rw [Option.mem_def.mp hc] at hnot
  simpa using hnot

/-- A text of blanks only, or blanks, a word and what comes behind it. -/
theorem isGap_or_word (cs : List Char) :
    IsGap cs ∨ ∃ gap w behind, cs = gap ++ w ++ behind ∧ IsGap gap ∧ IsWord w ∧
      OpensBlank behind := by
  cases hd : cs.dropWhile isBlank with
  | nil =>
    have hall := @List.takeWhile_append_dropWhile Char isBlank cs
    rw [hd, List.append_nil] at hall
    exact Or.inl (hall ▸ isGap_takeWhile cs)
  | cons c rest =>
    right
    have hc : isBlank c = false := by
      have hnot := List.head?_dropWhile_not isBlank cs
      rwa [hd] at hnot
    -- the word goes on to the next blank
    refine ⟨cs.takeWhile isBlank, (c :: rest).takeWhile fun c => !isBlank c,
      (c :: rest).dropWhile fun c => !isBlank c, ?_, isGap_takeWhile cs, ⟨?_, ?_⟩,
      opensBlank_dropWhile _⟩
    · rw [List.append_assoc, List.takeWhile_append_dropWhile, ← hd, List.takeWhile_append_dropWhile]
    · rw [List.takeWhile_cons_of_pos (by simp [hc])]
      exact List.cons_ne_nil _ _
    · intro d hm
      have hword := List.all_eq_true.mp (@List.all_takeWhile Char (fun c => !isBlank c) _) d hm
      simpa using hword

theorem isGap_of_words {cs : List Char} (h : words cs = []) : IsGap cs := by
  rcases isGap_or_word cs with hgap | ⟨gap, w, behind, rfl, hgap, hw, hbehind⟩
  · exact hgap
  · rw [List.append_assoc, hgap.words_append, words_append hbehind, hw.words_eq] at h
    cases h

theorem exists_of_words_cons {cs w : List Char} {ws : List (List Char)} (h : words cs = w :: ws) :
    ∃ gap behind, cs = gap ++ w ++ behind ∧ IsGap gap ∧ IsWord w ∧ OpensBlank behind ∧
      words behind = ws := by
  rcases isGap_or_word cs with hgap | ⟨gap, w', behind, rfl, hgap, hw, hbehind⟩
  · rw [hgap.words_eq] at h
    cases h
  · rw [List.append_assoc, hgap.words_append, words_append hbehind, hw.words_eq] at h
    cases h
    exact ⟨gap, behind, rfl, hgap, hw, hbehind, rfl⟩

/-- The last character is no blank. -/
def EndsInWord (cs : List Char) : Prop := ∃ init c, cs = init ++ [c] ∧ isBlank c = false

theorem IsWord.endsInWord {w : List Char} (hw : IsWord w) (before : List Char) :
    EndsInWord (before ++ w) := by
  obtain ⟨init, c, rfl⟩ := (List.eq_nil_or_concat w).resolve_left hw.1
  refine ⟨before ++ init, c, ?_, hw.2 c ?_⟩
  · rw [List.concat_eq_append, List.append_assoc]
  · rw [List.concat_eq_append]
    exact List.mem_append_right init List.mem_cons_self

theorem EndsInWord.append {cs : List Char} (h : EndsInWord cs) (before : List Char) :
    EndsInWord (before ++ cs) := by
  obtain ⟨init, c, rfl, hc⟩ := h
  exact ⟨before ++ init, c, (List.append_assoc ..).symm, hc⟩

theorem EndsInWord.not_isGap {cs : List Char} (h : EndsInWord cs) : ¬ IsGap cs := by
  obtain ⟨init, c, rfl, hc⟩ := h
  intro hgap
  rw [hgap c (List.mem_append_right init List.mem_cons_self)] at hc
  cases hc

/-- Where the words are cut in two, so is the text: behind the last word of the first part. -/
theorem exists_of_words_append {cs : List Char} {xs ys : List (List Char)}
    (h : words cs = xs ++ ys) (hxs : xs ≠ []) :
    ∃ before behind, cs = before ++ behind ∧ words before = xs ∧ words behind = ys ∧
      EndsInWord before ∧ OpensBlank behind := by
  induction xs generalizing cs with
  | nil => exact absurd rfl hxs
  | cons w xs ih =>
    obtain ⟨gap, rest, rfl, hgap, hw, hrest, hwords⟩ := exists_of_words_cons h
    by_cases hnil : xs = []
    · subst hnil
      refine ⟨gap ++ w, rest, rfl, ?_, hwords, hw.endsInWord gap, hrest⟩
      rw [hgap.words_append, hw.words_eq]
    · obtain ⟨before, behind, rfl, hbefore, hbehind, hend, hopen⟩ := ih hwords hnil
      -- the cut of the rest begins where the rest does, so the first word stays a word
      have hseam : OpensBlank before := by
        cases before with
        | nil => exact fun c hc => nomatch hc
        | cons b before => exact hrest
      refine ⟨gap ++ w ++ before, behind, ?_, ?_, hbehind, hend.append (gap ++ w), hopen⟩
      · rw [List.append_assoc (gap ++ w)]
      · rw [List.append_assoc, hgap.words_append, words_append hseam, hw.words_eq, hbefore]
        rfl

/-- The first character is no blank. -/
def OpensInWord (cs : List Char) : Prop := ∃ c rest, cs = c :: rest ∧ isBlank c = false

/-- A part of a text that reaches from its first word to the last of `front`, with the words `back`
behind it. -/
def Spans (cs part : List Char) (front back : List (List Char)) : Prop :=
  ∃ before behind, cs = before ++ part ++ behind ∧ IsGap before ∧ OpensBlank behind ∧
    OpensInWord part ∧ EndsInWord part ∧ words part = front ∧ words behind = back

theorem exists_spans {cs : List Char} {front back : List (List Char)}
    (h : words cs = front ++ back) (hfront : front ≠ []) : ∃ part, Spans cs part front back := by
  obtain ⟨w, ws, rfl⟩ := List.exists_cons_of_ne_nil hfront
  obtain ⟨gap, rest, rfl, hgap, hw, _, _⟩ := exists_of_words_cons h
  -- without the blanks in front, the cut begins where the first word does
  rw [List.append_assoc, hgap.words_append] at h
  obtain ⟨part, behind, hcut, hpart, hbehind, hend, hopen⟩ := exists_of_words_append h hfront
  refine ⟨part, gap, behind, ?_, hgap, hopen, ?_, hend, hpart, hbehind⟩
  · rw [List.append_assoc, List.append_assoc, hcut]
  · obtain ⟨c, w, rfl⟩ := List.exists_cons_of_ne_nil hw.1
    cases part with
    | nil => exact absurd hend fun he => he.not_isGap fun _ hm => nomatch hm
    | cons d part =>
      obtain ⟨rfl, _⟩ := List.cons.inj hcut
      exact ⟨c, part, rfl, hw.2 c List.mem_cons_self⟩

end AqlQuery.Text

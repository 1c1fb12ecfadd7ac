import AqlQuery.Proofs.Column.Parts
import AqlQuery.Proofs.Text.Words

/-!
# The label of a column

The label is searched for by trying one end of the expression after the other. What is found
depends on the last two words of the text only: the last one is a label if the one before it is
`as`. An `as` further in front belongs to the expression, with the blanks around it.
-/

namespace AqlQuery

open Text

theorem Collection.bareName_of_isGap {gap : List Char} (hgap : IsGap gap) :
    bareName (String.ofList gap) = "" := by
  have htrim : trim (String.ofList gap) = "" := by
    rw [trim, strip, String.toList_ofList, stripChars, dropWhile_of_all hgap]
    rfl
  rw [bareName, htrim]
  rfl

namespace ColumnRef

/-- The spellings of the word before a label; the long s is an `s` too. -/
def keywords : List (List Char) :=
  [['a', 's'], ['a', 'S'], ['a', 'ſ'], ['A', 's'], ['A', 'S'], ['A', 'ſ']]

theorem mem_keywords_iff {w : List Char} :
    w ∈ keywords ↔ ∃ a s, w = [a, s] ∧ isA a = true ∧ isS s = true := by
  constructor
  · intro hw
    simp only [keywords, List.mem_cons, List.not_mem_nil, or_false] at hw
    rcases hw with rfl | rfl | rfl | rfl | rfl | rfl <;> exact ⟨_, _, rfl, rfl, rfl⟩
  · rintro ⟨a, s, rfl, ha, hs⟩
    simp only [isA, isS, Bool.or_eq_true, beq_iff_eq] at ha hs
    rcases ha with rfl | rfl <;> rcases hs with (rfl | rfl) | rfl <;> decide

theorem isWord_of_mem_keywords {w : List Char} (hw : w ∈ keywords) : IsWord w := by
  simp only [keywords, List.mem_cons, List.not_mem_nil, or_false] at hw
  rcases hw with rfl | rfl | rfl | rfl | rfl | rfl <;>
    exact ⟨List.cons_ne_nil _ _,
      List.forall_mem_cons.mpr ⟨rfl, List.forall_mem_singleton.mpr rfl⟩⟩

/-! ## The text behind an expression -/

theorem labelTail?_spelled {gap keyword gap' word after : List Char} (hgap : IsGap gap)
    (hne : gap ≠ []) (hkeyword : keyword ∈ keywords) (hgap' : IsGap gap') (hne' : gap' ≠ [])
    (hword : IsWord word) (hafter : IsGap after) :
    labelTail? (gap ++ (keyword ++ (gap' ++ (word ++ after)))) = some word := by
  have hdrop := dropWhile_gap hgap (isWord_of_mem_keywords hkeyword) (gap' ++ (word ++ after))
  obtain ⟨a, s, rfl, ha, hs⟩ := mem_keywords_iff.mp hkeyword
  obtain ⟨b, gap, rfl⟩ := List.exists_cons_of_ne_nil hne
  obtain ⟨b', gap', rfl⟩ := List.exists_cons_of_ne_nil hne'
  have hb : isBlank b = true := hgap b List.mem_cons_self
  have hb' : isBlank b' = true := hgap' b' List.mem_cons_self
  have hstart := dropWhile_gap (fun c hc => hgap' c (List.mem_cons_of_mem b' hc)) hword after
  have htake := takeWhile_word hword hafter.opensBlank
  rw [List.cons_append] at hdrop ⊢
  rw [labelTail?, if_pos hb, hdrop]
  simp only [List.cons_append, List.nil_append, ha, hs, hb', Bool.and_self, if_true, hstart, htake,
    List.drop_left, List.isEmpty_eq_false_iff.mpr hword.1, Bool.false_eq_true, if_false,
    List.all_eq_true.mpr hafter]

theorem exists_of_labelTail? {cs word : List Char} (h : labelTail? cs = some word) :
    ∃ gap keyword gap' after, cs = gap ++ (keyword ++ (gap' ++ (word ++ after))) ∧
      IsGap gap ∧ gap ≠ [] ∧ keyword ∈ keywords ∧ IsGap gap' ∧ gap' ≠ [] ∧ IsWord word ∧
      IsGap after := by
  unfold labelTail? at h
  split at h
  next => cases h
  next c rest =>
    split at h
    next hc =>
      split at h
      next a s b tail hd =>
        split at h
        next hkeyword =>
          simp only [Bool.and_eq_true] at hkeyword
          obtain ⟨⟨ha, hs⟩, hb⟩ := hkeyword
          simp only at h
          generalize hstart : tail.dropWhile isBlank = start at h
          split at h
          next => cases h
          next hne =>
            split at h
            next hall =>
              cases h
              refine ⟨(c :: rest).takeWhile isBlank, [a, s], b :: tail.takeWhile isBlank,
                start.drop (start.takeWhile fun c => !isBlank c).length, ?_, isGap_takeWhile _,
                ?_, mem_keywords_iff.mpr ⟨a, s, rfl, ha, hs⟩, ?_, List.cons_ne_nil _ _, ⟨?_, ?_⟩,
                List.all_eq_true.mp hall⟩
              · -- each run is followed by what is left behind it
                have hword : (start.takeWhile fun c => !isBlank c) ++
                    start.drop (start.takeWhile fun c => !isBlank c).length = start := by
                  rw [← List.prefix_iff_eq_append]
                  exact List.takeWhile_prefix _
                rw [hword, ← hstart]
                simp only [List.cons_append, List.nil_append, List.takeWhile_append_dropWhile]
                rw [← hd, List.takeWhile_append_dropWhile]
              · rw [List.takeWhile_cons_of_pos hc]
                exact List.cons_ne_nil _ _
              · exact List.forall_mem_cons.mpr ⟨hb, isGap_takeWhile tail⟩
              · simpa using hne
              · intro d hm
                simpa using List.all_eq_true.mp List.all_takeWhile d hm
            next => cases h
        next => cases h
      next => cases h
    next => cases h

/-- A label follows where a blank begins a text of two words, of which the first is `as`. -/
theorem labelTail?_eq_some_iff {cs word : List Char} :
    labelTail? cs = some word ↔
      OpensBlank cs ∧ ∃ keyword ∈ keywords, words cs = [keyword, word] := by
  constructor
  · intro h
    obtain ⟨gap, keyword, gap', after, rfl, hgap, hne, hkeyword, hgap', hne', hword, hafter⟩ :=
      exists_of_labelTail? h
    have hkey := isWord_of_mem_keywords hkeyword
    obtain ⟨b, gap, rfl⟩ := List.exists_cons_of_ne_nil hne
    obtain ⟨b', gap', rfl⟩ := List.exists_cons_of_ne_nil hne'
    have hopen : OpensBlank (b' :: gap' ++ (word ++ after)) := by
      intro c hc
      cases hc
      exact hgap' b' List.mem_cons_self
    refine ⟨fun c hc => ?_, keyword, hkeyword, ?_⟩
    · cases hc
      exact hgap b List.mem_cons_self
    · rw [hgap.words_append, words_append hopen, hkey.words_eq, hgap'.words_append,
        words_append hafter.opensBlank, hword.words_eq, hafter.words_eq]
      rfl
  · rintro ⟨hopen, keyword, hkeyword, hwords⟩
    obtain ⟨gap, behind, rfl, hgap, hkey, hbehind, hlast⟩ := exists_of_words_cons hwords
    obtain ⟨gap', after, rfl, hgap', hword, _, hafter⟩ := exists_of_words_cons hlast
    have hfound := labelTail?_spelled hgap (ne_nil_of_opensBlank hkey hopen) hkeyword hgap'
      (ne_nil_of_opensBlank hword hbehind) hword (isGap_of_words hafter)
    simpa only [List.append_assoc] using hfound

/-! ## The search for the expression -/

theorem exists_of_shortestExpression? {cs expression label : List Char}
    (h : shortestExpression? cs = some (expression, label)) :
    ∃ rest, cs = expression ++ rest ∧ expression ≠ [] ∧ labelTail? rest = some label := by
  induction cs generalizing expression with
  | nil => cases h
  | cons c cs ih =>
    rw [shortestExpression?] at h
    split at h
    next => cases h
    next =>
      split at h
      next found hfound =>
        cases h
        exact ⟨cs, rfl, List.cons_ne_nil _ _, hfound⟩
      next =>
        obtain ⟨⟨e, l⟩, he, heq⟩ := Option.map_eq_some_iff.mp h
        cases heq
        obtain ⟨rest, rfl, _, hrest⟩ := ih he
        exact ⟨rest, rfl, List.cons_ne_nil _ _, hrest⟩

/-- A beginning that a label follows is found, or a shorter one. -/
theorem isSome_shortestExpression? {expression rest : List Char} (hne : expression ≠ [])
    (hline : '\n' ∉ expression) (hrest : (labelTail? rest).isSome = true) :
    (shortestExpression? (expression ++ rest)).isSome = true := by
  induction expression with
  | nil => exact absurd rfl hne
  | cons c expression ih =>
    have hc : c ≠ '\n' := fun he => hline (he ▸ List.mem_cons_self)
    rw [List.cons_append, shortestExpression?, if_neg hc]
    cases hl : labelTail? (expression ++ rest) with
    | some found => rfl
    | none =>
      have hmore : expression ≠ [] := by
        rintro rfl
        rw [List.nil_append] at hl
        rw [hl] at hrest
        cases hrest
      simp only [Option.isSome_map]
      exact ih hmore fun hm => hline (List.mem_cons_of_mem c hm)

/-- An expression that ends in a word is found as it is: cut shorter, three words or more would
follow. -/
theorem shortestExpression?_of_endsInWord {part rest label : List Char} (hend : EndsInWord part)
    (hline : '\n' ∉ part) (hrest : labelTail? rest = some label) :
    shortestExpression? (part ++ rest) = some (part, label) := by
  induction part with
  | nil =>
    obtain ⟨init, c, he, _⟩ := hend
    exact absurd he.symm (List.concat_ne_nil c init)
  | cons c part ih =>
    have hc : c ≠ '\n' := fun he => hline (he ▸ List.mem_cons_self)
    rw [List.cons_append, shortestExpression?, if_neg hc]
    by_cases hnil : part = []
    · subst hnil
      rw [List.nil_append, hrest]
    · have htail : EndsInWord part := by
        obtain ⟨init, d, he, hd⟩ := hend
        cases init with
        | nil => exact absurd (List.cons.inj he).2 hnil
        | cons _ init => exact ⟨init, d, (List.cons.inj he).2, hd⟩
      have hnone : labelTail? (part ++ rest) = none := by
        rw [Option.eq_none_iff_forall_ne_some]
        intro word hword
        obtain ⟨hopen, _, _, hlast⟩ := labelTail?_eq_some_iff.mp hrest
        obtain ⟨_, _, _, hwords⟩ := labelTail?_eq_some_iff.mp hword
        rw [words_append hopen, hlast] at hwords
        have hlength := congrArg List.length hwords
        have hpart : words part ≠ [] := fun h => htail.not_isGap (isGap_of_words h)
        have hpos := List.length_pos_iff.mpr hpart
        rw [List.length_append] at hlength
        simp only [List.length_cons, List.length_nil] at hlength
        omega
      rw [hnone, ih htail fun hm => hline (List.mem_cons_of_mem c hm)]
      rfl

theorem exists_of_splitLabel? {cs expression label : List Char}
    (h : splitLabel? cs = some (expression, label)) :
    ∃ before rest, cs = before ++ expression ++ rest ∧ IsGap before ∧ expression ≠ [] ∧
      labelTail? rest = some label := by
  induction cs with
  | nil => cases h
  | cons c cs ih =>
    have hshortest (hs : shortestExpression? (c :: cs) = some (expression, label)) :
        ∃ before rest, c :: cs = before ++ expression ++ rest ∧ IsGap before ∧
          expression ≠ [] ∧ labelTail? rest = some label := by
      obtain ⟨rest, he, hne, hrest⟩ := exists_of_shortestExpression? hs
      exact ⟨[], rest, he, fun _ hm => (nomatch hm), hne, hrest⟩
    rw [splitLabel?] at h
    split at h
    next hc =>
      split at h
      next found hfound =>
        cases h
        obtain ⟨before, rest, rfl, hgap, hne, hrest⟩ := ih hfound
        exact ⟨c :: before, rest, rfl, List.forall_mem_cons.mpr ⟨hc, hgap⟩, hne, hrest⟩
      next => exact hshortest h
    next => exact hshortest h

/-- Blanks in front of a text with a label are left out. -/
theorem splitLabel?_gap {gap cs : List Char} {found : List Char × List Char} (hgap : IsGap gap)
    (h : splitLabel? cs = some found) : splitLabel? (gap ++ cs) = some found := by
  induction gap with
  | nil => exact h
  | cons b gap ih =>
    have hrest := ih fun c hc => hgap c (List.mem_cons_of_mem b hc)
    rw [List.cons_append, splitLabel?, if_pos (hgap b List.mem_cons_self), hrest]

/-- The label is the last word, and the word before it is `as`; the words of the expression come
before these two. -/
theorem words_of_splitLabel? {cs expression label : List Char}
    (h : splitLabel? cs = some (expression, label)) :
    ∃ keyword ∈ keywords, words cs = words expression ++ [keyword, label] := by
  obtain ⟨before, rest, rfl, hgap, _, hrest⟩ := exists_of_splitLabel? h
  obtain ⟨hopen, keyword, hkeyword, hlast⟩ := labelTail?_eq_some_iff.mp hrest
  refine ⟨keyword, hkeyword, ?_⟩
  rw [List.append_assoc, hgap.words_append, words_append hopen, hlast]

/-- Of a text of two words there is none left for the expression. -/
theorem isGap_of_splitLabel? {cs keyword label expression found : List Char}
    (h : words cs = [keyword, label]) (hfound : splitLabel? cs = some (expression, found)) :
    IsGap expression ∧ found = label := by
  obtain ⟨keyword', _, hwords⟩ := words_of_splitLabel? hfound
  rw [h] at hwords
  have hnone : words expression = [] := by
    have hlength := congrArg List.length hwords
    rw [List.length_append] at hlength
    simp only [List.length_cons, List.length_nil] at hlength
    exact List.eq_nil_of_length_eq_zero (by omega)
  rw [hnone] at hwords
  cases hwords
  exact ⟨isGap_of_words hnone, rfl⟩

/-- Behind an `as` that is not the first word, the last word is the label of the part before. -/
theorem splitLabel?_of_spans {cs part keyword label : List Char} {front : List (List Char)}
    (h : Spans cs part front [keyword, label]) (hkeyword : keyword ∈ keywords)
    (hline : '\n' ∉ cs) : splitLabel? cs = some (part, label) := by
  obtain ⟨before, behind, rfl, hgap, hopen, ⟨c, rest, rfl, hc⟩, hend, _, hlast⟩ := h
  have htail : labelTail? behind = some label :=
    labelTail?_eq_some_iff.mpr ⟨hopen, keyword, hkeyword, hlast⟩
  have hpart : '\n' ∉ c :: rest :=
    fun hm => hline (List.mem_append_left _ (List.mem_append_right _ hm))
  have hfound := shortestExpression?_of_endsInWord hend hpart htail
  rw [List.append_assoc]
  apply splitLabel?_gap hgap
  rw [List.cons_append, splitLabel?, if_neg (by simp [hc])]
  exact hfound

theorem isSome_splitLabel? {expression rest : List Char} (hne : expression ≠ [])
    (hline : '\n' ∉ expression) (hrest : (labelTail? rest).isSome = true) :
    (splitLabel? (expression ++ rest)).isSome = true := by
  have hshortest := isSome_shortestExpression? hne hline hrest
  obtain ⟨c, expression, rfl⟩ := List.exists_cons_of_ne_nil hne
  rw [List.cons_append] at hshortest ⊢
  rw [splitLabel?]
  split
  · split
    · rfl
    · exact hshortest
  · exact hshortest

/-- With nothing but blanks before the `as`, one of them is taken for the expression if another one
is left to follow it. -/
theorem isSome_splitLabel?_iff {cs keyword label : List Char} (h : words cs = [keyword, label])
    (hkeyword : keyword ∈ keywords) (hline : '\n' ∉ cs) :
    (splitLabel? cs).isSome = true ↔ 2 ≤ (cs.takeWhile isBlank).length := by
  constructor
  · intro hsome
    obtain ⟨⟨expression, found⟩, hfound⟩ := Option.isSome_iff_exists.mp hsome
    have hblank := (isGap_of_splitLabel? h hfound).1
    obtain ⟨before, rest, rfl, hgap, hne, hrest⟩ := exists_of_splitLabel? hfound
    -- the expression has no word, and a blank has to stand between it and the `as`
    obtain ⟨gap, _, _, _, rfl, hgap', hne', _⟩ := exists_of_labelTail? hrest
    have hall : ∀ c ∈ before ++ expression ++ gap, isBlank c = true := by
      intro c hc
      rcases List.mem_append.mp hc with hc | hc
      · rcases List.mem_append.mp hc with hc | hc
        · exact hgap c hc
        · exact hblank c hc
      · exact hgap' c hc
    have hpos := List.length_pos_iff.mpr hne
    have hpos' := List.length_pos_iff.mpr hne'
    rw [← List.append_assoc, List.takeWhile_append_of_pos hall]
    simp only [List.length_append]
    omega
  · intro hlength
    obtain ⟨gap, behind, rfl, hgap, hkey, hopen, hlast⟩ := exists_of_words_cons h
    rw [List.append_assoc] at hlength hline ⊢
    rw [takeWhile_gap hgap hkey] at hlength
    -- the last blank before the `as` follows the expression, and the others are enough for it
    rcases List.eq_nil_or_concat gap with rfl | ⟨front, b, rfl⟩
    · cases hlength
    simp only [List.concat_eq_append, List.length_append, List.length_singleton] at *
    have hb : isBlank b = true := hgap b (List.mem_append_right front List.mem_cons_self)
    have hfront : front ≠ [] := List.length_pos_iff.mp (by omega)
    have htail : labelTail? (b :: (keyword ++ behind)) = some label := by
      refine labelTail?_eq_some_iff.mpr ⟨fun c hc => ?_, keyword, hkeyword, ?_⟩
      · cases hc
        exact hb
      · rw [words_cons hb, words_append hopen, hkey.words_eq, hlast]
        rfl
    have hsome := isSome_splitLabel? hfront (fun hm => hline (by simp [hm])) (by rw [htail]; rfl)
    rw [List.append_assoc]
    exact hsome

/-! ## Expression and label -/

/-- What an expression and a label are read as: the text before the first point is the qualifier,
all of them without blanks and backticks around. -/
inductive ReadsAs : List Char → Option (List Char) → ColumnRef → Prop
  | bare {part : List Char} {label : Option (List Char)} (h : '.' ∉ part) :
    ReadsAs part label
      ⟨none, Collection.bareName (String.ofList part),
        label.map fun cs => Collection.bareName (String.ofList cs)⟩
  | qualified {qualifier column : List Char} {label : Option (List Char)} (h : '.' ∉ qualifier) :
    ReadsAs (qualifier ++ '.' :: column) label
      ⟨some (Collection.bareName (String.ofList qualifier)),
        Collection.bareName (String.ofList column),
        label.map fun cs => Collection.bareName (String.ofList cs)⟩

theorem splitPoint_of_not_mem {cs : List Char} (h : '.' ∉ cs) : splitPoint cs = (none, cs) := by
  have hall : ∀ c ∈ cs, decide (c ≠ '.') = true :=
    fun c hc => decide_eq_true fun he => h (he ▸ hc)
  rw [splitPoint, dropWhile_of_all hall]

theorem readsAs_parse {raw : String} {part : List Char} {label : Option (List Char)}
    (h : splitText raw = (part, label)) : ReadsAs part label (parse raw) := by
  rw [parse_eq, h]
  by_cases hpoint : '.' ∈ part
  · obtain ⟨qualifier, column, rfl, hq⟩ := List.eq_append_cons_of_mem hpoint
    rw [splitPoint_append hq]
    exact .qualified hq
  · rw [splitPoint_of_not_mem hpoint]
    exact .bare hpoint

theorem splitText_of_some {raw : String} {part label : List Char}
    (h : splitLabel? raw.toList = some (part, label)) : splitText raw = (part, some label) := by
  rw [splitText, h]

theorem splitText_of_none {raw : String} (h : splitLabel? raw.toList = none) :
    splitText raw = (raw.toList, none) := by
  rw [splitText, h]

/-- The last two words of a text without line breaks decide how it is read. If the first of them is
`as` and not the first word of all, the other one is the label, and the text from the first word to
the last one before them is the expression. Unless it is `as`, there is no label and the whole text
is the expression. With nothing but blanks before the `as`, the column is empty if they are two or
more, and there is no label otherwise. -/
theorem parse_by_last_words {raw : String} (hline : '\n' ∉ raw.toList) :
    (∀ front keyword label, words raw.toList = front ++ [keyword, label] → front ≠ [] →
      keyword ∈ keywords → ∃ part, Spans raw.toList part front [keyword, label] ∧
        ReadsAs part (some label) (parse raw)) ∧
    ((∀ front keyword label, words raw.toList = front ++ [keyword, label] → keyword ∉ keywords) →
      ReadsAs raw.toList none (parse raw)) ∧
    ∀ keyword label, words raw.toList = [keyword, label] → keyword ∈ keywords →
      if 2 ≤ (raw.toList.takeWhile isBlank).length then
        parse raw = ⟨none, "", some (Collection.bareName (String.ofList label))⟩
      else ReadsAs raw.toList none (parse raw) := by
  refine ⟨?_, ?_, ?_⟩
  · intro front keyword label hwords hfront hkeyword
    obtain ⟨part, hpart⟩ := exists_spans hwords hfront
    have hsplit := splitText_of_some (splitLabel?_of_spans hpart hkeyword hline)
    exact ⟨part, hpart, readsAs_parse hsplit⟩
  · intro hnone
    have hsplit : splitLabel? raw.toList = none := by
      rw [Option.eq_none_iff_forall_ne_some]
      rintro ⟨expression, label⟩ hfound
      obtain ⟨keyword, hkeyword, hwords⟩ := words_of_splitLabel? hfound
      exact hnone _ keyword label hwords hkeyword
    exact readsAs_parse (splitText_of_none hsplit)
  · intro keyword label hwords hkeyword
    have hiff := isSome_splitLabel?_iff hwords hkeyword hline
    split
    next hlength =>
      obtain ⟨⟨expression, found⟩, hfound⟩ := Option.isSome_iff_exists.mp (hiff.mpr hlength)
      obtain ⟨hgap, rfl⟩ := isGap_of_splitLabel? hwords hfound
      have hpoint : '.' ∉ expression := by
        intro hm
        exact absurd (hgap '.' hm) (by decide)
      rw [parse_eq, splitText_of_some hfound, splitPoint_of_not_mem hpoint]
      simp only [Option.map_none, Option.map_some, Collection.bareName_of_isGap hgap]
    next hlength =>
      have hsplit : splitLabel? raw.toList = none := by
        rw [← Option.not_isSome_iff_eq_none]
        exact fun hsome => hlength (hiff.mp hsome)
      exact readsAs_parse (splitText_of_none hsplit)

/-- A column whose expression and label have an `as` and a point of their own. -/
def manyWords : String := " u.x as  y\tAS aſ \x60n.as\x60 "

theorem parse_by_last_words_many :
    '\n' ∉ manyWords.toList ∧
      ∃ part, Spans manyWords.toList part
          [['u', '.', 'x'], ['a', 's'], ['y'], ['A', 'S']] [['a', 'ſ'], "\x60n.as\x60".toList] ∧
        ReadsAs part (some "\x60n.as\x60".toList) (parse manyWords) :=
  ⟨by decide, (parse_by_last_words (by decide)).1 _ _ _ (by decide) (by decide) (by decide)⟩

example : parse "u.x as  y AS\taſ n.as" = ⟨some "u", "x as  y AS", some "n.as"⟩ ∧
    parse "  as b" = ⟨none, "", some "b"⟩ ∧ parse " as b" = ⟨none, "as b", none⟩ := by
  decide

end ColumnRef

end AqlQuery

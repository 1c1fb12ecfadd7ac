import Mathlib.Data.List.TakeWhile
import AqlQuery.Cursor.Url
import AqlQuery.Proofs.Column.Wrapping

/-!
# Addresses under one another

A further segment behind an address changes the path that is asked for, and not whom the request
goes to. A segment of plain characters stands at the end of that path as it is.
-/

namespace AqlQuery.Url

/-! ## Characters that count -/

theorem filter_not_isIgnored {cs : List Char} (h : ∀ c ∈ cs, isEdge c = false) :
    cs.filter (!isIgnored ·) = cs := by
  refine List.filter_eq_self.mpr fun c hc => ?_
  rw [Bool.not_eq_true', Bool.eq_false_iff]
  intro hignored
  -- tabs and line ends are among the characters that do not count at the ends
  have hedge : isEdge c = true := by
    simp only [isIgnored, Bool.or_eq_true, beq_iff_eq] at hignored
    rcases hignored with (rfl | rfl) | rfl <;> decide
  exact absurd hedge (by rw [h c hc]; exact Bool.false_ne_true)

theorem stripChars_of_visible {cs : List Char} (h : ∀ c ∈ cs, isEdge c = false) :
    Text.stripChars isEdge cs = cs :=
  Text.stripChars_eq_self (fun c hc => h c (List.mem_of_mem_head? hc))
    (fun c hc => h c (List.mem_of_mem_getLast? hc))

/-- What stands before characters that count is told apart from what stands behind them. -/
theorem significant_around {address : String} {front core back : List Char}
    (haddress : address.toList = front ++ core ++ back) (hne : core ≠ [])
    (hvisible : ∀ c ∈ core, isEdge c = false) :
    significant address = (front.dropWhile isEdge).filter (!isIgnored ·) ++ core ++
      ((back.reverse.dropWhile isEdge).reverse).filter (!isIgnored ·) := by
  rw [significant, haddress, Text.stripChars_around hne (stripChars_of_visible hvisible),
    List.filter_append, List.filter_append, filter_not_isIgnored hvisible]

/-- Characters that count at the end of an address all stay. -/
theorem significant_of_visible {address : String} {front tail : List Char}
    (haddress : address.toList = front ++ tail) (hne : tail ≠ [])
    (hvisible : ∀ c ∈ tail, isEdge c = false) :
    significant address = (front.dropWhile isEdge).filter (!isIgnored ·) ++ tail := by
  have haround := @significant_around address front tail [] (by rw [haddress, List.append_nil]) hne
    hvisible
  exact haround.trans (List.append_nil _)

theorem significant_append {address : String} {front : List Char} {c : Char}
    (haddress : address.toList = front ++ [c]) (hc : isEdge c = false) (segment : String) :
    ∃ tail, significant (address ++ ("/" ++ segment)) = significant address ++ '/' :: tail := by
  have hvisible : ∀ d ∈ [c, '/'], isEdge d = false :=
    List.forall_mem_cons.mpr ⟨hc, List.forall_mem_singleton.mpr (by decide)⟩
  have hlist : (address ++ ("/" ++ segment)).toList = front ++ [c, '/'] ++ segment.toList := by
    simp [String.toList_append, haddress]
  refine ⟨((segment.toList.reverse.dropWhile isEdge).reverse).filter (!isIgnored ·), ?_⟩
  rw [significant_around hlist (List.cons_ne_nil _ _) hvisible,
    significant_of_visible haddress (List.cons_ne_nil _ _) (List.forall_mem_singleton.mpr hc)]
  simp only [List.append_assoc, List.cons_append, List.nil_append]

/-! ## Scheme and authority -/

theorem scheme?_append {cs scheme rest : List Char} (h : scheme? cs = some (scheme, rest))
    (more : List Char) : scheme? (cs ++ more) = some (scheme, rest ++ more) := by
  simp only [scheme?] at h ⊢
  have hname : (cs ++ more).takeWhile (· != ':') = cs.takeWhile (· != ':') := by
    rw [List.takeWhile_append]
    split
    next hall =>
      -- a text without a colon has no scheme
      simp only [hall, List.drop_length] at h
      cases h
    next => rfl
  rw [hname]
  have hle : (cs.takeWhile (· != ':')).length ≤ cs.length :=
    (List.takeWhile_prefix _).length_le
  rw [List.drop_append_of_le_length hle]
  cases hd : cs.drop (cs.takeWhile (· != ':')).length with
  | nil =>
    rw [hd] at h
    cases h
  | cons colon after =>
    rw [hd] at h
    cases h
    rfl

theorem authorityOf_append_slash (rest more : List Char) :
    authorityOf ((rest ++ '/' :: more).takeWhile (· != '#')) =
      authorityOf (rest.takeWhile (· != '#')) := by
  rw [List.takeWhile_append]
  split
  next hall =>
    have hfull : rest.takeWhile (· != '#') = rest :=
      (List.takeWhile_prefix _).eq_of_length hall
    rw [hfull, authorityOf, List.takeWhile_append, authorityOf]
    split
    next hend =>
      have hplain : rest.takeWhile (fun c => !isSlash c && c != '?') = rest :=
        (List.takeWhile_prefix _).eq_of_length hend
      rw [hplain]
      simp [isSlash]
    next => rfl
  next => rfl

theorem authorityOf_of_targetAfter? {secure : Bool} {rest : List Char} {target : Target}
    (h : targetAfter? secure rest = some target) :
    authorityOf rest ≠ [] ∧ target.secure = secure ∧
      target.authority = String.ofList (authorityOf rest) := by
  unfold targetAfter? at h
  simp only at h
  split at h
  · cases h
  next hne =>
    cases h
    exact ⟨fun hnil => hne (by rw [hnil]; rfl), rfl, rfl⟩

theorem exists_targetAfter? {secure : Bool} {rest : List Char} (h : authorityOf rest ≠ []) :
    ∃ path, targetAfter? secure rest = some ⟨secure, String.ofList (authorityOf rest), path⟩ := by
  have hne : ¬(authorityOf rest).isEmpty = true := by rwa [List.isEmpty_iff]
  simp only [targetAfter?, if_neg hne]
  exact ⟨_, rfl⟩

/-- A segment behind an address that does not end in a blank leaves the authority as it is. -/
theorem target?_append_segment {address : String} {target : Target} {xs : List Char} {c : Char}
    (h : target? address = some target) (haddress : address.toList = xs ++ [c])
    (hc : isEdge c = false) (segment : String) :
    ∃ path, target? (address ++ ("/" ++ segment)) =
      some ⟨target.secure, target.authority, path⟩ := by
  obtain ⟨tail, htail⟩ := significant_append haddress hc segment
  unfold target? at h ⊢
  obtain ⟨⟨scheme, rest⟩, hscheme, h⟩ := Option.bind_eq_some_iff.mp h
  rw [htail, scheme?_append hscheme]
  simp only [Option.bind_eq_bind, Option.bind_some] at h ⊢
  split at h
  next hhttp =>
    obtain ⟨hne, hsecure, hauthority⟩ := authorityOf_of_targetAfter? h
    rw [if_pos hhttp, hsecure, hauthority]
    -- something other than slashes follows the scheme, or there would be no authority
    have hbody : rest.dropWhile isSlash ≠ [] := by
      intro hnil
      rw [hnil] at hne
      exact hne rfl
    have hdrop : (rest ++ '/' :: tail).dropWhile isSlash =
        rest.dropWhile isSlash ++ '/' :: tail := by
      rw [List.dropWhile_append, if_neg (by rwa [List.isEmpty_iff])]
    rw [hdrop, ← authorityOf_append_slash _ tail]
    apply exists_targetAfter?
    rw [authorityOf_append_slash]
    exact hne
  next => cases h

/-! ## Plain segments -/

/-- A segment that a path keeps as it is: visible characters that neither divide a path nor are
encoded there, and no dots that stand for a place. -/
structure IsPlain (segment : List Char) : Prop where
  visible : ∀ c ∈ segment, 0x20 < c.toNat ∧ c.toNat < 0x7F
  unreserved : ∀ c ∈ segment, reservedInPath c = false
  whole : ∀ c ∈ segment, isSlash c = false
  notSingleDot : isSingleDot segment = false
  notDoubleDot : isDoubleDot segment = false

instance (segment : List Char) : Decidable (IsPlain segment) :=
  decidable_of_iff
    (segment.all (fun c => decide (0x20 < c.toNat ∧ c.toNat < 0x7F)) = true ∧
      segment.all (fun c => !reservedInPath c) = true ∧
      segment.all (fun c => !isSlash c) = true ∧
      isSingleDot segment = false ∧ isDoubleDot segment = false)
    (by
      simp only [List.all_eq_true, decide_eq_true_eq, Bool.not_eq_true']
      exact ⟨fun ⟨h₁, h₂, h₃, h₄, h₅⟩ => ⟨h₁, h₂, h₃, h₄, h₅⟩,
        fun h => ⟨h.visible, h.unreserved, h.whole, h.notSingleDot, h.notDoubleDot⟩⟩)

/-- No character starts a query or a fragment. -/
structure IsUnmarked (cs : List Char) : Prop where
  noQuery : '?' ∉ cs
  noFragment : '#' ∉ cs

instance (cs : List Char) : Decidable (IsUnmarked cs) :=
  decidable_of_iff ('?' ∉ cs ∧ '#' ∉ cs) ⟨fun h => ⟨h.1, h.2⟩, fun h => ⟨h.noQuery, h.noFragment⟩⟩

theorem isUnmarked_append {xs ys : List Char} :
    IsUnmarked (xs ++ ys) ↔ IsUnmarked xs ∧ IsUnmarked ys := by
  constructor
  · intro h
    exact ⟨⟨fun hm => h.noQuery (List.mem_append_left ys hm),
        fun hm => h.noFragment (List.mem_append_left ys hm)⟩,
      ⟨fun hm => h.noQuery (List.mem_append_right xs hm),
        fun hm => h.noFragment (List.mem_append_right xs hm)⟩⟩
  · intro ⟨hx, hy⟩
    exact ⟨fun hm => (List.mem_append.mp hm).elim hx.noQuery hy.noQuery,
      fun hm => (List.mem_append.mp hm).elim hx.noFragment hy.noFragment⟩

theorem IsPlain.percentEncode_eq {segment : List Char} (h : IsPlain segment) :
    percentEncode reservedInPath segment = segment := by
  have hkept : ∀ c ∈ segment, (if c.toNat ≤ 0x1F || 0x7F ≤ c.toNat || reservedInPath c then
      (Text.utf8 (String.ofList [c])).flatMap percentByte else [c]) = [c] := by
    intro c hc
    obtain ⟨hlow, hhigh⟩ := h.visible c hc
    rw [h.unreserved c hc, if_neg]
    simp only [Bool.or_false, Bool.or_eq_true, decide_eq_true_eq]
    omega
  rw [percentEncode, List.flatMap_def, List.map_congr_left hkept, ← List.flatMap_def,
    List.flatMap_singleton']

theorem segments_ne_nil (path : List Char) : segments path ≠ [] := by
  cases path with
  | nil => exact List.cons_ne_nil _ _
  | cons c rest =>
    rw [segments]
    split
    · exact List.cons_ne_nil _ _
    · split <;> exact List.cons_ne_nil _ _

theorem segments_of_whole {segment : List Char} (h : ∀ c ∈ segment, isSlash c = false) :
    segments segment = [segment] := by
  induction segment with
  | nil => rfl
  | cons c rest ih =>
    rw [segments, h c List.mem_cons_self, ih fun d hd => h d (List.mem_cons_of_mem c hd)]
    rfl

/-- A slash divides the segments before it from those behind it. -/
theorem segments_append_slash (path more : List Char) :
    segments (path ++ '/' :: more) = segments path ++ segments more := by
  induction path with
  | nil => rfl
  | cons c rest ih =>
    rw [List.cons_append, segments, segments, ih]
    split
    · rfl
    · obtain ⟨first, others, hrest⟩ := List.exists_cons_of_ne_nil (segments_ne_nil rest)
      rw [hrest]
      rfl

theorem resolveDots_cons {above rest : List (List Char)} {s : List Char} (hrest : rest ≠ []) :
    resolveDots above (s :: rest) =
      if isDoubleDot s then resolveDots (above.drop 1) rest
      else if isSingleDot s then resolveDots above rest
      else resolveDots (s :: above) rest := by
  cases rest with
  | nil => exact absurd rfl hrest
  | cons t rest =>
    rw [resolveDots]
    exact fun h => absurd h hrest

/-- A plain segment behind a plain segment stays where it is. -/
theorem resolveDots_append_plain {a b : List Char} (ha : IsPlain a) (hb : IsPlain b)
    (above parts : List (List Char)) :
    resolveDots above (parts ++ [a, b]) = resolveDots above (parts ++ [a]) ++ [b] := by
  induction parts generalizing above with
  | nil =>
    rw [List.nil_append, List.nil_append, resolveDots_cons (List.cons_ne_nil b []),
      ha.notDoubleDot, ha.notSingleDot]
    simp only [resolveDots, ha.notDoubleDot, ha.notSingleDot, hb.notDoubleDot, hb.notSingleDot,
      Bool.false_eq_true, if_false, List.reverse_cons]
  | cons s parts ih =>
    rw [List.cons_append, List.cons_append, resolveDots_cons (by simp),
      resolveDots_cons (by simp), ih, ih, ih]
    split
    · rfl
    · split <;> rfl

/-- The path behind the slash that it starts with. -/
theorem encodePath_append_plain {a b : List Char} (ha : IsPlain a) (hb : IsPlain b)
    (path : List Char) :
    encodePath (path ++ '/' :: (a ++ '/' :: b)) = encodePath (path ++ '/' :: a) ++ '/' :: b := by
  have hparts : ∀ parts : List (List Char),
      (resolveDots [] ((parts ++ [a, b]).map (percentEncode reservedInPath))).flatMap ('/' :: ·) =
        (resolveDots [] ((parts ++ [a]).map (percentEncode reservedInPath))).flatMap ('/' :: ·) ++
          '/' :: b := by
    intro parts
    simp only [List.map_append, List.map_cons, List.map_nil, ha.percentEncode_eq,
      hb.percentEncode_eq]
    rw [resolveDots_append_plain ha hb, List.flatMap_append, List.flatMap_singleton]
  have hb' := segments_of_whole hb.whole
  have ha' := segments_of_whole ha.whole
  cases path with
  | nil =>
    have hslash : isSlash '/' = true := by decide
    simp only [List.nil_append, encodePath, hslash, if_true, segments_append_slash, ha', hb']
    exact hparts []
  | cons c rest =>
    simp only [List.cons_append, encodePath]
    split
    · rw [segments_append_slash, segments_append_slash, segments_append_slash, ha', hb']
      exact hparts (segments rest)
    · have hcons (more : List Char) : c :: (rest ++ more) = c :: rest ++ more := rfl
      rw [hcons, hcons, segments_append_slash, segments_append_slash, segments_append_slash, ha',
        hb']
      exact hparts (segments (c :: rest))

/-! ## Plain segments behind an address -/

theorem scheme?_of_notMem {cs : List Char} (h : ':' ∉ cs) : scheme? cs = none := by
  have hname : cs.takeWhile (· != ':') = cs :=
    List.takeWhile_eq_self_iff.mpr fun c hc => bne_iff_ne.mpr fun he => h (he ▸ hc)
  rw [scheme?, hname, List.drop_length]

theorem notMem_of_scheme? {cs : List Char} (h : scheme? cs = none) : ':' ∉ cs := by
  simp only [scheme?] at h
  split at h
  · cases h
  next hdrop =>
    have hle := List.drop_eq_nil_iff.mp hdrop
    have hall : cs.takeWhile (· != ':') = cs :=
      (List.takeWhile_prefix _).eq_of_length_le hle
    intro hcolon
    exact absurd rfl (bne_iff_ne.mp (List.takeWhile_eq_self_iff.mp hall ':' hcolon))

/-- A scheme does not reach into what has no colon. -/
theorem scheme?_of_append {cs more scheme rest : List Char} (hmore : ':' ∉ more)
    (h : scheme? (cs ++ more) = some (scheme, rest)) :
    ∃ after, scheme? cs = some (scheme, after) ∧ rest = after ++ more := by
  cases hcs : scheme? cs with
  | none =>
    rw [scheme?_of_notMem (List.not_mem_append (notMem_of_scheme? hcs) hmore)] at h
    cases h
  | some found =>
    obtain ⟨name, after⟩ := found
    rw [scheme?_append hcs] at h
    cases h
    exact ⟨after, rfl, rfl⟩

/-- Without a question mark, everything behind the authority is the path. -/
theorem targetAfter?_append_slash {secure : Bool} {body path : List Char}
    (hquery : '?' ∉ body ++ '/' :: path) :
    targetAfter? secure (body ++ '/' :: path) =
      if (authorityOf body).isEmpty then none
      else some ⟨secure, String.ofList (authorityOf body),
        String.ofList (encodePath (body.drop (authorityOf body).length ++ '/' :: path))⟩ := by
  have hauthority : authorityOf (body ++ '/' :: path) = authorityOf body := by
    rw [authorityOf, List.takeWhile_append, authorityOf]
    split
    next hall =>
      rw [(List.takeWhile_prefix _).eq_of_length hall]
      simp [isSlash]
    next => rfl
  have hdrop : (body ++ '/' :: path).drop (authorityOf body).length =
      body.drop (authorityOf body).length ++ '/' :: path :=
    List.drop_append_of_le_length (List.takeWhile_prefix _).length_le
  have hpath : (body.drop (authorityOf body).length ++ '/' :: path).takeWhile (· != '?') =
      body.drop (authorityOf body).length ++ '/' :: path := by
    refine List.takeWhile_eq_self_iff.mpr fun c hc => bne_iff_ne.mpr ?_
    rintro rfl
    rw [← hdrop] at hc
    exact hquery (List.mem_of_mem_drop hc)
  simp only [targetAfter?, hauthority, hdrop, hpath, List.drop_length, List.append_nil]

theorem significant_subset (address : String) : significant address ⊆ address.toList :=
  List.Subset.trans (List.filter_sublist.subset) (Text.stripChars_subset _ _)

theorem subset_of_scheme? {cs scheme rest : List Char} (h : scheme? cs = some (scheme, rest)) :
    rest ⊆ cs := by
  simp only [scheme?] at h
  split at h
  next first after hdrop =>
    cases h
    intro c hc
    refine List.mem_of_mem_drop (i := (cs.takeWhile (· != ':')).length) ?_
    rw [hdrop]
    exact List.mem_cons_of_mem first hc
  · cases h

/-- The target behind a scheme, by the authority and the path there. -/
def targetOf? (scheme body path : List Char) : Option Target :=
  if scheme == ['h', 't', 't', 'p', 's'] || scheme == ['h', 't', 't', 'p'] then
    if (authorityOf body).isEmpty then none
    else some ⟨scheme == ['h', 't', 't', 'p', 's'], String.ofList (authorityOf body),
      String.ofList (encodePath (body.drop (authorityOf body).length ++ '/' :: path))⟩
  else none

theorem IsPlain.isEdge_eq {segment : List Char} (h : IsPlain segment) :
    ∀ c ∈ segment, isEdge c = false := by
  intro c hc
  have hlow := (h.visible c hc).1
  exact decide_eq_false (by omega)

theorem IsPlain.isUnmarked {segment : List Char} (h : IsPlain segment) : IsUnmarked segment := by
  constructor
  · intro hm
    exact absurd (h.unreserved '?' hm) (by decide)
  · intro hm
    exact absurd (h.unreserved '#' hm) (by decide)

/-- An address without a query and a fragment, whose path starts behind the character `c` at the
latest. -/
theorem target?_of_path {address : String} {front path scheme after : List Char} {c : Char}
    (haddress : address.toList = front ++ c :: '/' :: path) (hc : isEdge c = false)
    (hslash : isSlash c = false) (hmarks : IsUnmarked address.toList)
    (hpath : ∀ d ∈ path, isEdge d = false)
    (hscheme : scheme? ((front.dropWhile isEdge).filter (!isIgnored ·)) = some (scheme, after)) :
    target? address = targetOf? scheme ((after ++ [c]).dropWhile isSlash) path := by
  have hvisible : ∀ d ∈ c :: '/' :: path, isEdge d = false :=
    List.forall_mem_cons.mpr ⟨hc, List.forall_mem_cons.mpr ⟨by decide, hpath⟩⟩
  have hrest := scheme?_append hscheme (c :: '/' :: path)
  rw [← significant_of_visible haddress (List.cons_ne_nil _ _) hvisible] at hrest
  have hdrop : (after ++ c :: '/' :: path).dropWhile isSlash =
      (after ++ [c]).dropWhile isSlash ++ '/' :: path := by
    rw [List.append_cons, List.dropWhile_append, if_neg]
    rw [List.isEmpty_iff, List.dropWhile_eq_nil_iff]
    intro hall
    exact absurd (hall c (List.mem_append_right _ List.mem_cons_self))
      (by rw [hslash]; exact Bool.false_ne_true)
  have hsubset : (after ++ [c]).dropWhile isSlash ++ '/' :: path ⊆ address.toList := by
    rw [← hdrop]
    exact fun d hd => significant_subset _ (subset_of_scheme? hrest
      ((List.dropWhile_sublist _).subset hd))
  have hwhole : ((after ++ [c]).dropWhile isSlash ++ '/' :: path).takeWhile (· != '#') =
      (after ++ [c]).dropWhile isSlash ++ '/' :: path :=
    List.takeWhile_eq_self_iff.mpr fun d hd => bne_iff_ne.mpr fun he =>
      hmarks.noFragment (he ▸ hsubset hd)
  rw [target?, hrest]
  simp only [Option.bind_eq_bind, Option.bind_some, hdrop, hwhole,
    targetAfter?_append_slash fun hd => hmarks.noQuery (hsubset hd)]
  rfl

/-- A plain segment behind a plain one is added to the path. -/
theorem target?_append_plain {host : String} {target : Target} {front : List Char} {c : Char}
    {a b : String} (hhost : host.toList = front ++ [c]) (hc : isEdge c = false)
    (hslash : isSlash c = false) (hmarks : IsUnmarked host.toList)
    (ha : IsPlain a.toList) (hcolon : ':' ∉ c :: '/' :: a.toList) (hb : IsPlain b.toList)
    (h : target? (host ++ "/" ++ a) = some target) :
    target? (host ++ "/" ++ a ++ "/" ++ b) =
      some ⟨target.secure, target.authority, target.path ++ "/" ++ b⟩ := by
  have hshort : (host ++ "/" ++ a).toList = front ++ c :: '/' :: a.toList := by
    simp [String.toList_append, hhost]
  have hlong : (host ++ "/" ++ a ++ "/" ++ b).toList =
      front ++ c :: '/' :: (a.toList ++ '/' :: b.toList) := by
    simp [String.toList_append, hhost]
  have hclean : IsUnmarked (host ++ "/" ++ a).toList := by
    rw [String.toList_append, String.toList_append]
    exact isUnmarked_append.mpr ⟨isUnmarked_append.mpr ⟨hmarks, by decide⟩, ha.isUnmarked⟩
  have hcleaner : IsUnmarked (host ++ "/" ++ a ++ "/" ++ b).toList := by
    rw [String.toList_append, String.toList_append]
    exact isUnmarked_append.mpr ⟨isUnmarked_append.mpr ⟨hclean, by decide⟩, hb.isUnmarked⟩
  have hedges : ∀ d ∈ a.toList ++ '/' :: b.toList, isEdge d = false :=
    List.forall_mem_append.mpr ⟨ha.isEdge_eq,
      List.forall_mem_cons.mpr ⟨by decide, hb.isEdge_eq⟩⟩
  -- the scheme is found before the two segments, so that both addresses have the same
  obtain ⟨scheme, after, hscheme⟩ : ∃ scheme after,
      scheme? ((front.dropWhile isEdge).filter (!isIgnored ·)) = some (scheme, after) := by
    have hvisible : ∀ d ∈ c :: '/' :: a.toList, isEdge d = false :=
      List.forall_mem_cons.mpr ⟨hc, List.forall_mem_cons.mpr ⟨by decide, ha.isEdge_eq⟩⟩
    unfold target? at h
    obtain ⟨⟨scheme, rest⟩, hfound, _⟩ := Option.bind_eq_some_iff.mp h
    rw [significant_of_visible hshort (List.cons_ne_nil _ _) hvisible] at hfound
    obtain ⟨after, hafter, _⟩ := scheme?_of_append hcolon hfound
    exact ⟨scheme, after, hafter⟩
  rw [target?_of_path hshort hc hslash hclean ha.isEdge_eq hscheme] at h
  rw [target?_of_path hlong hc hslash hcleaner hedges hscheme]
  unfold targetOf? at h ⊢
  split at h
  next hhttp =>
    split at h
    · cases h
    next hauthority =>
      cases h
      have hlast : String.ofList ('/' :: b.toList) = "/" ++ b :=
        String.toList_inj.mp (by simp [String.toList_append])
      rw [if_pos hhttp, if_neg hauthority, encodePath_append_plain ha hb, String.ofList_append,
        hlast, ← String.append_assoc]
  · cases h

end AqlQuery.Url

import Mathlib.Algebra.Group.Nat.Defs
import AqlQuery.Proofs.Cursor.Attempts
import AqlQuery.Proofs.Outcome

/-!
# Waits between attempts

Requests and waits of a session, in their order, are its pace. A request that is repeated paces
itself by attempts with one wait between any two: the first wait is the initial one, and each later
one is the initial one doubled as often as waits came before it, cut at the cap. Only the first wait
can exceed the cap, so that the waits obey it, and ascend, just if the initial one does not. This
goes for any number of rounds, and so for a run that has no end: the failures are counted in a word,
and no count exceeds the greatest one.
-/

namespace AqlQuery.Cursor

variable {α β : Type}

/-! ## The pace of a session -/

/-- Whether an event is a request of the client or a wait. -/
def Event.isPace : Event → Bool
  | .attempted _ => true
  | .waited _ => true
  | _ => false

/-- Requests and waits, in order. -/
def Session.pace (s : Session) : List Event :=
  s.events.filter Event.isPace

/-- In any session, the computation makes these requests and waits. -/
def Paces (x : Exec Session α) (events : List Event) : Prop :=
  ∀ s : Session, (x s).2.pace = s.pace ++ events

namespace Paces

theorem pure (a : α) : Paces (pure a : Exec Session α) [] :=
  fun s => (List.append_nil s.pace).symm

theorem fail (e : ExecError) : Paces (Exec.fail e : Exec Session α) [] :=
  fun s => (List.append_nil s.pace).symm

theorem note (event : Event) : Paces (note event) ([event].filter Event.isPace) :=
  fun s => List.filter_append s.events [event]

theorem log (level : Level) (message : String) : Paces (log level message) [] :=
  note (.logged level message)

/-- What follows makes no requests and does not wait. -/
theorem bind {x : Exec Session α} {f : α → Exec Session β} {events : List Event}
    (hx : Paces x events) (hf : ∀ a, Paces (f a) []) : Paces (x >>= f) events := by
  intro s
  have hs := hx s
  change (Exec.bind x f s).2.pace = _
  unfold Exec.bind
  cases hxs : x s with
  | mk outcome s' =>
    rw [hxs] at hs
    cases outcome with
    | error e => exact hs
    | ok a => exact ((hf a s').trans (List.append_nil _)).trans hs

theorem send (method : Method) (address authorization : String) (body : Option Json) :
    Paces (send method address authorization body)
      [.attempted ⟨method, address, authorization, body⟩] := by
  intro s
  change (s.events ++ Event.attempted _ :: Option.toList _).filter Event.isPace = _
  rw [List.filter_append]
  apply congrArg (s.pace ++ ·)
  -- that a request arrives is no pace of the client
  cases s.server.pathOf? (Url.target? address) <;> rfl

theorem receive (decode : String → Option α) (r : Response) : Paces (receive decode r) [] := by
  unfold Cursor.receive
  split
  · cases decode r.body with
    | some a => exact pure a
    | none => exact (log _ _).bind fun _ => fail _
  · exact (log _ _).bind fun _ => fail _

end Paces

theorem pace_log (level : Level) (message : String) (s : Session) :
    (log level message s).2.pace = s.pace :=
  (Paces.log level message s).trans (List.append_nil s.pace)

/-- The request that removes all documents of a collection. -/
def truncatingAttempt (settings : Settings) (collection : String) : Attempt :=
  ⟨.put, address settings ("collection/" ++ collection ++ "/truncate"), authorization settings,
    none⟩

theorem paces_postStatement (settings : Settings) (statement : Statement) :
    Paces (postStatement settings statement) [.attempted (openingAttempt settings statement)] := by
  rw [openingAttempt, ← address_cursor]
  exact (Paces.send _ _ _ _).bind (Paces.receive batch?)

theorem paces_putTruncate (settings : Settings) (collection : String) :
    Paces (putTruncate settings collection)
      [.attempted (truncatingAttempt settings collection)] :=
  (Paces.send _ _ _ _).bind (Paces.receive _)

/-! ## One round -/

/-- What a round comes to: the request succeeds, it fails for good, or it is to be made again after
a wait. -/
inductive Played (policy : RetryPolicy) (retry : RetrySettings) (request : Exec Session α)
    (round : Round) (s : Session) : Except ExecError (RoundEnd α) × Session → Prop
  | done {a : α} {s' : Session} (ho : (request s).1 = .ok a)
      (hpace : s'.pace = (request s).2.pace) :
      Played policy retry request round s (.ok (.done a), s')
  | failed {e : ExecError} {s' : Session} (ho : (request s).1 = .error e)
      (hlast : policy.allows e = true → retry.maxRetries < round.failures + 1)
      (hpace : s'.pace = (request s).2.pace) :
      Played policy retry request round s (.error e, s')
  | again {s' : Session} (hmore : ¬ retry.maxRetries < round.failures + 1)
      (hpace : s'.pace = (request s).2.pace ++ [.waited round.delay]) :
      Played policy retry request round s (.ok (.again (round.next retry)), s')

theorem played (policy : RetryPolicy) (retry : RetrySettings) (request : Exec Session α)
    (round : Round) (s : Session) :
    Played policy retry request round s (round.play policy retry request s) := by
  unfold Round.play
  change Played _ _ _ _ _ (Exec.bind request.outcome _ s)
  unfold Exec.bind Exec.outcome
  cases ho : (request s).1 with
  | ok a =>
    dsimp only
    split
    · exact .done ho (pace_log _ _ (request s).2)
    · exact .done ho rfl
  | error e =>
    dsimp only
    split
    next hallowed =>
      split
      next hlast => exact .failed ho (fun _ => hlast) (pace_log _ _ (request s).2)
      next hmore =>
        have hlogged := pace_log .warn
          (retryingMessage retry (round.next retry).failures round.delay e) (request s).2
        refine .again hmore ?_
        rw [← hlogged]
        exact Paces.note (.waited round.delay) _
    next hrefused => exact .failed ho (fun hallowed => absurd hallowed hrefused) rfl

/-- A round that no other one follows ends the repetition. -/
theorem attempt_ends {policy : RetryPolicy} {retry : RetrySettings} {request : Exec Session α}
    {round : Round} {s : Session} {made : Attempt} (hrequest : Paces request [.attempted made])
    (hend : ∀ next s', round.play policy retry request s ≠ (.ok (.again next), s')) :
    (round.attempt policy retry request s).2.pace = s.pace ++ [.attempted made] ∧
      (policy.settles (round.attempt policy retry request s).1 = true ∨
        retry.maxRetries < round.failures + 1) := by
  have hplayed := played policy retry request round s
  have hpaced := hrequest s
  rw [Round.attempt]
  cases hplay : round.play policy retry request s with
  | mk outcome s' =>
    rw [hplay] at hplayed
    cases hplayed with
    | done ho hpace => exact ⟨hpace.trans hpaced, Or.inl rfl⟩
    | @failed e _ ho hlast hpace =>
      refine ⟨hpace.trans hpaced, ?_⟩
      cases hallowed : policy.allows e with
      | true => exact Or.inr (hlast hallowed)
      | false =>
        left
        rw [RetryPolicy.settles, hallowed]
        rfl
    | again hmore hpace => exact absurd hplay (hend _ _)

/-! ## A run of rounds -/

/-- One request again and again, each time with a wait behind it. -/
def paused (made : Attempt) (waits : List Nat) : List Event :=
  waits.flatMap fun wait => [.attempted made, .waited wait]

/-- One request again and again, with a wait before each repetition. -/
def paced (made : Attempt) (waits : List Nat) : List Event :=
  paused made waits ++ [.attempted made]

theorem length_paced (made : Attempt) (waits : List Nat) :
    (paced made waits).length = 2 * waits.length + 1 := by
  rw [paced, List.length_append, paused]
  induction waits with
  | nil => rfl
  | cons wait waits ih =>
    simp only [List.flatMap_cons, List.length_append, List.length_cons, List.length_nil] at ih ⊢
    omega

/-- The first `n` waits that start with `delay`. -/
def backoff (cap delay : Nat) : Nat → List Nat
  | 0 => []
  | n + 1 => delay :: (List.range n).map fun j => min (delay * 2 ^ (j + 1)) cap

theorem length_backoff (cap delay n : Nat) : (backoff cap delay n).length = n := by
  cases n with
  | zero => rfl
  | succ n => simp only [backoff, List.length_cons, List.length_map, List.length_range]

/-- A product that is cut, doubled and cut again is cut once. -/
theorem min_double (cap delay j : Nat) :
    min (min (delay * 2) cap * 2 ^ j) cap = min (delay * 2 ^ (j + 1)) cap := by
  have hpow : delay * 2 ^ (j + 1) = delay * 2 * 2 ^ j := by
    rw [pow_succ, Nat.mul_comm (2 ^ j) 2, Nat.mul_assoc]
  rw [hpow]
  by_cases h : delay * 2 ≤ cap
  · rw [Nat.min_eq_left h]
  · have hcut : cap ≤ cap * 2 ^ j := Nat.le_mul_of_pos_right cap (Nat.two_pow_pos j)
    have hfull : cap * 2 ^ j ≤ delay * 2 * 2 ^ j := Nat.mul_le_mul_right _ (by omega)
    rw [Nat.min_eq_right (by omega : cap ≤ delay * 2), Nat.min_eq_right hcut,
      Nat.min_eq_right (Nat.le_trans hcut hfull)]

theorem backoff_succ (cap delay n : Nat) :
    backoff cap delay (n + 1) = delay :: backoff cap (min (delay * 2) cap) n := by
  cases n with
  | zero => rfl
  | succ n =>
    rw [backoff, backoff, List.range_succ_eq_map, List.map_cons, List.map_map]
    refine congrArg₂ (fun x rest => delay :: x :: rest) ?_ (List.map_congr_left fun j _ => ?_)
    · rw [Nat.zero_add, pow_one]
    · exact (min_double cap delay (j + 1)).symm

section Plays

variable {policy : RetryPolicy} {retry : RetrySettings} {request : Exec Session α}

/-- Rounds that are followed by another one start with such a round. -/
theorem plays_succ_again {n : Nat} {round last : Round} {s later : Session}
    (h : round.plays policy retry request (n + 1) s = (.ok (.again last), later)) :
    ∃ next s', round.play policy retry request s = (.ok (.again next), s') ∧
      next.plays policy retry request n s' = (.ok (.again last), later) := by
  change Exec.bind _ _ s = _ at h
  unfold Exec.bind at h
  cases hplay : round.play policy retry request s with
  | mk outcome s' =>
    rw [hplay] at h
    rcases outcome with _ | _ | next
    · cases h
    · cases h
    · exact ⟨next, s', rfl, h⟩

/-- They end with one as well. -/
theorem plays_succ_of_again {n : Nat} {round last : Round} {s later : Session}
    (h : round.plays policy retry request n s = (.ok (.again last), later)) :
    round.plays policy retry request (n + 1) s = last.play policy retry request later := by
  induction n generalizing round s with
  | zero =>
    cases h
    change Exec.bind _ _ later = _
    unfold Exec.bind
    rcases last.play policy retry request later with ⟨_ | _ | _, _⟩ <;> rfl
  | succ n ih =>
    obtain ⟨next, s', hplay, hnext⟩ := plays_succ_again h
    rw [← ih hnext]
    change Exec.bind _ _ s = _
    rw [Exec.bind, hplay]

/-- Each round that was followed by another one made its request, waited and counted. -/
theorem pace_plays {made : Attempt} (hrequest : Paces request [.attempted made]) {n : Nat}
    {round last : Round} {s later : Session}
    (h : round.plays policy retry request n s = (.ok (.again last), later)) :
    later.pace = s.pace ++ paused made (backoff retry.maxBackoffMs.toNat round.delay n) ∧
      last.failures = round.failures + UInt32.ofNat n ∧
      ∀ j < n, ¬ retry.maxRetries < round.failures + UInt32.ofNat (j + 1) := by
  induction n generalizing round s with
  | zero =>
    cases h
    exact ⟨(List.append_nil _).symm, (UInt32.add_zero _).symm, fun j hj => absurd hj (by omega)⟩
  | succ n ih =>
    obtain ⟨next, s', hplay, hnext⟩ := plays_succ_again h
    have hplayed := played policy retry request round s
    rw [hplay] at hplayed
    cases hplayed with
    | again hmore hpace =>
      obtain ⟨hlater, hfailures, hcounts⟩ := ih hnext
      refine ⟨?_, hfailures.trans (add_ofNat_succ round.failures n).symm, fun j hj => ?_⟩
      · rw [hlater, hpace, hrequest s, backoff_succ, List.append_assoc, List.append_assoc]
        rfl
      · cases j with
        | zero => exact hmore
        | succ j =>
          rw [add_ofNat_succ]
          exact hcounts j (by omega)

end Plays

/-! ## What the waits amount to -/

/-- The longest duration, in milliseconds: its seconds fill a word. -/
def longestDuration : Nat := (UInt64.size - 1) * 1000 + 999

/-- The waits of a request that is repeated under these settings. -/
structure BacksOff (retry : RetrySettings) (waits : List Nat) : Prop where
  /-- The first wait is the initial one, whatever the cap. -/
  first : ∀ wait, waits[0]? = some wait → wait = retry.initialBackoffMs.toNat
  /-- Later waits double the initial one and are cut at the cap. -/
  later : ∀ j wait, waits[j + 1]? = some wait →
    wait = min (retry.initialBackoffMs.toNat * 2 ^ (j + 1)) retry.maxBackoffMs.toNat
  /-- From the second one on, they obey the cap and ascend. -/
  capped : ∀ wait ∈ waits.tail, wait ≤ retry.maxBackoffMs.toNat
  ascending : waits.tail.Pairwise (· ≤ ·)
  /-- The first wait is cut like the others just if the cap does not cut it. -/
  uniform_iff : waits ≠ [] →
    ((∀ j wait, waits[j]? = some wait →
        wait = min (retry.initialBackoffMs.toNat * 2 ^ j) retry.maxBackoffMs.toNat) ↔
      retry.initialBackoffMs ≤ retry.maxBackoffMs)
  capped_iff : waits ≠ [] →
    ((∀ wait ∈ waits, wait ≤ retry.maxBackoffMs.toNat) ↔
      retry.initialBackoffMs ≤ retry.maxBackoffMs)
  ascending_iff : 1 < waits.length →
    (waits.Pairwise (· ≤ ·) ↔ retry.initialBackoffMs ≤ retry.maxBackoffMs)
  /-- The double of a wait is still a duration. -/
  doubles : ∀ wait ∈ waits, wait * 2 ≤ longestDuration

section Backoff

variable (cap delay n : Nat)

theorem backoff_tail_le : ∀ wait ∈ (backoff cap delay n).tail, wait ≤ cap := by
  intro wait hw
  cases n with
  | zero => cases hw
  | succ n =>
    obtain ⟨j, _, rfl⟩ := List.mem_map.mp hw
    exact Nat.min_le_right _ _

theorem backoff_tail_pairwise : (backoff cap delay n).tail.Pairwise (· ≤ ·) := by
  cases n with
  | zero => exact List.Pairwise.nil
  | succ n =>
    refine List.pairwise_map.mpr (List.pairwise_lt_range.imp fun {i j} hij => ?_)
    have hpow : 2 ^ (i + 1) ≤ 2 ^ (j + 1) := Nat.pow_le_pow_right (by decide) (by omega)
    have hmul : delay * 2 ^ (i + 1) ≤ delay * 2 ^ (j + 1) := Nat.mul_le_mul_left delay hpow
    omega

variable {cap delay n}

theorem backoff_getElem?_zero {wait : Nat} (h : (backoff cap delay n)[0]? = some wait) :
    wait = delay := by
  cases n with
  | zero => cases h
  | succ n => exact (Option.some.inj h).symm

theorem backoff_getElem?_succ {j wait : Nat} (h : (backoff cap delay n)[j + 1]? = some wait) :
    wait = min (delay * 2 ^ (j + 1)) cap := by
  cases n with
  | zero => cases h
  | succ n =>
    rw [backoff, List.getElem?_cons_succ, List.getElem?_map] at h
    obtain ⟨i, hi, rfl⟩ := Option.map_eq_some_iff.mp h
    obtain ⟨_, rfl⟩ := List.getElem?_eq_some_iff.mp hi
    rw [List.getElem_range]

theorem backoff_uniform_iff (hn : 0 < n) :
    (∀ j wait, (backoff cap delay n)[j]? = some wait → wait = min (delay * 2 ^ j) cap) ↔
      delay ≤ cap := by
  obtain ⟨m, rfl⟩ := Nat.exists_eq_succ_of_ne_zero (Nat.ne_of_gt hn)
  constructor
  · intro h
    have hfirst : delay = min (delay * 2 ^ 0) cap := h 0 delay rfl
    rw [pow_zero, Nat.mul_one] at hfirst
    omega
  · intro h j wait hw
    cases j with
    | zero => rw [backoff_getElem?_zero hw, pow_zero, Nat.mul_one, Nat.min_eq_left h]
    | succ j => exact backoff_getElem?_succ hw

/-- The initial wait is among the waits, and all others obey the cap. -/
theorem backoff_le_iff (hn : 0 < n) :
    (∀ wait ∈ backoff cap delay n, wait ≤ cap) ↔ delay ≤ cap := by
  obtain ⟨m, rfl⟩ := Nat.exists_eq_succ_of_ne_zero (Nat.ne_of_gt hn)
  constructor
  · intro h
    exact h delay List.mem_cons_self
  · intro h wait hw
    rcases List.mem_cons.mp hw with rfl | hw
    · exact h
    · exact backoff_tail_le cap delay (m + 1) wait hw

/-- A cap below the initial wait makes the second wait shorter than the first. -/
theorem backoff_pairwise_iff (hn : 1 < n) :
    (backoff cap delay n).Pairwise (· ≤ ·) ↔ delay ≤ cap := by
  obtain ⟨m, rfl⟩ : ∃ m, n = m + 2 := ⟨n - 2, by omega⟩
  rw [backoff, List.pairwise_cons]
  constructor
  · rintro ⟨hfirst, _⟩
    have hsecond := hfirst _
      (List.mem_map_of_mem (f := fun j => min (delay * 2 ^ (j + 1)) cap)
        (List.mem_range.mpr (Nat.succ_pos m)))
    exact Nat.le_trans hsecond (Nat.min_le_right _ _)
  · intro h
    refine ⟨fun wait hw => ?_, backoff_tail_pairwise cap delay (m + 2)⟩
    obtain ⟨j, _, rfl⟩ := List.mem_map.mp hw
    have hgrown : delay ≤ delay * 2 ^ (j + 1) :=
      Nat.le_mul_of_pos_right delay (Nat.two_pow_pos (j + 1))
    exact Nat.le_min.mpr ⟨hgrown, h⟩

end Backoff

/-- No wait is longer than the initial one and the cap, which are words of milliseconds. -/
theorem backoff_doubles (retry : RetrySettings) (n : Nat) :
    ∀ wait ∈ backoff retry.maxBackoffMs.toNat retry.initialBackoffMs.toNat n,
      wait * 2 ≤ longestDuration := by
  intro wait hw
  have hinitial := retry.initialBackoffMs.toNat_lt
  have hcap := retry.maxBackoffMs.toNat_lt
  have hwait : wait ≤ max retry.initialBackoffMs.toNat retry.maxBackoffMs.toNat := by
    cases n with
    | zero => cases hw
    | succ n =>
      rcases List.mem_cons.mp hw with rfl | hw
      · exact Nat.le_max_left _ _
      · exact Nat.le_trans (backoff_tail_le _ _ (n + 1) wait hw) (Nat.le_max_right _ _)
  rw [longestDuration, show UInt64.size = 2 ^ 64 from rfl]
  omega

theorem backsOff_backoff (retry : RetrySettings) (n : Nat) :
    BacksOff retry (backoff retry.maxBackoffMs.toNat retry.initialBackoffMs.toNat n) where
  first _ := backoff_getElem?_zero
  later _ _ := backoff_getElem?_succ
  capped := backoff_tail_le _ _ n
  ascending := backoff_tail_pairwise _ _ n
  uniform_iff h := by
    rw [UInt64.le_iff_toNat_le]
    exact backoff_uniform_iff (length_backoff _ _ n ▸ List.length_pos_iff.mpr h)
  capped_iff h := by
    rw [UInt64.le_iff_toNat_le]
    exact backoff_le_iff (length_backoff _ _ n ▸ List.length_pos_iff.mpr h)
  ascending_iff h := by
    rw [UInt64.le_iff_toNat_le]
    exact backoff_pairwise_iff (length_backoff _ _ n ▸ h)
  doubles := backoff_doubles retry n

/-- Another attempt of a request is due after `n` rounds, which the session `later` has seen. -/
def Due (policy : RetryPolicy) (retry : RetrySettings) (request : Exec Session α) (s : Session)
    (n : Nat) (round : Round) (later : Session) : Prop :=
  (Round.first retry).plays policy retry request n s = (.ok (.again round), later)

section Repeating

variable {policy : RetryPolicy} {retry : RetrySettings} {request : Exec Session α}
  {s later : Session} {n : Nat} {round : Round}

theorem repeating_of_due (h : Due policy retry request s n round later) :
    repeating policy retry request s = round.attempt policy retry request later := by
  rw [repeating, attempt_eq_plays n]
  change Exec.bind _ _ s = _
  rw [Exec.bind, h]
  rfl

theorem backsOff_of_due {made : Attempt} (hrequest : Paces request [.attempted made])
    (h : Due policy retry request s n round later) :
    ∃ waits, waits.length = n ∧ BacksOff retry waits ∧ later.pace = s.pace ++ paused made waits :=
  ⟨_, length_backoff _ _ n, backsOff_backoff retry n, (pace_plays hrequest h).1⟩

/-- A run in which not every number of attempts is followed by another one has a last one. -/
theorem exists_last_due (h : ¬ ∀ n, ∃ round later, Due policy retry request s n round later) :
    ∃ n round later, Due policy retry request s n round later ∧
      ∀ next s', round.play policy retry request later ≠ (.ok (.again next), s') := by
  by_contra hno
  refine h fun n => ?_
  induction n with
  | zero => exact ⟨_, _, rfl⟩
  | succ n ih =>
    obtain ⟨round, later, hdue⟩ := ih
    by_contra hlast
    refine hno ⟨n, round, later, hdue, fun next s' hplay => hlast ⟨next, s', ?_⟩⟩
    rw [Due, plays_succ_of_again hdue, hplay]

section Word

variable {made : Attempt} (hrequest : Paces request [.attempted made])
include hrequest

theorem le_maxRetries_of_due (hdue : Due policy retry request s n round later)
    (hword : retry.maxRetries.toNat + 1 < UInt32.size) : n ≤ retry.maxRetries.toNat := by
  by_contra hlate
  exact (pace_plays hrequest hdue).2.2 _ (Nat.lt_of_not_le hlate) (maxRetries_lt hword)

/-- A count that exceeds what the settings allow has not started over. -/
theorem eq_maxRetries_of_due (hdue : Due policy retry request s n round later)
    (hlast : retry.maxRetries < round.failures + 1) : n = retry.maxRetries.toNat := by
  have hfailures := (pace_plays hrequest hdue).2.1
  have hcount : retry.maxRetries < 0 + UInt32.ofNat (n + 1) := by
    rw [UInt32.ofNat_add n 1, ← UInt32.add_assoc]
    rw [hfailures] at hlast
    exact hlast
  have hword : retry.maxRetries.toNat + 1 < UInt32.size := by
    have hlt := UInt32.lt_iff_toNat_lt.mp hlast
    have hsize := (round.failures + 1).toNat_lt_size
    omega
  exact eq_maxRetries_of_lt hword (le_maxRetries_of_due hrequest hdue hword) hcount

/-- Only a count that starts over can make another attempt due after any number of them. -/
theorem maxRetries_of_due (h : ∀ n, ∃ round later, Due policy retry request s n round later) :
    retry.maxRetries.toNat + 1 = UInt32.size := by
  obtain ⟨round, later, hdue⟩ := h (retry.maxRetries.toNat + 1)
  by_contra hne
  have hword := Nat.lt_of_le_of_ne retry.maxRetries.toNat_lt hne
  exact absurd (le_maxRetries_of_due hrequest hdue hword) (by omega)

end Word

end Repeating

/-- Whatever the outcomes of a request, its repetitions are made one by one after the waits that
the settings give. Either this goes on for ever, which takes settings that allow as many repetitions
as a word can count, or the last outcome is settled or no repetition is left. -/
theorem repeating_backsOff (policy : RetryPolicy) (retry : RetrySettings)
    (request : Exec Session α) (made : Attempt) (hrequest : Paces request [.attempted made])
    (s : Session) :
    (∀ n round later, Due policy retry request s n round later →
      (∃ waits, waits.length = n ∧ BacksOff retry waits ∧
        later.pace = s.pace ++ paused made waits) ∧
      repeating policy retry request s = round.attempt policy retry request later) ∧
    ((∃ waits, (repeating policy retry request s).2.pace = s.pace ++ paced made waits ∧
        BacksOff retry waits ∧
        (retry.maxRetries.toNat + 1 < UInt32.size → waits.length ≤ retry.maxRetries.toNat) ∧
        (policy.settles (repeating policy retry request s).1 = true ∨
          waits.length = retry.maxRetries.toNat)) ∨
      (retry.maxRetries.toNat + 1 = UInt32.size ∧
        ∀ n, ∃ round later, Due policy retry request s n round later)) := by
  refine ⟨fun n round later h => ⟨backsOff_of_due hrequest h, repeating_of_due h⟩, ?_⟩
  by_cases hends : ∀ n, ∃ round later, Due policy retry request s n round later
  · exact Or.inr ⟨maxRetries_of_due hrequest hends, hends⟩
  left
  obtain ⟨n, round, later, hdue, hlast⟩ := exists_last_due hends
  obtain ⟨waits, hlength, hwaits, hpace⟩ := backsOff_of_due hrequest hdue
  obtain ⟨hend, hsettled⟩ := attempt_ends hrequest hlast
  rw [repeating_of_due hdue]
  refine ⟨waits, ?_, hwaits, fun hword => ?_, hsettled.imp id fun hcount => ?_⟩
  · rw [hend, hpace, List.append_assoc]
    rfl
  · rw [hlength]
    exact le_maxRetries_of_due hrequest hdue hword
  · rw [hlength]
    exact eq_maxRetries_of_due hrequest hdue hcount

/-- A cursor is opened at the third attempt, and a collection cannot be emptied at all. -/
theorem repeating_backsOff_unsteady :
    (Paces (postStatement {} removal) [.attempted (openingAttempt {} removal)] ∧
      ∃ waits, (openCursor {} removal unsteadySession).2.pace =
          paced (openingAttempt {} removal) waits ∧
        BacksOff {} waits ∧ waits.length = 2) ∧
    (Paces (putTruncate {} "users") [.attempted (truncatingAttempt {} "users")] ∧
      ∃ waits, (repeating .transient {} (putTruncate {} "users") ⟨.closed, []⟩).2.pace =
          paced (truncatingAttempt {} "users") waits ∧
        BacksOff {} waits ∧ waits.length = 3) := by
  have hbounded : ¬ ({} : RetrySettings).maxRetries.toNat + 1 = UInt32.size := by decide
  refine ⟨⟨paces_postStatement {} removal, ?_⟩, paces_putTruncate {} "users", ?_⟩
  · obtain ⟨waits, hpace, hwaits, _⟩ := (repeating_backsOff (.ofShape removal.shape) {}
      (postStatement {} removal) _ (paces_postStatement {} removal)
      unsteadySession).2.resolve_right fun h => hbounded h.1
    refine ⟨waits, hpace, hwaits, ?_⟩
    have hdone : ((Round.first {}).plays (.ofShape removal.shape) {} (postStatement {} removal) 3
        unsteadySession).1 = .ok (.done ⟨[.number (.int 1)], false, none, 0⟩) := by
      decide +kernel
    have hlength : (openCursor {} removal unsteadySession).2.pace.length = 5 := by
      rw [openCursor, repeating, attempt_of_done hdone]
      decide +kernel
    have hpaced := congrArg List.length hpace
    rw [List.length_append, length_paced] at hpaced
    change (openCursor {} removal unsteadySession).2.pace.length = 0 + _ at hpaced
    omega
  · obtain ⟨waits, hpace, hwaits, _, hlast⟩ := (repeating_backsOff .transient {}
      (putTruncate {} "users") _ (paces_putTruncate {} "users")
      ⟨.closed, []⟩).2.resolve_right fun h => hbounded h.1
    have hrefused : ((Round.first {}).plays .transient {} (putTruncate {} "users") 4
        ⟨.closed, []⟩).1 = .error (.http .refused) := by
      decide +kernel
    refine ⟨waits, hpace, hwaits, hlast.resolve_left ?_⟩
    rw [repeating, attempt_of_error hrefused]
    decide

/-- Settings whose cap is below the initial wait. -/
def tightSettings : Settings where
  retry := { maxRetries := 2, initialBackoffMs := 2, maxBackoffMs := 1 }

/-- All documents of a collection. -/
def listing : Statement where
  text := "FOR users_entity IN \x60users\x60 RETURN users_entity"
  bindings := .empty
  shape := .select

/-- The first wait exceeds the cap, and the second one is shorter. -/
theorem first_wait_exceeds_cap :
    Query.compile { source := "users" } = .ok listing ∧
      (openCursor tightSettings listing ⟨.closed, []⟩).2.pace =
        paced (openingAttempt tightSettings listing) [2, 1] ∧
      tightSettings.retry.maxBackoffMs.toNat < 2 := by
  have hrefused : ((Round.first tightSettings.retry).plays (.ofShape listing.shape)
      tightSettings.retry (postStatement tightSettings listing) 3 ⟨.closed, []⟩).1 =
        .error (.http .refused) := by
    decide +kernel
  refine ⟨Outcome.ok_of_toOption (by decide +kernel), ?_⟩
  rw [openCursor, repeating, attempt_of_error hrefused]
  decide +kernel

end AqlQuery.Cursor

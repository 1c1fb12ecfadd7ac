import Mathlib.Data.Nat.Find
import AqlQuery.Proofs.Cursor.Runs

/-!
# How often a request is made

A request is made again only after a failure that its policy allows, and no more often than the
settings say; the last attempt decides. For a statement that writes, such a failure leaves no doubt
that the server did nothing: the connection was refused, or the server reported that it is not
available.
-/

namespace AqlQuery.Cursor

/-! ## Successive requests to one target -/

/-- The server after `n` requests to a target. -/
def Server.after (server : Server) (target : Option Url.Target) : Nat → Server
  | 0 => server
  | n + 1 => (server.respond target).2.after target n

/-- What the `n`-th request to a target gets, counted from zero. -/
def Server.answer (server : Server) (target : Option Url.Target) (n : Nat) :
    Except ExecError Response :=
  ((server.after target n).respond target).1

/-- A request without an answer failed on its way. -/
theorem Server.respond_error {server : Server} {target : Option Url.Target} {e : ExecError}
    (h : (server.respond target).1 = .error e) : ∃ t, e = .http t := by
  unfold respond at h
  split at h
  · cases h
    exact ⟨_, rfl⟩
  · cases h
    exact ⟨_, rfl⟩
  · cases h
    exact ⟨_, rfl⟩
  next authority replies target =>
    split at h
    · cases replies with
      | nil => cases h
      | cons reply rest =>
        cases reply <;> cases h <;> exact ⟨_, rfl⟩
    · cases h
      exact ⟨_, rfl⟩

/-! ## One attempt -/

/-- Whether no attempt follows an outcome: it is a success, or a failure that the policy does not
let be repeated. -/
def RetryPolicy.settles {α : Type} (policy : RetryPolicy) : Except ExecError α → Bool
  | .ok _ => true
  | .error e => !policy.allows e

theorem RetryPolicy.allowed_of_not_settles {α : Type} {policy : RetryPolicy}
    {outcome : Except ExecError α} (h : policy.settles outcome = false) :
    ∃ e, outcome = .error e ∧ policy.allows e = true := by
  cases outcome with
  | ok a => cases h
  | error e =>
    rw [settles, Bool.not_eq_false'] at h
    exact ⟨e, rfl, h⟩

section Attempt

variable {α : Type} {policy : RetryPolicy} {retry : RetrySettings} {request : Exec Session α}
  {server later : Server} {outcome : Except ExecError α} {round : Round}

/-- What follows a round. -/
def resume (policy : RetryPolicy) (retry : RetrySettings) (request : Exec Session α) :
    RoundEnd α → Exec Session α
  | .done a => pure a
  | .again next => next.attempt policy retry request

theorem attempt_eq_bind (policy : RetryPolicy) (retry : RetrySettings) (request : Exec Session α)
    (round : Round) :
    round.attempt policy retry request =
      (round.play policy retry request >>= resume policy retry request) := by
  funext s
  change _ = Exec.bind _ _ s
  rw [Round.attempt, Exec.bind]
  rcases round.play policy retry request s with ⟨_ | _ | _, _⟩ <;> rfl

/-- At most `n` rounds, which structural recursion evaluates. -/
def Round.plays (policy : RetryPolicy) (retry : RetrySettings) (request : Exec Session α) :
    Nat → Round → Exec Session (RoundEnd α)
  | 0, round => pure (.again round)
  | n + 1, round => do
    match ← round.play policy retry request with
    | .done a => pure (.done a)
    | .again next => next.plays policy retry request n

/-- Any number of rounds may be told apart at the start. -/
theorem attempt_eq_plays (n : Nat) (policy : RetryPolicy) (retry : RetrySettings)
    (request : Exec Session α) (round : Round) :
    round.attempt policy retry request =
      (round.plays policy retry request n >>= resume policy retry request) := by
  induction n generalizing round with
  | zero => rfl
  | succ n ih =>
    funext s
    rw [attempt_eq_bind]
    change Exec.bind _ _ s = Exec.bind (Exec.bind _ _) _ s
    unfold Exec.bind
    rcases round.play policy retry request s with ⟨_ | _ | next, _⟩
    · rfl
    · rfl
    · exact congrFun (ih next) _

section Evaluation

variable {n : Nat} {s : Session}

theorem attempt_of_done {a : α}
    (h : (round.plays policy retry request n s).1 = .ok (.done a)) :
    round.attempt policy retry request s = (.ok a, (round.plays policy retry request n s).2) := by
  rw [attempt_eq_plays n]
  change Exec.bind _ _ s = _
  rw [Exec.bind, show round.plays policy retry request n s = (.ok (.done a), _) from Prod.ext h rfl]
  rfl

theorem attempt_of_error {e : ExecError}
    (h : (round.plays policy retry request n s).1 = .error e) :
    round.attempt policy retry request s =
      (.error e, (round.plays policy retry request n s).2) := by
  rw [attempt_eq_plays n]
  change Exec.bind _ _ s = _
  rw [Exec.bind, show round.plays policy retry request n s = (.error e, _) from Prod.ext h rfl]

end Evaluation

section Runs

variable {ω : Type} {observe : Event → Option ω} {seen : List ω} (hquiet : Event.Quiet observe)
include hquiet

theorem runs_attempt_settled (h : Runs observe request server outcome later seen)
    (hs : policy.settles outcome = true) :
    Runs observe (round.attempt policy retry request) server outcome later seen := by
  rw [attempt_eq_bind, ← List.append_nil seen]
  cases outcome with
  | ok a =>
    have hplay : Runs observe (round.play policy retry request) server (.ok (.done a)) later
        seen := by
      rw [← List.append_nil seen]
      refine h.outcome.bind ?_
      dsimp only
      split
      · exact Runs.after_log hquiet (Runs.pure _ later)
      · exact Runs.pure _ later
    exact hplay.bind (Runs.pure a later)
  | error e =>
    rw [RetryPolicy.settles, Bool.not_eq_true'] at hs
    refine Runs.bind_error (h.outcome.bind ?_)
    dsimp only
    rw [hs]
    exact Runs.fail e later

theorem runs_attempt_last {e : ExecError}
    (h : Runs observe request server (.error e) later seen) (he : policy.allows e = true)
    (hlast : retry.maxRetries < (round.next retry).failures) :
    Runs observe (round.attempt policy retry request) server (.error e) later seen := by
  rw [attempt_eq_bind, ← List.append_nil seen]
  refine Runs.bind_error (h.outcome.bind ?_)
  dsimp only
  rw [he, if_pos rfl, if_pos hlast]
  exact Runs.after_log hquiet (Runs.fail e later)

theorem runs_attempt_again {e : ExecError} {last : Server} {further : List ω}
    (h : Runs observe request server (.error e) later seen) (he : policy.allows e = true)
    (hmore : ¬ retry.maxRetries < (round.next retry).failures)
    (hagain : Runs observe ((round.next retry).attempt policy retry request) later outcome
      last further) :
    Runs observe (round.attempt policy retry request) server outcome last
      (seen ++ further) := by
  have hplay : Runs observe (round.play policy retry request) server
      (.ok (.again (round.next retry))) later seen := by
    rw [← List.append_nil seen]
    refine h.outcome.bind ?_
    dsimp only
    rw [he, if_pos rfl, if_neg hmore]
    exact Runs.after_log hquiet ((Runs.note (hquiet.waited _) later).bind (Runs.pure _ later))
  rw [attempt_eq_bind]
  exact hplay.bind hagain

end Runs

end Attempt

/-! ## A run of attempts -/

/-- Attempts that start with `failures` failed ones do not go on behind the `n`-th, counted from
zero: its outcome is settled, or the settings allow no other. -/
def Stops (policy : RetryPolicy) (retry : RetrySettings) {α : Type}
    (outcomes : Nat → Except ExecError α) (failures : UInt32) (n : Nat) : Prop :=
  policy.settles (outcomes n) = true ∨ retry.maxRetries < failures + UInt32.ofNat (n + 1)

theorem add_ofNat_succ (failures : UInt32) (n : Nat) :
    failures + UInt32.ofNat (n + 1) = failures + 1 + UInt32.ofNat n := by
  rw [UInt32.ofNat_add n 1, UInt32.add_comm (UInt32.ofNat n), ← UInt32.add_assoc]
  rfl

theorem stops_succ {policy : RetryPolicy} {retry : RetrySettings} {α : Type}
    {outcomes : Nat → Except ExecError α} {failures : UInt32} {n : Nat} :
    Stops policy retry outcomes failures (n + 1) ↔
      Stops policy retry (fun j => outcomes (j + 1)) (failures + 1) n := by
  rw [Stops, Stops, add_ofNat_succ failures (n + 1)]

section Limit

variable {retry : RetrySettings} (hword : retry.maxRetries.toNat + 1 < UInt32.size)
include hword

/-- The settings allow no other attempt once one more has failed than may be repeated. -/
theorem maxRetries_lt : retry.maxRetries < 0 + UInt32.ofNat (retry.maxRetries.toNat + 1) := by
  rw [UInt32.lt_iff_toNat_lt, UInt32.zero_add, UInt32.toNat_ofNat_of_lt' hword]
  exact Nat.lt_succ_self _

theorem eq_maxRetries_of_lt {n : Nat} (hn : n ≤ retry.maxRetries.toNat)
    (h : retry.maxRetries < 0 + UInt32.ofNat (n + 1)) : n = retry.maxRetries.toNat := by
  rw [UInt32.lt_iff_toNat_lt, UInt32.zero_add, UInt32.toNat_ofNat_of_lt' (by omega)] at h
  omega

end Limit

/-- The first attempt that does not go on decides. -/
theorem runs_attempt {α ω : Type} {observe : Event → Option ω} (hquiet : Event.Quiet observe)
    {policy : RetryPolicy} {retry : RetrySettings} {request : Exec Session α}
    {target : Option Url.Target} {decode : Response → Except ExecError α} {seen : Server → List ω}
    (hrequest : ∀ server, Runs observe request server ((server.respond target).1 >>= decode)
      (server.respond target).2 (seen server))
    (n : Nat) (round : Round) (server : Server)
    (hbefore : ∀ j < n, ¬ Stops policy retry (fun k => server.answer target k >>= decode)
      round.failures j)
    (hlast : Stops policy retry (fun k => server.answer target k >>= decode) round.failures n) :
    Runs observe (round.attempt policy retry request) server
      (server.answer target n >>= decode) (server.after target (n + 1))
      ((List.range (n + 1)).flatMap fun j => seen (server.after target j)) := by
  induction n generalizing round server with
  | zero =>
    rw [List.range_one, List.flatMap_singleton]
    cases hs : policy.settles (server.answer target 0 >>= decode) with
    | true => exact runs_attempt_settled hquiet (hrequest server) hs
    | false =>
      obtain ⟨e, he, hallowed⟩ := RetryPolicy.allowed_of_not_settles hs
      have hfailed := hrequest server
      rw [show (server.respond target).1 >>= decode = .error e from he] at hfailed
      rw [he]
      exact runs_attempt_last hquiet hfailed hallowed
        (hlast.resolve_left (by rw [hs]; exact Bool.false_ne_true))
  | succ n ih =>
    -- the failure is repeated, and what follows is a run on the server after it
    have hfirst := hbefore 0 (Nat.succ_pos n)
    rw [Stops, not_or, Bool.not_eq_true] at hfirst
    obtain ⟨e, he, hallowed⟩ := RetryPolicy.allowed_of_not_settles hfirst.1
    have hfailed := hrequest server
    rw [show (server.respond target).1 >>= decode = .error e from he] at hfailed
    rw [List.range_succ_eq_map, List.flatMap_cons, List.flatMap_map]
    refine runs_attempt_again hquiet hfailed hallowed hfirst.2
      (ih (round.next retry) (server.respond target).2 (fun j hj => ?_) (stops_succ.mp hlast))
    exact fun hstops => hbefore (j + 1) (Nat.succ_lt_succ hj) (stops_succ.mpr hstops)

/-! ## Opening a cursor -/

/-- What the `k`-th attempt to open a cursor gets from the server, counted from one. -/
def openingAnswer (settings : Settings) (server : Server) (k : Nat) : Except ExecError Response :=
  server.answer (Url.target? (address settings "cursor")) (k - 1)

/-- How the `k`-th attempt to open a cursor ends, counted from one. -/
def openingOutcome (settings : Settings) (server : Server) (k : Nat) : Except ExecError Batch :=
  openingAnswer settings server k >>= received batch?

/-- Behind which attempts to open a cursor no other follows, counted from zero. -/
def OpeningStops (settings : Settings) (statement : Statement) (server : Server) : Nat → Prop :=
  Stops (.ofShape statement.shape) settings.retry
    (fun n => openingOutcome settings server (n + 1)) 0

/-- Opening a cursor is a run of attempts, if it comes to an end. -/
theorem runs_openCursor {ω : Type} {observe : Event → Option ω} (hquiet : Event.Quiet observe)
    {settings : Settings} {statement : Statement} {server : Server} {n : Nat}
    (hbefore : ∀ j < n, ¬ OpeningStops settings statement server j)
    (hlast : OpeningStops settings statement server n) :
    Runs observe (openCursor settings statement) server (openingOutcome settings server (n + 1))
      (server.after (Url.target? (address settings "cursor")) (n + 1))
      ((List.range (n + 1)).flatMap fun j =>
        (sendingEvents .post (address settings "cursor") (authorization settings)
          (some (cursorBody settings statement))
          (server.after (Url.target? (address settings "cursor")) j)).filterMap observe) :=
  runs_attempt hquiet (fun server => runs_postStatement hquiet settings server statement) n
    (.first settings.retry) server hbefore hlast

/-- Each attempt to open a cursor is the same request. -/
theorem attempts_openCursor {settings : Settings} {statement : Statement} {server : Server}
    {n : Nat} (hbefore : ∀ j < n, ¬ OpeningStops settings statement server j)
    (hlast : OpeningStops settings statement server n) :
    Runs Event.attempt? (openCursor settings statement) server
      (openingOutcome settings server (n + 1))
      (server.after (Url.target? (address settings "cursor")) (n + 1))
      (List.replicate (n + 1) (openingAttempt settings statement)) := by
  have hruns := runs_openCursor Event.quiet_attempt? hbefore hlast
  have hsame (made : Attempt) :
      (List.range (n + 1)).flatMap (fun _ => [made]) = List.replicate (n + 1) made := by
    rw [← List.map_eq_flatMap, List.map_const', List.length_range]
  simp only [attempts_sendingEvents, hsame] at hruns
  rw [openingAttempt, ← address_cursor]
  exact hruns

/-- The attempts end with the first that no other follows. -/
theorem exists_opening_end {settings : Settings} {statement : Statement} {server : Server}
    (h : ∃ n, OpeningStops settings statement server n) :
    ∃ n, OpeningStops settings statement server n ∧
      ∀ j < n, ¬ OpeningStops settings statement server j := by
  classical
  exact ⟨Nat.find h, Nat.find_spec h, fun j => Nat.find_min h⟩

/-- The server certainly did not act on the request: the connection was refused, or the answer is
an error whose code says that the server is not available. The code is that of the error document
if it has one, and the status otherwise. -/
def Unapplied (answer : Except ExecError Response) : Prop :=
  answer = .error (.http .refused) ∨
    ∃ r, answer = .ok r ∧ isSuccess r.status = false ∧
      (errorDocument r.body).code.getD r.status = ExecError.unavailable

/-- A failure that leaves no doubt has an answer that leaves none; one that may pass may also be a
timeout. -/
theorem unapplied_or_timedOut {server : Server} {target : Option Url.Target} {n : Nat}
    {e : ExecError} (h : server.answer target n >>= received batch? = .error e)
    (he : e.isRetriable = true) :
    Unapplied (server.answer target n) ∨
      (e.isUnapplied = false ∧ server.answer target n = .error (.http .timedOut)) := by
  cases ha : server.answer target n with
  | error e' =>
    rw [ha] at h
    cases h
    obtain ⟨t, rfl⟩ := Server.respond_error ha
    cases t with
    | refused => exact Or.inl (Or.inl rfl)
    | timedOut => exact Or.inr ⟨rfl, rfl⟩
    | broken => cases he
  | ok r =>
    rw [ha] at h
    change received batch? r = .error e at h
    unfold received at h
    split at h
    · -- a body that cannot be read is no reason to ask again
      split at h
      · cases h
      · cases h
        cases he
    next hstatus =>
      cases h
      rw [Bool.not_eq_true] at hstatus
      exact Or.inl (Or.inr ⟨r, rfl, hstatus, beq_iff_eq.mp he⟩)

theorem RetryPolicy.isRetriable_of_allows {policy : RetryPolicy} {e : ExecError}
    (h : policy.allows e = true) : e.isRetriable = true := by
  cases policy with
  | transient => exact h
  | unapplied => exact ExecError.isRetriable_of_isUnapplied h

/-- Opening a cursor takes `k` attempts. -/
structure Opens (settings : Settings) (statement : Statement) (s : Session) (k : Nat) : Prop where
  /-- At least one attempt is made. -/
  positive : 0 < k
  /-- The last outcome is settled, or no repetition is left. -/
  ends : (RetryPolicy.ofShape statement.shape).settles (openingOutcome settings s.server k) = true ∨
    k = (settings.retry.maxRetries + 1).toNat
  /-- This is so of no attempt before the last one. -/
  goesOn : ∀ j, 0 < j → j < k →
    (RetryPolicy.ofShape statement.shape).settles (openingOutcome settings s.server j) = false ∧
      j ≠ (settings.retry.maxRetries + 1).toNat
  /-- The last attempt decides. -/
  outcome : (openCursor settings statement s).1 = openingOutcome settings s.server k
  /-- Each attempt is the same request. -/
  attempts : (openCursor settings statement s).2.attempts =
    s.attempts ++ List.replicate k (openingAttempt settings statement)
  /-- An attempt that was repeated changed nothing, or it was a select that timed out. -/
  harmless : ∀ j, 0 < j → j < k → Unapplied (openingAnswer settings s.server j) ∨
    (statement.shape = .select ∧ openingAnswer settings s.server j = .error (.http .timedOut))

/-- Whatever the server does, a cursor is opened by the least number of attempts after which the
outcome is settled or the settings allow no other, and an attempt that a write repeats left the
database as it was. -/
theorem openCursor_opens (settings : Settings) (statement : Statement) (s : Session)
    (hword : settings.retry.maxRetries.toNat + 1 < UInt32.size) :
    ∃ k, Opens settings statement s k := by
  have hmax : (settings.retry.maxRetries + 1).toNat = settings.retry.maxRetries.toNat + 1 := by
    rw [UInt32.toNat_add]
    exact Nat.mod_eq_of_lt hword
  obtain ⟨n, hlast, hbefore⟩ := @exists_opening_end settings statement s.server
    ⟨_, Or.inr (maxRetries_lt hword)⟩
  have hn : n ≤ settings.retry.maxRetries.toNat := by
    by_contra hlate
    exact hbefore _ (Nat.lt_of_not_le hlate) (Or.inr (maxRetries_lt hword))
  have hunsettled : ∀ j, 0 < j → j < n + 1 → (RetryPolicy.ofShape statement.shape).settles
      (openingOutcome settings s.server j) = false := by
    intro j hj hjn
    have hgoes := hbefore (j - 1) (by omega)
    rw [OpeningStops, Stops, not_or, Bool.not_eq_true] at hgoes
    exact hgoes.1
  obtain ⟨houtcome, _, hattempts⟩ := attempts_openCursor hbefore hlast s rfl
  refine ⟨n + 1, Nat.succ_pos n, ?_, ?_, houtcome, hattempts, ?_⟩
  · rw [hmax]
    exact hlast.imp id fun hcount => congrArg (· + 1) (eq_maxRetries_of_lt hword hn hcount)
  · intro j hj hjn
    refine ⟨hunsettled j hj hjn, ?_⟩
    rw [hmax]
    omega
  · intro j hj hjn
    obtain ⟨e, he, hallowed⟩ := RetryPolicy.allowed_of_not_settles (hunsettled j hj hjn)
    refine (unapplied_or_timedOut he (RetryPolicy.isRetriable_of_allows hallowed)).imp id ?_
    rintro ⟨hdoubt, htimeout⟩
    refine ⟨?_, htimeout⟩
    -- a write is repeated after failures only that leave no doubt
    cases hshape : statement.shape with
    | select => rfl
    | _ =>
      rw [hshape] at hallowed
      exact absurd hallowed (by rw [RetryPolicy.ofShape, RetryPolicy.allows, hdoubt]; decide)

/-- A server that refuses, reports in a document that it is not available, and answers at last. -/
def unsteadySession : Session where
  server := .scripted "127.0.0.1:8529"
    [.refuse, .answer 500 "\x7b\"code\":503\x7d", .answer 201 "\x7b\"result\":[1]\x7d"]

/-- A statement that writes. -/
def removal : Statement where
  text := "FOR users_entity IN \x60users\x60 REMOVE users_entity IN \x60users\x60"
  bindings := .empty
  shape := .delete

theorem openCursor_opens_unsteady :
    ({} : Settings).retry.maxRetries.toNat + 1 < UInt32.size ∧
      Opens {} removal unsteadySession 3 := by
  refine ⟨by decide, ?_⟩
  obtain ⟨k, hk⟩ := openCursor_opens {} removal unsteadySession (by decide)
  have hpositive := hk.positive
  rcases (by omega : k = 1 ∨ k = 2 ∨ k = 3 ∨ 3 < k) with rfl | rfl | rfl | hlate
  · exact absurd hk.ends (by decide +kernel)
  · exact absurd hk.ends (by decide +kernel)
  · exact hk
  · exact absurd (hk.goesOn 3 (by decide) hlate).1 (by decide +kernel)

end AqlQuery.Cursor

import AqlQuery.Cursor.Session

/-!
# Repeating requests

A request is repeated after a failure that its policy allows, as often as the settings say, after
waits that double up to a cap. The first wait is the initial one, whatever the cap.
-/

namespace AqlQuery.Cursor

/-- After which failures a request may be repeated. -/
inductive RetryPolicy where
  /-- Any failure that may pass; the request may be applied twice. -/
  | transient
  /-- Only failures after which the server certainly did nothing. -/
  | unapplied
  deriving DecidableEq

namespace RetryPolicy

/-- Only a select may be applied twice (`for_shape`). -/
def ofShape : Shape → RetryPolicy
  | .select => .transient
  | .insert => .unapplied
  | .update => .unapplied
  | .delete => .unapplied

/-- Whether a request may be repeated after a failure. -/
def allows : RetryPolicy → ExecError → Bool
  | .transient, e => e.isRetriable
  | .unapplied, e => e.isUnapplied

end RetryPolicy

/-! ## Durations -/

/-- A part of a second in three digits, without the zeros at its end. -/
def thousandths (n : Nat) : List Char :=
  let digits := [n / 100 % 10, n / 10 % 10, n % 10].map Nat.digitChar
  (digits.reverse.dropWhile (· == '0')).reverse

/-- A duration in seconds or in milliseconds; no time at all is in nanoseconds. -/
def durationText (milliseconds : Nat) : String :=
  if milliseconds = 0 then "0ns"
  else if milliseconds < 1000 then Text.decimal milliseconds ++ "ms"
  else
    let fraction := thousandths (milliseconds % 1000)
    let point := if fraction.isEmpty then "" else "." ++ String.ofList fraction
    Text.decimal (milliseconds / 1000) ++ point ++ "s"

/-- The wait after a wait. -/
def nextDelay (retry : RetrySettings) (delay : Nat) : Nat :=
  min (delay * 2) retry.maxBackoffMs.toNat

/-! ## Attempts -/

def retryingMessage (retry : RetrySettings) (failures : UInt32) (delay : Nat) (e : ExecError) :
    String :=
  "Request failed (attempt " ++ Text.decimal failures.toNat ++ "/" ++
    Text.decimal retry.maxRetries.toNat ++ "), retrying in " ++ durationText delay ++ ": " ++
    e.message

def givingUpMessage (failures : UInt32) (e : ExecError) : String :=
  "Request failed after " ++ Text.decimal failures.toNat ++ " attempts: " ++ e.message

/-- Where the repetition of a request stands: how many attempts have failed, counted in a word that
starts over behind its greatest value, and how long to wait if the next one fails too. -/
structure Round where
  failures : UInt32
  delay : Nat
  deriving DecidableEq

/-- The round before the first attempt. -/
def Round.first (retry : RetrySettings) : Round where
  failures := 0
  delay := retry.initialBackoffMs.toNat

/-- The round after a failed attempt. -/
def Round.next (retry : RetrySettings) (round : Round) : Round where
  failures := round.failures + 1
  delay := nextDelay retry round.delay

/-- How a round ends, unless with an error. -/
inductive RoundEnd (α : Type) where
  | done (a : α)
  | again (round : Round)
  deriving DecidableEq

/-- One attempt, and the wait behind it if there is to be another one. -/
def Round.play {α : Type} (policy : RetryPolicy) (retry : RetrySettings)
    (request : Exec Session α) (round : Round) : Exec Session (RoundEnd α) := do
  match ← request.outcome with
  | .ok a =>
    if 0 < round.failures then
      log .debug ("Request succeeded after " ++ Text.decimal round.failures.toNat ++ " retries")
    pure (.done a)
  | .error e =>
    let next := round.next retry
    if policy.allows e then
      if retry.maxRetries < next.failures then
        log .warn (givingUpMessage next.failures e)
        Exec.fail e
      else
        log .warn (retryingMessage retry next.failures round.delay e)
        note (.waited round.delay)
        pure (.again next)
    else Exec.fail e

/-- Makes attempts from a round on: the loop of `retry_request`. Settings that allow as many
repetitions as a word can count allow any number of them, and the attempts may never come to an
end. -/
def Round.attempt {α : Type} (policy : RetryPolicy) (retry : RetrySettings)
    (request : Exec Session α) (round : Round) (s : Session) : Except ExecError α × Session :=
  match round.play policy retry request s with
  | (.ok (.done a), s) => (.ok a, s)
  | (.ok (.again next), s) => next |>.attempt policy retry request s
  | (.error e, s) => (.error e, s)
partial_fixpoint

/-- Repeats a request while its policy and the settings allow it (`retry_request`). -/
def repeating {α : Type} (policy : RetryPolicy) (retry : RetrySettings)
    (request : Exec Session α) : Exec Session α :=
  (Round.first retry).attempt policy retry request

end AqlQuery.Cursor

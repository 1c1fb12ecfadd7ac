import AqlQuery.Cursor.Client

/-!
# Runs against a server

What a computation of the client does depends on the server it starts with, and not on what has
happened in the session before. `Runs` says how such a computation ends, what becomes of the
server, and which of the events that an observer looks for it adds: the requests as the client makes
them, or as they arrive. Runs compose along `>>=`, so that each function of the client has one lemma
here and is not unfolded again.
-/

namespace AqlQuery.Cursor

variable {α β ω : Type}

/-! ## What is observed -/

/-- The request that an event is about, as the client made it. -/
def Event.attempt? : Event → Option Attempt
  | .attempted attempt => some attempt
  | _ => none

/-- The requests that the client has made, in order. -/
def Session.attempts (s : Session) : List Attempt :=
  s.events.filterMap Event.attempt?

/-- The request that an event is about, as it arrived. -/
def Event.arrival? : Event → Option Request
  | .sent request => some request
  | _ => none

/-- The requests that have arrived, in order. -/
def Session.arrivals (s : Session) : List Request :=
  s.events.filterMap Event.arrival?

/-- An observer that sees neither waits nor lines of the log. -/
structure Event.Quiet (observe : Event → Option ω) : Prop where
  waited : ∀ milliseconds, observe (.waited milliseconds) = none
  logged : ∀ level message, observe (.logged level message) = none

theorem Event.quiet_attempt? : Event.Quiet Event.attempt? := ⟨fun _ => rfl, fun _ _ => rfl⟩

theorem Event.quiet_arrival? : Event.Quiet Event.arrival? := ⟨fun _ => rfl, fun _ _ => rfl⟩

/-- Started with `server`, the computation ends with `outcome`, leaves the server as `later`, and
adds events of which `seen` is observed. -/
def Runs (observe : Event → Option ω) (x : Exec Session α) (server : Server)
    (outcome : Except ExecError α) (later : Server) (seen : List ω) : Prop :=
  ∀ s : Session, s.server = server →
    (x s).1 = outcome ∧ (x s).2.server = later ∧
      (x s).2.events.filterMap observe = s.events.filterMap observe ++ seen

namespace Runs

variable {observe : Event → Option ω} {x : Exec Session α} {f : α → Exec Session β}
  {server middle later : Server} {seen₁ seen₂ : List ω}

theorem pure (a : α) (server : Server) :
    Runs observe (pure a : Exec Session α) server (.ok a) server [] := by
  rintro s rfl
  exact ⟨rfl, rfl, (List.append_nil _).symm⟩

theorem fail (e : ExecError) (server : Server) :
    Runs observe (Exec.fail e : Exec Session α) server (.error e) server [] := by
  rintro s rfl
  exact ⟨rfl, rfl, (List.append_nil _).symm⟩

/-- An event that is not observed. -/
theorem note {event : Event} (h : observe event = none) (server : Server) :
    Runs observe (note event) server (.ok ()) server [] := by
  rintro s rfl
  refine ⟨rfl, rfl, ?_⟩
  change (s.events ++ [event]).filterMap observe = _
  rw [List.filterMap_append, List.filterMap_cons, h]
  rfl

theorem bind {a : α} {outcome : Except ExecError β}
    (hx : Runs observe x server (.ok a) middle seen₁)
    (hf : Runs observe (f a) middle outcome later seen₂) :
    Runs observe (x >>= f) server outcome later (seen₁ ++ seen₂) := by
  intro s hs
  obtain ⟨ho, hm, ha⟩ := hx s hs
  have hb : (x >>= f) s = f a (x s).2 := by
    change Exec.bind x f s = _
    rw [Exec.bind, show x s = (.ok a, (x s).2) from Prod.ext ho rfl]
  obtain ⟨ho', hm', ha'⟩ := hf (x s).2 hm
  rw [hb]
  refine ⟨ho', hm', ?_⟩
  rw [ha', ha, List.append_assoc]

theorem bind_error {e : ExecError} (hx : Runs observe x server (.error e) later seen₁) :
    Runs observe (x >>= f) server (.error e) later seen₁ := by
  intro s hs
  obtain ⟨ho, hm, ha⟩ := hx s hs
  have hb : (x >>= f) s = (.error e, (x s).2) := by
    change Exec.bind x f s = _
    rw [Exec.bind, show x s = (.error e, (x s).2) from Prod.ext ho rfl]
  rw [hb]
  exact ⟨rfl, hm, ha⟩

theorem outcome {o : Except ExecError α} (hx : Runs observe x server o later seen₁) :
    Runs observe x.outcome server (.ok o) later seen₁ := by
  intro s hs
  obtain ⟨ho, hm, ha⟩ := hx s hs
  exact ⟨congrArg Except.ok ho, hm, ha⟩

/-- A line of the log before a computation. -/
theorem after_log {x : Exec Session β} {o : Except ExecError β} {level : Level} {message : String}
    (hquiet : Event.Quiet observe) (hx : Runs observe x server o later seen₂) :
    Runs observe (do log level message; x) server o later seen₂ :=
  bind (note (hquiet.logged level message) server) hx

end Runs

/-! ## Requests and answers -/

/-- What the client makes of an answer. -/
def received (decode : String → Option α) (r : Response) : Except ExecError α :=
  if isSuccess r.status then
    match decode r.body with
    | some a => .ok a
    | none => .error (.invalidResponse .undecodable)
  else .error (backendError r)

section Exchange

variable {observe : Event → Option ω} (method : Method) (address authorization : String)
  (body : Option Json)

/-- The events of one request, made and perhaps arrived. -/
def sendingEvents (server : Server) : List Event :=
  .attempted ⟨method, address, authorization, body⟩ ::
    ((server.pathOf? (Url.target? address)).map fun path =>
      Event.sent ⟨method, path, authorization, body⟩).toList

theorem runs_send (server : Server) :
    Runs observe (send method address authorization body) server
      (server.respond (Url.target? address)).1 (server.respond (Url.target? address)).2
      ((sendingEvents method address authorization body server).filterMap observe) := by
  rintro s rfl
  exact ⟨rfl, rfl, List.filterMap_append⟩

theorem attempts_sendingEvents (server : Server) :
    (sendingEvents method address authorization body server).filterMap Event.attempt? =
      [⟨method, address, authorization, body⟩] := by
  -- a request that arrives is the same one once more
  unfold sendingEvents
  cases server.pathOf? (Url.target? address) <;> rfl

theorem arrivals_sendingEvents (server : Server) :
    (sendingEvents method address authorization body server).filterMap Event.arrival? =
      ((server.pathOf? (Url.target? address)).map fun path =>
        (⟨method, path, authorization, body⟩ : Request)).toList := by
  unfold sendingEvents
  cases server.pathOf? (Url.target? address) <;> rfl

theorem runs_receive (hquiet : Event.Quiet observe) (decode : String → Option α) (r : Response)
    (server : Server) :
    Runs observe (receive decode r) server (received decode r) server [] := by
  unfold receive received
  split
  · cases decode r.body with
    | some a => exact Runs.pure a server
    | none => exact Runs.after_log hquiet (Runs.fail _ server)
  · exact Runs.after_log hquiet (Runs.fail _ server)

/-- A request whose answer is read by `decode`. -/
theorem runs_exchange (hquiet : Event.Quiet observe) (decode : String → Option α)
    (server : Server) :
    Runs observe (do
        let response ← send method address authorization body
        receive decode response)
      server ((server.respond (Url.target? address)).1 >>= received decode)
      (server.respond (Url.target? address)).2
      ((sendingEvents method address authorization body server).filterMap observe) := by
  have hsend := @runs_send ω observe method address authorization body server
  cases hr : (server.respond (Url.target? address)).1 with
  | error e =>
    rw [hr] at hsend
    exact hsend.bind_error
  | ok response =>
    rw [hr] at hsend
    rw [← List.append_nil (List.filterMap observe _)]
    exact hsend.bind (runs_receive hquiet decode response _)

end Exchange

/-! ## Addresses -/

theorem address_cursor (settings : Settings) :
    address settings "cursor" =
      settings.baseUrl ++ "/_db/" ++ settings.database ++ "/_api/cursor" := by
  rw [address, String.append_assoc, show "/_api/" ++ "cursor" = "/_api/cursor" from rfl]

theorem address_fetch (settings : Settings) (id : String) :
    address settings ("cursor/" ++ id) =
      settings.baseUrl ++ "/_db/" ++ settings.database ++ "/_api/cursor/" ++ id := by
  have hslash : "/_api/" ++ "cursor/" = "/_api/cursor/" := rfl
  rw [address, String.append_assoc, ← @String.append_assoc "/_api/", hslash,
    ← String.append_assoc]

/-- The request that opens a cursor. -/
def openingAttempt (settings : Settings) (statement : Statement) : Attempt :=
  ⟨.post, settings.baseUrl ++ "/_db/" ++ settings.database ++ "/_api/cursor",
    authorization settings, some (cursorBody settings statement)⟩

/-- The request for the next batch of a cursor. -/
def fetchAttempt (settings : Settings) (id : String) : Attempt :=
  ⟨.put, settings.baseUrl ++ "/_db/" ++ settings.database ++ "/_api/cursor/" ++ id,
    authorization settings, none⟩

/-- The request for the next batch of a cursor as it arrives, below the place where cursors are
opened. -/
def fetchArrival (settings : Settings) (target : Url.Target) (id : String) : Request :=
  ⟨.put, target.path ++ "/" ++ id, authorization settings, none⟩

section Client

variable {observe : Event → Option ω} (hquiet : Event.Quiet observe) (settings : Settings)
  (server : Server)
include hquiet

theorem runs_postStatement (statement : Statement) :
    Runs observe (postStatement settings statement) server
      ((server.respond (Url.target? (address settings "cursor"))).1 >>= received batch?)
      (server.respond (Url.target? (address settings "cursor"))).2
      ((sendingEvents .post (address settings "cursor") (authorization settings)
        (some (cursorBody settings statement)) server).filterMap observe) :=
  runs_exchange _ _ _ _ hquiet _ _

theorem runs_nextBatch (id : String) :
    Runs observe (nextBatch settings id) server
      ((server.respond (Url.target? (address settings ("cursor/" ++ id)))).1 >>= received batch?)
      (server.respond (Url.target? (address settings ("cursor/" ++ id)))).2
      ((sendingEvents .put (address settings ("cursor/" ++ id)) (authorization settings) none
        server).filterMap observe) :=
  Runs.after_log hquiet (runs_exchange _ _ _ _ hquiet _ _)

end Client

end AqlQuery.Cursor

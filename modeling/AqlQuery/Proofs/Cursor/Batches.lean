import AqlQuery.Proofs.Cursor.Address
import AqlQuery.Proofs.Cursor.Attempts
import AqlQuery.Proofs.Outcome

/-!
# Reading a cursor to its end

Once a cursor is open, each batch that announces another one is followed by one request for it,
under the id that the batch carries. The rows are those of all batches in their order. A batch that
announces another one without an id ends the reading with an error, and so does a request that
fails, which is not made again.
-/

namespace AqlQuery.Cursor

/-! ## Who answers -/

/-- Cursors are opened at a target where a script with this authority listens. -/
structure Reaches (settings : Settings) (authority : String) (target : Url.Target) : Prop where
  found : Url.target? (address settings "cursor") = some target
  listens : listensAt authority target = true

namespace Reaches

variable {settings : Settings} {authority : String} {target : Url.Target}
  (h : Reaches settings authority target)
include h

/-- Batches are asked for where the cursor was opened. -/
theorem fetch (id : String) :
    ∃ path, Url.target? (address settings ("cursor/" ++ id)) =
      some ⟨target.secure, target.authority, path⟩ := by
  have haddress : (address settings "cursor").toList =
      (settings.baseUrl ++ "/_db/" ++ settings.database ++ "/_api/curso").toList ++ ['r'] := by
    simp [address, String.toList_append]
  have hfetch : address settings ("cursor/" ++ id) = address settings "cursor" ++ ("/" ++ id) := by
    rw [show "cursor/" = "cursor" ++ "/" from rfl]
    simp only [address, String.append_assoc]
  rw [hfetch]
  exact Url.target?_append_segment h.found haddress (by decide) id

/-- A plain id ends the path under which the next batch is asked for. -/
theorem fetch_plain
    (hmarks : Url.IsUnmarked (settings.baseUrl ++ settings.database).toList)
    {id : String} (hid : Url.IsPlain id.toList) :
    Url.target? (address settings ("cursor/" ++ id)) =
      some ⟨target.secure, target.authority, target.path ++ "/" ++ id⟩ := by
  obtain ⟨host, hhost⟩ : ∃ host,
      host = settings.baseUrl ++ "/_db/" ++ settings.database ++ "/_api" := ⟨_, rfl⟩
  have hlast : host.toList =
      (settings.baseUrl ++ "/_db/" ++ settings.database ++ "/_ap").toList ++ ['i'] := by
    simp [hhost, String.toList_append]
  have hclean : Url.IsUnmarked host.toList := by
    rw [String.toList_append, Url.isUnmarked_append] at hmarks
    simp only [hhost, String.toList_append, Url.isUnmarked_append]
    exact ⟨⟨⟨hmarks.1, by decide⟩, hmarks.2⟩, by decide⟩
  have haddress (resource : String) : address settings resource = host ++ "/" ++ resource := by
    rw [address, show "/_api/" = "/_api" ++ "/" from rfl, ← String.append_assoc, ← hhost]
  have hfetch : address settings ("cursor/" ++ id) = host ++ "/" ++ "cursor" ++ "/" ++ id := by
    rw [haddress, show "cursor/" = "cursor" ++ "/" from rfl, ← String.append_assoc,
      ← String.append_assoc]
  have hopening := h.found
  rw [haddress] at hopening
  rw [hfetch]
  exact Url.target?_append_plain hlast (by decide) (by decide) hclean
    (by decide) (by decide) hid hopening

theorem respond (replies : List Reply) (path : String) :
    (Server.scripted authority replies).respond
        (some ⟨target.secure, target.authority, path⟩) =
      ((nextReply replies).1, .scripted authority (nextReply replies).2) := by
  have hlistens : listensAt authority ⟨target.secure, target.authority, path⟩ = true := h.listens
  rw [Server.respond, if_pos hlistens]

theorem respond_fetch (replies : List Reply) (id : String) :
    (Server.scripted authority replies).respond
        (Url.target? (address settings ("cursor/" ++ id))) =
      ((nextReply replies).1, .scripted authority (nextReply replies).2) := by
  obtain ⟨path, hpath⟩ := h.fetch id
  rw [hpath]
  exact h.respond replies path

/-- Each request takes a reply of the script. -/
theorem after (replies : List Reply) (n : Nat) :
    (Server.scripted authority replies).after (Url.target? (address settings "cursor")) n =
      .scripted authority (replies.drop n) := by
  induction n generalizing replies with
  | zero => rfl
  | succ n ih =>
    have hnext : (nextReply replies).2 = replies.drop 1 := by cases replies <;> rfl
    rw [Server.after, h.found, h.respond replies target.path, hnext, ← h.found, ih,
      List.drop_drop, Nat.add_comm]

/-- A script that has come to its end reports an error that is not worth another attempt. -/
theorem openingStops (statement : Statement) (replies : List Reply) :
    OpeningStops settings statement (.scripted authority replies) replies.length := by
  left
  have hanswer : openingAnswer settings (.scripted authority replies) (replies.length + 1) =
      .ok exhausted := by
    rw [openingAnswer, Server.answer, Nat.add_sub_cancel, h.after, List.drop_length, h.found,
      h.respond]
    rfl
  show (RetryPolicy.ofShape statement.shape).settles (openingOutcome settings _ _) = true
  rw [openingOutcome, hanswer]
  cases RetryPolicy.ofShape statement.shape <;> decide +kernel

end Reaches

/-! ## One batch -/

section Drain

variable {ω : Type} {observe : Event → Option ω} {settings : Settings} {fuel : Nat}
  {result : CursorResult} {batch next : Batch} {server later last : Server} {id : String}
  {outcome : Except ExecError CursorResult} {seen further : List ω}

theorem runs_drain_last (hmore : batch.hasMore = false) (server : Server) :
    Runs observe (drain settings (fuel + 1) result batch) server (.ok (extend result batch)) server
      [] := by
  rw [drain, hmore]
  exact Runs.pure _ server

theorem runs_drain_idless (hmore : batch.hasMore = true) (hid : batch.id = none)
    (server : Server) :
    Runs observe (drain settings (fuel + 1) result batch) server
      (.error (.invalidResponse .cursorWithoutId)) server [] := by
  rw [drain, hmore, hid]
  exact Runs.fail _ server

theorem runs_drain_failed {e : ExecError} (hmore : batch.hasMore = true)
    (hid : batch.id = some id)
    (hfetch : Runs observe (nextBatch settings id) server (.error e) later seen) :
    Runs observe (drain settings (fuel + 1) result batch) server (.error e) later seen := by
  rw [drain, hmore, hid]
  exact hfetch.bind_error

theorem runs_drain_next (hmore : batch.hasMore = true) (hid : batch.id = some id)
    (hfetch : Runs observe (nextBatch settings id) server (.ok next) later seen)
    (hnext : Runs observe (drain settings fuel (extend result batch) next) later outcome last
      further) :
    Runs observe (drain settings (fuel + 1) result batch) server outcome last
      (seen ++ further) := by
  rw [drain, hmore, hid]
  exact hfetch.bind hnext

end Drain

/-! ## All batches -/

/-- The batch that a reply carries. -/
def Reply.batch (reply : Reply) : Except ExecError Batch :=
  reply.response >>= received batch?

/-- Only an answer carries a batch. -/
theorem Reply.answer_of_batch {reply : Reply} {batch : Batch} (h : reply.batch = .ok batch) :
    ∃ status body, reply = .answer status body := by
  cases reply with
  | answer status body => exact ⟨status, body, rfl⟩
  | _ => cases h

/-- From the batch `first` the replies lead to the batch `last`: each of the batches `read` before
it announces another one, under one of the `ids` in their order, and the next reply carries it. -/
inductive Leads (last : Batch) :
    (first : Batch) → (replies : List Reply) → (read : List Batch) → (ids : List String) → Prop
  | here : Leads last last [] [] []
  | more {first next : Batch} {reply : Reply} {replies : List Reply} {read : List Batch}
      {id : String} {ids : List String} (hmore : first.hasMore = true) (hid : first.id = some id)
      (hreply : reply.batch = .ok next) (hnext : Leads last next replies read ids) :
      Leads last first (reply :: replies) (first :: read) (id :: ids)

/-- How a reading can end at a batch, with the rest of the script to come: it is the last one, it
announces another one without an id, or the request for the next one fails. -/
inductive Ends (rest : List Reply) (batch : Batch) : Prop
  | complete (hmore : batch.hasMore = false)
  | idless (hmore : batch.hasMore = true) (hid : batch.id = none)
  | failed {id : String} {e : ExecError} (hmore : batch.hasMore = true) (hid : batch.id = some id)
      (hnext : (nextReply rest).1 >>= received batch? = .error e)

/-- Every script leads to an end. -/
theorem exists_leads (script : List Reply) (first : Batch) :
    ∃ replies rest read ids last, script = replies ++ rest ∧ Leads last first replies read ids ∧
      Ends rest last := by
  induction script generalizing first with
  | nil =>
    refine ⟨[], [], [], [], first, rfl, .here, ?_⟩
    cases hmore : first.hasMore with
    | false => exact .complete hmore
    | true =>
      cases hid : first.id with
      | none => exact .idless hmore hid
      | some id => exact .failed hmore hid rfl
  | cons reply script ih =>
    cases hmore : first.hasMore with
    | false => exact ⟨[], _, [], [], first, rfl, .here, .complete hmore⟩
    | true =>
      cases hid : first.id with
      | none => exact ⟨[], _, [], [], first, rfl, .here, .idless hmore hid⟩
      | some id =>
        cases hreply : reply.batch with
        | error e => exact ⟨[], _, [], [], first, rfl, .here, .failed hmore hid hreply⟩
        | ok next =>
          obtain ⟨replies, rest, read, ids, last, hscript, hleads, hends⟩ := ih next
          exact ⟨reply :: replies, rest, first :: read, id :: ids, last, by rw [hscript]; rfl,
            .more hmore hid hreply hleads, hends⟩

/-- What is observed of the request for the next batch. -/
def fetchSeen {ω : Type} (observe : Event → Option ω) (settings : Settings) (id : String)
    (server : Server) : List ω :=
  (sendingEvents .put (address settings ("cursor/" ++ id)) (authorization settings) none
    server).filterMap observe

theorem fetchSeen_attempt (settings : Settings) (id : String) (server : Server) :
    fetchSeen Event.attempt? settings id server = [fetchAttempt settings id] := by
  rw [fetchSeen, attempts_sendingEvents, address_fetch]
  rfl

/-- A request that is not refused arrives, and under a plain id it arrives there. -/
theorem fetchSeen_arrival {settings : Settings} {authority : String} {target : Url.Target}
    (hreach : Reaches settings authority target)
    (hmarks : Url.IsUnmarked (settings.baseUrl ++ settings.database).toList)
    {id : String} (hid : Url.IsPlain id.toList) (replies : List Reply) :
    fetchSeen Event.arrival? settings id (.scripted authority replies) =
      if replies.head? = some .refuse then [] else [fetchArrival settings target id] := by
  have hlistens : listensAt authority ⟨target.secure, target.authority, target.path ++ "/" ++ id⟩ =
      true := hreach.listens
  rw [fetchSeen, arrivals_sendingEvents, hreach.fetch_plain hmarks hid]
  rcases replies with _ | ⟨_ | _ | _ | _, rest⟩ <;> simp [Server.pathOf?, hlistens, fetchArrival]

section Observed

variable {ω : Type} {observe : Event → Option ω} (hquiet : Event.Quiet observe)
  {settings : Settings} {authority : String} {target : Url.Target}
  (hreach : Reaches settings authority target)
include hquiet hreach

theorem runs_fetch (id : String) (replies : List Reply) :
    Runs observe (nextBatch settings id) (.scripted authority replies)
      ((nextReply replies).1 >>= received batch?) (.scripted authority (nextReply replies).2)
      (fetchSeen observe settings id (.scripted authority replies)) := by
  have hruns := runs_nextBatch hquiet settings (.scripted authority replies) id
  rw [hreach.respond_fetch] at hruns
  exact hruns

/-- Reading goes on from the batch that the replies lead to, with all batches before it added and
each id asked for once. -/
theorem runs_drain_of_leads {first last : Batch} {replies rest : List Reply}
    {read : List Batch} {ids : List String} (hleads : Leads last first replies read ids)
    {fetched : String → ω}
    (hfetched : ∀ id ∈ ids, ∀ status body more,
      fetchSeen observe settings id (.scripted authority (.answer status body :: more)) =
        [fetched id])
    {fuel : Nat} {result : CursorResult} {outcome : Except ExecError CursorResult}
    {final : Server} {seen : List ω}
    (hlast : Runs observe (drain settings fuel (read.foldl extend result) last)
      (.scripted authority rest) outcome final seen) :
    Runs observe (drain settings (fuel + replies.length) result first)
      (.scripted authority (replies ++ rest)) outcome final (ids.map fetched ++ seen) := by
  -- each batch before the last takes one request, one reply and one unit of fuel
  induction hleads generalizing result with
  | here => exact hlast
  | @more first next reply replies read id ids hmore hid hreply _ ih =>
    obtain ⟨status, body, rfl⟩ := Reply.answer_of_batch hreply
    have hfetch := runs_fetch hquiet hreach id (.answer status body :: replies ++ rest)
    rw [show (nextReply (.answer status body :: replies ++ rest)).1 >>= received batch? = .ok next
      from hreply] at hfetch
    have hseen := hfetched id List.mem_cons_self status body (replies ++ rest)
    have hnext := ih (fun id hid => hfetched id (List.mem_cons_of_mem _ hid)) hlast
    show Runs observe (drain settings (fuel + replies.length + 1) result first) _ _ _
      ([fetched id] ++ (ids.map fetched ++ seen))
    rw [← hseen]
    exact runs_drain_next hmore hid hfetch hnext

end Observed

theorem foldl_extend (batches : List Batch) (result : CursorResult) :
    batches.foldl extend result =
      ⟨result.rows ++ batches.flatMap fun b => b.result.map Row.ofJson,
        (batches.map Batch.writes).foldl max result.writes⟩ := by
  induction batches generalizing result with
  | nil =>
    rw [List.foldl_nil, List.flatMap_nil, List.append_nil]
    rfl
  | cons batch rest ih =>
    rw [List.foldl_cons, ih, extend, List.flatMap_cons, ← List.append_assoc]
    rfl

/-! ## Documents written -/

/-- The document of a batch says nothing of documents that were written: one of the records on the
way to their number is missing, or the number is. -/
def Unreported (members : List (String × Json)) : Prop :=
  members.lookup "extra" = none ∨ members.lookup "extra" = some .null ∨
    ∃ extra, members.lookup "extra" = some (.object extra) ∧
      (extra.lookup "stats" = none ∨
        ∃ stats, extra.lookup "stats" = some (.object stats) ∧
          stats.lookup "writesExecuted" = none)

theorem fields?_object {names : List String} {members : List (String × Json)}
    {fields : Fields Json} (h : fields? names (.object members) = some fields) :
    fields = .ofPairs members := by
  rw [fields?] at h
  split at h
  · cases h
  · exact (Option.some.inj h).symm

theorem getOr_missing {fields : Fields Json} {name : String} {fallback value : UInt64}
    {read : Json → Option UInt64} (hname : fields name = none)
    (h : fields.getOr name fallback read = some value) : value = fallback := by
  rw [Fields.getOr, hname] at h
  exact (Option.some.inj h).symm

theorem getOr_present {fields : Fields Json} {name : String} {fallback value : UInt64}
    {read : Json → Option UInt64} {content : Json} (hname : fields name = some content)
    (h : fields.getOr name fallback read = some value) : read content = some value := by
  rw [Fields.getOr, hname] at h
  exact h

/-- Nothing said counts as nothing written. -/
theorem writes_of_unreported {members : List (String × Json)} {batch : Batch}
    (hbatch : batchOf? (.object members) = some batch) (h : Unreported members) :
    batch.writes = 0 := by
  obtain ⟨fields, hfields, hbatch⟩ := Option.bind_eq_some_iff.mp hbatch
  obtain ⟨result, _, hbatch⟩ := Option.bind_eq_some_iff.mp hbatch
  obtain ⟨hasMore, _, hbatch⟩ := Option.bind_eq_some_iff.mp hbatch
  obtain ⟨id, _, hbatch⟩ := Option.bind_eq_some_iff.mp hbatch
  obtain ⟨writes, hwrites, hbatch⟩ := Option.bind_eq_some_iff.mp hbatch
  cases hbatch
  show writes = 0
  cases fields?_object hfields
  -- down the records, until one of them says nothing
  rcases h with hextra | hextra | ⟨extra, hextra, h⟩
  · exact getOr_missing hextra hwrites
  · have hnull : extra? .null = some writes := getOr_present hextra hwrites
    exact (Option.some.inj hnull).symm
  · have hobject : extra? (.object extra) = some writes := getOr_present hextra hwrites
    obtain ⟨fields, hfields, hstats⟩ := Option.bind_eq_some_iff.mp hobject
    cases fields?_object hfields
    rcases h with habsent | ⟨stats, hpresent, h⟩
    · exact getOr_missing habsent hstats
    · obtain ⟨fields, hfields, hnumber⟩ :=
        Option.bind_eq_some_iff.mp (getOr_present hpresent hstats)
      cases fields?_object hfields
      exact getOr_missing h hnumber

/-! ## Whole executions -/

/-- What a statement comes to whose batches are `batches`. -/
def collected (batches : List Batch) : CursorResult where
  rows := batches.flatMap fun b => b.result.map Row.ofJson
  writes := (batches.map Batch.writes).foldl max 0

theorem extend_foldl_extend (read : List Batch) (last : Batch) :
    extend (read.foldl extend {}) last = collected (read ++ [last]) := by
  have hfold : extend (read.foldl extend {}) last = (read ++ [last]).foldl extend {} := by
    rw [List.foldl_append]
    rfl
  rw [hfold, foldl_extend]
  rfl

section Execution

variable {ω : Type} {observe : Event → Option ω} (hquiet : Event.Quiet observe)
  {settings : Settings} {statement : Statement} {s opened : Session} {first : Batch}
include hquiet

/-- A statement whose cursor is open ends as the reading of its batches does. -/
theorem execute_of_open (hends : ∃ n, OpeningStops settings statement s.server n)
    (hopen : openCursor settings statement s = (.ok first, opened))
    {outcome : Except ExecError CursorResult} {later : Server} {seen : List ω}
    (hdrain : Runs observe (drain settings (opened.server.remaining + 1) {} first) opened.server
      outcome later seen) :
    (execute settings statement s).1 = outcome ∧
      (execute settings statement s).2.events.filterMap observe =
        opened.events.filterMap observe ++ seen := by
  obtain ⟨n, hlast, hbefore⟩ := exists_opening_end hends
  have hruns := runs_openCursor hquiet hbefore hlast
  obtain ⟨houtcome, hserver, hevents⟩ := hruns s rfl
  rw [hopen] at houtcome hserver hevents
  dsimp only at houtcome hserver hevents
  rw [← houtcome, ← hserver] at hruns
  have hall : Runs observe (drainAll settings first) opened.server outcome later seen := by
    intro s' hs'
    rw [drainAll, hs']
    exact hdrain s' hs'
  have hrest : Runs observe (do
      let result ← drainAll settings first
      log .debug "Statement finished"
      pure result) opened.server outcome later seen := by
    cases outcome with
    | error e => exact hall.bind_error
    | ok result =>
      have hend := hall.bind (f := fun result => do log .debug "Statement finished"; pure result)
        (Runs.after_log hquiet (Runs.pure result later))
      rw [List.append_nil] at hend
      exact hend
  have hexecute : Runs observe (execute settings statement) s.server outcome later _ :=
    Runs.after_log hquiet (hruns.bind hrest)
  obtain ⟨hfinal, _, hfinally⟩ := hexecute s rfl
  refine ⟨hfinal, ?_⟩
  rw [hfinally, hevents, List.append_assoc]

theorem execute_of_leads {authority : String} {target : Url.Target}
    (hreach : Reaches settings authority target)
    (hends : ∃ n, OpeningStops settings statement s.server n)
    (hopen : openCursor settings statement s = (.ok first, opened)) {replies rest : List Reply}
    (hopened : opened.server = .scripted authority (replies ++ rest)) {last : Batch}
    {read : List Batch} {ids : List String} (hleads : Leads last first replies read ids)
    (fetched : String → ω)
    (hfetched : ∀ id ∈ ids, ∀ status body more,
      fetchSeen observe settings id (.scripted authority (.answer status body :: more)) =
        [fetched id])
    {outcome : Except ExecError CursorResult} {final : Server} {seen : List ω}
    (hlast : Runs observe (drain settings (rest.length + 1) (read.foldl extend {}) last)
      (.scripted authority rest) outcome final seen) :
    (execute settings statement s).1 = outcome ∧
      (execute settings statement s).2.events.filterMap observe =
        opened.events.filterMap observe ++ (ids.map fetched ++ seen) := by
  have hfuel : opened.server.remaining + 1 = rest.length + 1 + replies.length := by
    rw [hopened]
    simp only [Server.remaining, List.length_append]
    omega
  have hdrain := runs_drain_of_leads hquiet hreach hleads hfetched hlast
  rw [← hfuel, ← hopened] at hdrain
  exact execute_of_open hquiet hends hopen hdrain

end Execution

/-- From a session with an open cursor to a later one, the client asks for the next batch under the
ids `asked`, each at its own address. For ids that an address leaves as they are, the requests for
`reached` arrive, each below the place where cursors are opened. -/
structure Fetches (settings : Settings) (target : Url.Target) (opened later : Session)
    (asked reached : List String) : Prop where
  attempts : later.attempts = opened.attempts ++ asked.map (fetchAttempt settings)
  arrivals : Url.IsUnmarked (settings.baseUrl ++ settings.database).toList →
    (∀ id ∈ asked, Url.IsPlain id.toList) →
      later.arrivals = opened.arrivals ++ reached.map (fetchArrival settings target)

section Opened

variable {settings : Settings} {statement : Statement} {s opened : Session} {first : Batch}
  {authority : String} {target : Url.Target} {script : List Reply}
  (hreach : Reaches settings authority target) (hserver : s.server = .scripted authority script)
  (hopen : openCursor settings statement s = (.ok first, opened))
include hreach hserver hopen

/-- Each attempt to open a cursor took a reply of the script. -/
theorem opened_of_open :
    ∃ n, opened.server = .scripted authority (script.drop (n + 1)) ∧
      opened.attempts = s.attempts ++
        List.replicate (n + 1) (openingAttempt settings statement) := by
  obtain ⟨n, hlast, hbefore⟩ := exists_opening_end ⟨_, hreach.openingStops statement script⟩
  obtain ⟨_, hlater, hattempts⟩ := attempts_openCursor hbefore hlast s hserver
  rw [hopen] at hlater hattempts
  rw [hreach.after] at hlater
  exact ⟨n, hlater, hattempts⟩

/-- What the reading of the last batch comes to, and under which ids it still asks, is what the
whole execution comes to. -/
theorem execute_fetches {replies rest : List Reply}
    (hopened : opened.server = .scripted authority (replies ++ rest)) {last : Batch}
    {read : List Batch} {ids : List String} (hleads : Leads last first replies read ids)
    (asking : List String) (final : Server) {outcome : Except ExecError CursorResult}
    (hlast : ∀ {ω : Type} {observe : Event → Option ω}, Event.Quiet observe →
      Runs observe (drain settings (rest.length + 1) (read.foldl extend {}) last)
        (.scripted authority rest) outcome final
        (asking.flatMap fun id => fetchSeen observe settings id (.scripted authority rest))) :
    (execute settings statement s).1 = outcome ∧
      Fetches settings target opened (execute settings statement s).2 (ids ++ asking)
        (ids ++ if rest.head? = some .refuse then [] else asking) := by
  have hends : ∃ n, OpeningStops settings statement s.server n := by
    rw [hserver]
    exact ⟨_, hreach.openingStops statement script⟩
  obtain ⟨houtcome, hattempts⟩ := execute_of_leads Event.quiet_attempt? hreach hends hopen hopened
    hleads _ (fun id _ _ _ _ => fetchSeen_attempt settings id _) (hlast Event.quiet_attempt?)
  refine ⟨houtcome, ⟨?_, fun hmarks hplain => ?_⟩⟩
  · refine hattempts.trans (congrArg (opened.attempts ++ ·) ?_)
    simp only [fetchSeen_attempt, ← List.map_eq_flatMap, List.map_append]
  · have hids : ∀ id ∈ ids, Url.IsPlain id.toList :=
      fun id hid => hplain id (List.mem_append_left _ hid)
    obtain ⟨_, harrivals⟩ := execute_of_leads Event.quiet_arrival? hreach hends hopen hopened
      hleads (fetchArrival settings target)
      (fun id hid _ _ _ => fetchSeen_arrival hreach hmarks (hids id hid) _)
      (hlast Event.quiet_arrival?)
    have hasking : ∀ id ∈ asking,
        fetchSeen Event.arrival? settings id (.scripted authority rest) =
          if rest.head? = some .refuse then [] else [fetchArrival settings target id] :=
      fun id hid => fetchSeen_arrival hreach hmarks (hplain id (List.mem_append_right _ hid)) rest
    refine harrivals.trans (congrArg (opened.arrivals ++ ·) ?_)
    rw [List.flatMap_def, List.map_congr_left hasking, ← List.flatMap_def, List.map_append]
    split
    · simp
    · rw [← List.map_eq_flatMap]

end Opened

/-- A statement whose cursor is opened ends in one of three ways, by the batches that the script
holds from there on. Up to the last batch it comes to the rows of all of them, each batch asked for
once under the id of the one before. At a batch that announces another one without an id, and at a
request that fails, it ends with that error and asks for nothing more. -/
theorem execute_drains {settings : Settings} {statement : Statement} {s opened : Session}
    {first : Batch} {authority : String} {script : List Reply} {target : Url.Target}
    (hserver : s.server = .scripted authority script)
    (htarget : Url.target? (settings.baseUrl ++ "/_db/" ++ settings.database ++ "/_api/cursor") =
      some target)
    (hlistens : target.secure = false ∧ target.authority = authority)
    (hopen : openCursor settings statement s = (.ok first, opened)) :
    (∃ k, 0 < k ∧ opened.server = .scripted authority (script.drop k) ∧
      opened.attempts = s.attempts ++ List.replicate k (openingAttempt settings statement) ∧
      (∃ replies rest read ids last, script.drop k = replies ++ rest ∧
        Leads last first replies read ids ∧ Ends rest last) ∧
      ∀ replies rest read ids last, script.drop k = replies ++ rest →
        Leads last first replies read ids →
        (last.hasMore = false →
          (execute settings statement s).1 = .ok (collected (read ++ [last])) ∧
          Fetches settings target opened (execute settings statement s).2 ids ids) ∧
        (last.hasMore = true → last.id = none →
          (execute settings statement s).1 = .error (.invalidResponse .cursorWithoutId) ∧
          Fetches settings target opened (execute settings statement s).2 ids ids) ∧
        (∀ id e, last.hasMore = true → last.id = some id →
          (nextReply rest).1 >>= received batch? = .error e →
          (execute settings statement s).1 = .error e ∧
          Fetches settings target opened (execute settings statement s).2 (ids ++ [id])
            (ids ++ if rest.head? = some .refuse then [] else [id]))) ∧
    (∀ members batch, batchOf? (.object members) = some batch → Unreported members →
      batch.writes = 0) := by
  have hreach : Reaches settings authority target := by
    refine ⟨(congrArg Url.target? (address_cursor settings)).trans htarget, ?_⟩
    rw [listensAt, hlistens.1, hlistens.2, beq_self_eq_true]
    rfl
  obtain ⟨n, hopened, hattempts⟩ := opened_of_open hreach hserver hopen
  refine ⟨⟨n + 1, Nat.succ_pos n, hopened, hattempts, exists_leads _ first, ?_⟩,
    fun _ _ => writes_of_unreported⟩
  intro replies rest read ids last hscript hleads
  rw [hscript] at hopened
  refine ⟨fun hmore => ?_, fun hmore hid => ?_, fun id e hmore hid hnext => ?_⟩
  · obtain ⟨houtcome, hfetches⟩ := execute_fetches hreach hserver hopen hopened hleads [] _
      fun _ => runs_drain_last hmore _
    rw [extend_foldl_extend] at houtcome
    rw [List.append_nil, ite_self, List.append_nil] at hfetches
    exact ⟨houtcome, hfetches⟩
  · obtain ⟨houtcome, hfetches⟩ := execute_fetches hreach hserver hopen hopened hleads [] _
      fun _ => runs_drain_idless hmore hid _
    rw [List.append_nil, ite_self, List.append_nil] at hfetches
    exact ⟨houtcome, hfetches⟩
  · refine execute_fetches hreach hserver hopen hopened hleads [id]
      (.scripted authority (nextReply rest).2) fun hquiet => ?_
    have hfetch := runs_fetch hquiet hreach id rest
    rw [hnext] at hfetch
    rw [List.flatMap_singleton]
    exact runs_drain_failed hmore hid hfetch

/-- A server that is not there at first, and then has the first of three batches. -/
def pagedSession (pages : List Reply) : Session where
  server := .scripted "127.0.0.1:8529"
    (.refuse :: .answer 201 "\x7b\"result\":[1],\"hasMore\":true,\"id\":\"7\"\x7d" :: pages)

/-- The batch in the middle, which reports how much was written. -/
def middlePage : Reply :=
  .answer 200 ("\x7b\"result\":[\x7b\"a\":2\x7d],\"hasMore\":true,\"id\":\"8\"," ++
    "\"extra\":\x7b\"stats\":\x7b\"writesExecuted\":5\x7d\x7d\x7d")

/-- The batch at the end, which does not. -/
def lastPage : Reply := .answer 200 "\x7b\"result\":[3],\"extra\":\x7b\x7d\x7d"

theorem execute_drains_paged :
    Url.target? (({} : Settings).baseUrl ++ "/_db/" ++ ({} : Settings).database ++ "/_api/cursor") =
      some ⟨false, "127.0.0.1:8529", "/_db/_system/_api/cursor"⟩ ∧
    (openCursor {} removal (pagedSession [middlePage, lastPage])).1 =
      .ok ⟨[.number (.int 1)], true, some "7", 0⟩ ∧
    (execute {} removal (pagedSession [middlePage, lastPage])).1 =
      .ok ⟨[[("value", .number (.int 1))], [("a", .number (.int 2))],
        [("value", .number (.int 3))]], 5⟩ ∧
    (execute {} removal (pagedSession [middlePage, lastPage])).2.attempts.map
        (fun a => (a.method, a.address)) =
      [(.post, "http://127.0.0.1:8529/_db/_system/_api/cursor"),
        (.post, "http://127.0.0.1:8529/_db/_system/_api/cursor"),
        (.put, "http://127.0.0.1:8529/_db/_system/_api/cursor/7"),
        (.put, "http://127.0.0.1:8529/_db/_system/_api/cursor/8")] ∧
    (execute {} removal (pagedSession [middlePage, lastPage])).2.arrivals.map
        (fun r => (r.method, r.path)) =
      [(.post, "/_db/_system/_api/cursor"), (.put, "/_db/_system/_api/cursor/7"),
        (.put, "/_db/_system/_api/cursor/8")] := by
  have htarget : Url.target? (({} : Settings).baseUrl ++ "/_db/" ++ ({} : Settings).database ++
      "/_api/cursor") = some ⟨false, "127.0.0.1:8529", "/_db/_system/_api/cursor"⟩ := by
    decide +kernel
  have hdone : ((Round.first {}).plays (.ofShape removal.shape) {} (postStatement {} removal) 2
      (pagedSession [middlePage, lastPage])).1 =
        .ok (.done ⟨[.number (.int 1)], true, some "7", 0⟩) := by decide +kernel
  obtain ⟨opened, hopen, hpages, hposted, harrived⟩ : ∃ opened : Session,
      openCursor {} removal (pagedSession [middlePage, lastPage]) =
        (.ok ⟨[.number (.int 1)], true, some "7", 0⟩, opened) ∧
      opened.server = .scripted "127.0.0.1:8529" ([middlePage, lastPage] ++ []) ∧
      opened.attempts.map (fun a => (a.method, a.address)) = List.replicate 2
        (.post, "http://127.0.0.1:8529/_db/_system/_api/cursor") ∧
      opened.arrivals.map (fun r => (r.method, r.path)) =
        [(.post, "/_db/_system/_api/cursor")] :=
    ⟨_, attempt_of_done hdone, by decide +kernel, by decide +kernel, by decide +kernel⟩
  have hmiddle : middlePage.batch =
      .ok ⟨[.object [("a", .number (.int 2))]], true, some "8", 5⟩ := by decide +kernel
  have hlast : lastPage.batch = .ok ⟨[.number (.int 3)], false, none, 0⟩ := by decide +kernel
  obtain ⟨⟨k, _, hopened, _, _, hends⟩, _⟩ := execute_drains rfl htarget ⟨rfl, rfl⟩ hopen
  rw [hpages] at hopened
  obtain ⟨houtcome, hfetches⟩ := (hends _ _ _ _ _ (Server.scripted.inj hopened).2.symm
    (.more rfl rfl hmiddle (.more rfl rfl hlast .here))).1 rfl
  refine ⟨htarget, congrArg Prod.fst hopen, houtcome, ?_, ?_⟩
  · rw [hfetches.attempts, List.map_append, hposted]
    decide +kernel
  · rw [hfetches.arrivals (by decide +kernel) (by decide +kernel), List.map_append, harrived]
    decide +kernel

end AqlQuery.Cursor

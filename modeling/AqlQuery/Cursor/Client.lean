import AqlQuery.Cursor.Reply
import AqlQuery.Cursor.Retry

/-!
# The cursor client

A statement is posted to open a cursor, and further batches are fetched by the cursor's id.
Opening may be repeated; fetching a batch never is, because the server may have moved past the
batch that a lost answer carried.
-/

namespace AqlQuery.Cursor

/-! ## Answers -/

def isSuccess (status : UInt16) : Bool := 200 ≤ status && status ≤ 299

/-- The error that an answer without success reports. -/
def backendError (r : Response) : ExecError :=
  let document := errorDocument r.body
  .backend (document.code.getD r.status) (document.errorNum.getD 0)
    (document.message.getD ("HTTP " ++ Text.decimal r.status.toNat))

/-- Reads the body of a successful answer by `decode` (`handle_response`). -/
def receive {α : Type} (decode : String → Option α) (r : Response) : Exec Session α :=
  if isSuccess r.status then
    match decode r.body with
    | some a => pure a
    | none => do
      log .warn "Failed to parse response JSON"
      Exec.fail (.invalidResponse .undecodable)
  else do
    log .warn ("ArangoDB request failed: " ++ (backendError r).message)
    Exec.fail (backendError r)

/-! ## Requests -/

/-- Address of a resource of the database (`url`). -/
def address (settings : Settings) (resource : String) : String :=
  settings.baseUrl ++ "/_db/" ++ settings.database ++ "/_api/" ++ resource

def authorization (settings : Settings) : String :=
  "Basic " ++ Text.base64 (settings.username ++ ":" ++ settings.password)

/-- The body that opens a cursor. -/
def cursorBody (settings : Settings) (statement : Statement) : Json :=
  .object
    [("query", .string statement.text), ("bindVars", statement.bindings.toJson),
      ("count", .bool false),
      ("batchSize", .number (.int (Int.ofNat settings.batchSize.toNat)))]

/-- One attempt to open a cursor. -/
def postStatement (settings : Settings) (statement : Statement) : Exec Session Batch := do
  let response ← send .post (address settings "cursor") (authorization settings)
    (some (cursorBody settings statement))
  receive batch? response

/-- Opens a cursor, in as many attempts as it takes (`open_cursor`). -/
def openCursor (settings : Settings) (statement : Statement) : Exec Session Batch :=
  repeating (.ofShape statement.shape) settings.retry (postStatement settings statement)

/-- Fetches the next batch of a cursor (`next_batch`). -/
def nextBatch (settings : Settings) (id : String) : Exec Session Batch := do
  log .debug "Fetching next cursor batch"
  let response ← send .put (address settings ("cursor/" ++ id)) (authorization settings) none
  receive batch? response

/-! ## Reading a cursor to its end -/

/-- Adds a batch to what has been read. -/
def extend (result : CursorResult) (batch : Batch) : CursorResult where
  rows := result.rows ++ batch.result.map Row.ofJson
  writes := max result.writes batch.writes

/-- Reads batches until the last one. -/
def drain (settings : Settings) : Nat → CursorResult → Batch → Exec Session CursorResult
  | 0, _, _ => Exec.fail (.http .broken)
  | fuel + 1, result, batch =>
    if batch.hasMore then
      match batch.id with
      | none => Exec.fail (.invalidResponse .cursorWithoutId)
      | some id => do
        let next ← nextBatch settings id
        drain settings fuel (extend result batch) next
    else pure (extend result batch)

/-- Reads a cursor from its first batch to its last. Every further batch takes a reply of the
server, so that one step more than it has replies is enough. -/
def drainAll (settings : Settings) (batch : Batch) : Exec Session CursorResult := fun s =>
  drain settings (s.server.remaining + 1) {} batch s

/-! ## The executor -/

/-- Checks the settings of a new client (`with_config`). -/
def create (settings : Settings) : Exec Session Unit :=
  match settings.validate with
  | .error e => Exec.fail (.config e)
  | .ok _ => log .info "Creating ArangoDB client"

def execute (settings : Settings) (statement : Statement) : Exec Session CursorResult := do
  log .debug "Executing statement"
  let batch ← openCursor settings statement
  let result ← drainAll settings batch
  log .debug "Statement finished"
  pure result

/-- One attempt to remove all documents of a collection; the answer may be any JSON. -/
def putTruncate (settings : Settings) (collection : String) : Exec Session Unit := do
  let response ← send .put (address settings ("collection/" ++ collection ++ "/truncate"))
    (authorization settings) none
  receive (fun body => (Json.document? body).map fun _ => ()) response

/-- Removes all documents of a collection. Doing so twice does no harm. -/
def truncate (settings : Settings) (collection : String) : Exec Session Unit := do
  log .info "Truncating collection"
  repeating .transient settings.retry (putTruncate settings collection)

/-- The client as an executor. -/
def executor (settings : Settings) : Executor Session where
  execute := execute settings
  truncate := truncate settings

end AqlQuery.Cursor

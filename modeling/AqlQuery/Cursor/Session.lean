import AqlQuery.Cursor.Url
import AqlQuery.Exec.Executor

/-!
# Sessions with a server

The server is a script of replies under an address, or one that refuses every connection, or one
that never answers. What happens in a session is a list of events: requests as the client makes
them and as they arrive, waits, and lines of the log.
-/

namespace AqlQuery.Cursor

inductive Method where
  | post
  | put
  deriving DecidableEq

def Method.name : Method → String
  | .post => "POST"
  | .put => "PUT"

/-- A request as the client makes it, whether it arrives or not. -/
structure Attempt where
  method : Method
  address : String
  authorization : String
  body : Option Json
  deriving DecidableEq

/-- A request as it arrives. -/
structure Request where
  method : Method
  path : String
  authorization : String
  body : Option Json
  deriving DecidableEq

inductive Level where
  | debug
  | info
  | warn
  deriving DecidableEq

def Level.name : Level → String
  | .debug => "DEBUG"
  | .info => "INFO"
  | .warn => "WARN"

inductive Event where
  | attempted (attempt : Attempt)
  | sent (request : Request)
  | waited (milliseconds : Nat)
  | logged (level : Level) (message : String)
  deriving DecidableEq

/-- How the server takes a request: it answers, it hangs up, it refuses the connection, or it lets
the client wait too long. -/
inductive Reply where
  | answer (status : UInt16) (body : String)
  | hangUp
  | refuse
  | stall
  deriving DecidableEq

inductive Server where
  | scripted (authority : String) (replies : List Reply)
  | closed
  | silent
  deriving DecidableEq

/-- Number of replies that a server still has. -/
def Server.remaining : Server → Nat
  | .scripted _ replies => replies.length
  | .closed => 0
  | .silent => 0

/-- The server and what has happened so far. -/
structure Session where
  server : Server
  events : List Event := []
  deriving DecidableEq

/-- Adds an event. -/
def note (event : Event) : Exec Session Unit :=
  Exec.modify fun s => { s with events := s.events ++ [event] }

def log (level : Level) (message : String) : Exec Session Unit := note (.logged level message)

/-! ## Sending -/

/-- Status and body of an answer. -/
structure Response where
  status : UInt16
  body : String
  deriving DecidableEq

/-- The answer of a script that has come to its end. -/
def exhausted : Response := ⟨500, "\x7b\"errorMessage\":\"script exhausted\"\x7d"⟩

/-- Answers with these statuses have no body. -/
def isBodiless (status : UInt16) : Bool := status == 204 || status == 304

/-- The answer as a client sees it. -/
def responseOf (status : UInt16) (body : String) : Response :=
  ⟨status, if isBodiless status then "" else body⟩

/-- What the client gets to see of a reply. -/
def Reply.response : Reply → Except ExecError Response
  | .answer status body => .ok (responseOf status body)
  | .hangUp => .error (.http .broken)
  | .refuse => .error (.http .refused)
  | .stall => .error (.http .timedOut)

/-- The next reply of a script, and the script after it. -/
def nextReply : List Reply → Except ExecError Response × List Reply
  | [] => (.ok exhausted, [])
  | reply :: rest => (reply.response, rest)

/-- Whether a target is the place where a script listens, under its own authority and
unencrypted. -/
def listensAt (authority : String) (target : Url.Target) : Bool :=
  !target.secure && target.authority == authority

/-- What a request to a target gets from the server, and the server after it. Without a target
there is no one to ask. -/
def Server.respond : Server → Option Url.Target → Except ExecError Response × Server
  | server, none => (.error (.http .broken), server)
  | .closed, some _ => (.error (.http .refused), .closed)
  | .silent, some _ => (.error (.http .timedOut), .silent)
  | .scripted authority replies, some target =>
    if listensAt authority target then
      ((nextReply replies).1, .scripted authority (nextReply replies).2)
    else (.error (.http .refused), .scripted authority replies)

/-- The path under which a request arrives; a refused one does not. -/
def Server.pathOf? : Server → Option Url.Target → Option String
  | .scripted _ (.refuse :: _), _ => none
  | .scripted authority _, some target =>
    if listensAt authority target then some target.path else none
  | _, _ => none

/-- Sends one request to an address. -/
def send (method : Method) (address authorization : String) (body : Option Json) :
    Exec Session Response := fun s =>
  let target := Url.target? address
  let attempted := Event.attempted ⟨method, address, authorization, body⟩
  let arrived := (s.server.pathOf? target).map fun path =>
    Event.sent ⟨method, path, authorization, body⟩
  ((s.server.respond target).1,
    ⟨(s.server.respond target).2, s.events ++ attempted :: arrived.toList⟩)

end AqlQuery.Cursor

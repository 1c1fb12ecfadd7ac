import AqlQuery.Query.Error
import AqlQuery.Settings

/-!
# What can go wrong while a statement is run

Two questions decide whether a request may be repeated: whether repeating it may help, and whether
the server certainly did nothing. A refused connection and an unavailable server answer both with
yes; a timeout answers the second with no.
-/

namespace AqlQuery

/-- How an exchange with the server failed before an answer arrived. -/
inductive TransportError where
  | refused
  | timedOut
  | broken
  deriving DecidableEq

/-- Why an answer is not what it should be. -/
inductive ResponseFault where
  | undecodable
  | cursorWithoutId
  | notCount (value : Json)
  | noDocumentKey
  | other (text : String)
  deriving DecidableEq

def ResponseFault.message : ResponseFault → String
  | .undecodable => "Invalid JSON response"
  | .cursorWithoutId => "cursor reports more results but has no id"
  | .notCount value => "count returned " ++ value.text
  | .noDocumentKey => "insert returned no document key"
  | .other text => text

inductive ExecError where
  | compile (e : CompileError)
  | http (e : TransportError)
  | backend (code : UInt16) (errorNum : Int) (message : String)
  | invalidResponse (fault : ResponseFault)
  | config (e : SettingsError)
  | json
  | io (text : String)
  | toml
  deriving DecidableEq, Inhabited

namespace ExecError

def message : ExecError → String
  | .compile e => "Compile error: " ++ e.message
  | .http _ => "HTTP request failed"
  | .backend code errorNum message =>
    "ArangoDB error " ++ Text.signedDecimal errorNum ++ " (HTTP " ++ Text.decimal code.toNat ++
      "): " ++ message
  | .invalidResponse fault => "Invalid response: " ++ fault.message
  | .config e => "Invalid configuration: " ++ e.message
  | .json => "JSON error"
  | .io text => "IO error: " ++ text
  | .toml => "TOML error"

/-- Code of a server that is not available. -/
def unavailable : UInt16 := 503

def isCompile : ExecError → Bool
  | .compile _ => true
  | _ => false

/-- Whether the server certainly did not act on the request. -/
def isUnapplied : ExecError → Bool
  | .http .refused => true
  | .backend code _ _ => code == unavailable
  | _ => false

/-- Whether the same request may succeed when it is repeated. -/
def isRetriable : ExecError → Bool
  | .http .refused => true
  | .http .timedOut => true
  | .backend code _ _ => code == unavailable
  | _ => false

theorem isRetriable_of_isUnapplied {e : ExecError} (h : e.isUnapplied = true) :
    e.isRetriable = true := by
  cases e with
  | http t => cases t <;> simp_all [isUnapplied, isRetriable]
  | backend code n m => simpa [isUnapplied, isRetriable] using h
  | _ => simp [isUnapplied] at h

end ExecError

end AqlQuery

import AqlQuery.Json.Reader
import AqlQuery.Json.Decode

/-!
# Bodies of answers

A batch of results, and the document that comes with an error. Records are read as
`Json.partialRecord?` reads them, except that a known key may not be repeated.
-/

namespace AqlQuery.Cursor

/-- One batch of a cursor. -/
structure Batch where
  result : List Json := []
  hasMore : Bool := false
  id : Option String := none
  writes : UInt64 := 0
  deriving DecidableEq, Inhabited

/-- What an error document says. -/
structure ErrorDocument where
  code : Option UInt16 := none
  errorNum : Option Int := none
  message : Option String := none
  deriving DecidableEq, Inhabited

/-- Whether one of `names` occurs twice among the members. -/
def repeatsKnown (names : List String) (members : List (String × Json)) : Bool :=
  names.any fun name => decide (1 < (members.filter fun m => m.1 == name).length)

/-- The fields of a record that may be missing; a known key may not be repeated. -/
def fields? (names : List String) (value : Json) : Option (Fields Json) :=
  match value with
  | .object members => if repeatsKnown names members then none else value.partialRecord? names
  | _ => value.partialRecord? names

def stats? (value : Json) : Option UInt64 := do
  let fields ← fields? ["writesExecuted"] value
  fields.getOr "writesExecuted" 0 Json.uint64?

def extra? (value : Json) : Option UInt64 :=
  if value.isNull then some 0
  else do
    let fields ← fields? ["stats"] value
    fields.getOr "stats" 0 stats?

def results? (value : Json) : Option (List Json) :=
  value.array?.map fun items => items.map Json.unique

def batchOf? (value : Json) : Option Batch := do
  let fields ← fields? ["result", "hasMore", "id", "extra"] value
  let result ← fields.getOr "result" [] results?
  let hasMore ← fields.getOr "hasMore" false Json.bool?
  let id ← fields.getOr "id" none (Json.nullable? Json.string?)
  let writes ← fields.getOr "extra" 0 extra?
  some { result, hasMore, id, writes }

/-- Reads a batch. -/
def batch? (body : String) : Option Batch := (Json.document? body).bind batchOf?

def errorDocumentOf? (value : Json) : Option ErrorDocument := do
  let fields ← fields? ["code", "errorNum", "errorMessage"] value
  let code ← fields.getOr "code" none (Json.nullable? Json.uint16?)
  let errorNum ← fields.getOr "errorNum" none
    (Json.nullable? (Json.intBetween? (-9223372036854775808) 9223372036854775807))
  let message ← fields.getOr "errorMessage" none (Json.nullable? Json.string?)
  some { code, errorNum, message }

/-- Reads an error document; one that cannot be read says nothing. -/
def errorDocument (body : String) : ErrorDocument :=
  ((Json.document? body).bind errorDocumentOf?).getD {}

end AqlQuery.Cursor

import AqlQuery.Query.Error

/-!
# Column references and the scope they are read in

A column string is `qualifier.column AS label`, of which only the column is required. The scope of
a statement is its source collection and the joined ones; each is iterated through a loop
variable, and a column resolves to an attribute of one of these variables.
-/

namespace AqlQuery

/-! ## Collections -/

namespace Collection

def isBacktick (c : Char) : Bool := c == '\x60'

/-- A name without blanks and backticks around it, and without the blanks inside the backticks
(`strip_quotes`). -/
def bareName (raw : String) : String :=
  Text.trim (Text.strip isBacktick (Text.trim raw))

/-- Ending of the loop variables. -/
def variableSuffix : String := "_entity"

/-- The loop variable of a collection (`entity_name`). -/
def variableName (collection : String) : String := bareName collection ++ variableSuffix

/-- A name in backticks. -/
def inBackticks (name : String) : String := "\x60" ++ name ++ "\x60"

/-- A collection as it is written in a statement (`wrap_collection`). -/
def quoted (collection : String) : String := inBackticks (bareName collection)

end Collection

/-- An attribute as it is written after a loop variable; the key stays bare (`quote_attribute`). -/
def quoteAttribute (column : String) : String :=
  if column = primaryKey then column else Collection.inBackticks column

/-! ## Parsing a column string -/

/-- A column string in its parts. -/
structure ColumnRef where
  qualifier : Option String
  column : String
  label : Option String
  deriving DecidableEq, Repr

namespace ColumnRef

/-- The letter `a` in either case. -/
def isA (c : Char) : Bool := c == 'a' || c == 'A'

/-- The letter `s` in any case; the long s folds to it. -/
def isS (c : Char) : Bool := c == 's' || c == 'S' || c == 'ſ'

/-- The last word of a text that is `blanks as blanks word blanks`. -/
def labelTail? (cs : List Char) : Option (List Char) :=
  match cs with
  | [] => none
  | c :: _ =>
    if Text.isBlank c then
      match cs.dropWhile Text.isBlank with
      | a :: s :: b :: rest =>
        if isA a && isS s && Text.isBlank b then
          let start := rest.dropWhile Text.isBlank
          let word := start.takeWhile fun c => !Text.isBlank c
          if word.isEmpty then none
          else if (start.drop word.length).all Text.isBlank then some word
          else none
        else none
      | _ => none
    else none

/-- The shortest non-empty beginning of the text, within its first line, that a label follows. -/
def shortestExpression? : List Char → Option (List Char × List Char)
  | [] => none
  | c :: rest =>
    if c = '\n' then none
    else
      match labelTail? rest with
      | some label => some ([c], label)
      | none => (shortestExpression? rest).map fun (expression, label) => (c :: expression, label)

/-- The expression and the label of a text that has a label. As many leading blanks as possible are
left out of the expression. -/
def splitLabel? : List Char → Option (List Char × List Char)
  | [] => none
  | c :: rest =>
    if Text.isBlank c then
      match splitLabel? rest with
      | some found => some found
      | none => shortestExpression? (c :: rest)
    else shortestExpression? (c :: rest)

/-- The parts of an expression before and after its first point. -/
def splitPoint (cs : List Char) : Option (List Char) × List Char :=
  match cs.dropWhile (· ≠ '.') with
  | [] => (none, cs)
  | _ :: rest => (some (cs.takeWhile (· ≠ '.')), rest)

/-- Reads `qualifier.column AS label`. -/
def parse (raw : String) : ColumnRef :=
  let (expression, label) := match splitLabel? raw.toList with
    | some (expression, label) => (expression, some (Collection.bareName (String.ofList label)))
    | none => (raw.toList, none)
  let (qualifier, column) := splitPoint expression
  { qualifier := qualifier.map fun cs => Collection.bareName (String.ofList cs)
    column := Collection.bareName (String.ofList column)
    label }

/-- Whether the whole document is meant (`is_whole_document`). -/
def isWhole (c : ColumnRef) : Bool := c.column == wholeDocument

end ColumnRef

/-! ## Resolution -/

/-- A column of a collection in scope; no column means the whole document. -/
structure ResolvedColumn where
  collection : String
  entity : String
  column : Option String
  label : Option String
  deriving DecidableEq, Repr

namespace ResolvedColumn

/-- The expression that reads the column. -/
def expression (c : ResolvedColumn) : String :=
  match c.column with
  | some column => c.entity ++ "." ++ quoteAttribute column
  | none => c.entity

/-- The key of the column in a returned object (`output_key`). -/
def outputKey (c : ResolvedColumn) : String :=
  c.label.getD (c.column.getD c.collection)

end ResolvedColumn

/-- The collections that a statement can see, by bare name (`EntityScope`). -/
structure Scope where
  source : String
  joined : List String
  deriving DecidableEq, Repr

namespace Scope

def ofNames (source : String) (joined : List String) : Scope :=
  ⟨Collection.bareName source, joined.map Collection.bareName⟩

/-- The scope of a query (`for_query`). -/
def ofQuery (q : Query) : Scope :=
  ofNames q.source (q.joins.map Join.collection)

def hasJoins (s : Scope) : Bool := !s.joined.isEmpty

/-- The loop variable of the source (`source_entity`). -/
def sourceVariable (s : Scope) : String := Collection.variableName s.source

/-- The source first, then the joined collections. -/
def collections (s : Scope) : List String := s.source :: s.joined

/-- Whether a qualifier names a collection, by its name or by its loop variable. -/
def names (qualifier collection : String) : Bool :=
  qualifier == collection || qualifier == Collection.variableName collection

/-- The first collection that a qualifier names. -/
def find? (s : Scope) (qualifier : String) : Option String :=
  s.collections.find? (names qualifier)

/-- The collection that a parsed column belongs to. Without a qualifier that is the source, which
under joins goes for the whole document only. -/
def collectionOf (s : Scope) (raw : String) (c : ColumnRef) : Except ResolveError String :=
  match c.qualifier with
  | some qualifier =>
    match s.find? qualifier with
    | some collection => .ok collection
    | none => .error (.unknownEntity raw qualifier)
  | none => if s.hasJoins && !c.isWhole then .error (.unqualified raw) else .ok s.source

/-- Resolves a column string for reading (`resolve`). -/
def resolve (s : Scope) (raw : String) : Except ResolveError ResolvedColumn :=
  let c := ColumnRef.parse raw
  match s.collectionOf raw c with
  | .error e => .error e
  | .ok collection => .ok
      { collection
        entity := Collection.variableName collection
        column := if c.isWhole then none else some c.column
        label := c.label }

/-- Resolves a column string for writing: an attribute of the source, qualified or not
(`resolve_target`). -/
def resolveTarget (s : Scope) (raw : String) : Except ResolveError ResolvedColumn :=
  let c := ColumnRef.parse raw
  if c.isWhole then .error (.notWritable raw s.source)
  else
    let resolved : Except ResolveError ResolvedColumn := match c.qualifier with
      | some _ => (s.resolve raw).map fun r => { r with label := none }
      | none => .ok
          { collection := s.source
            entity := s.sourceVariable
            column := some c.column
            label := none }
    match resolved with
    | .error e => .error e
    | .ok r => if r.collection = s.source then .ok r else .error (.notWritable raw s.source)

end Scope

end AqlQuery

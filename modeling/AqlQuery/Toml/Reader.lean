import AqlQuery.Toml.Scalar

/-!
# Reading TOML documents

Version 1.1 of the format. A document is refused as a whole, so a reader gives a value or nothing.
-/

namespace AqlQuery.Toml

/-! ## Layout -/

/-- Drops blanks, line ends and comments. -/
def trivia? (inComment : Bool) : List Char → Option (List Char)
  | [] => some []
  | '\n' :: rest => trivia? false rest
  | '\r' :: '\n' :: rest => trivia? false rest
  | c :: rest =>
    if inComment then if isTextChar c then trivia? true rest else none
    else if isBlank c then trivia? false rest
    else if c = '#' then trivia? true rest
    else some (c :: rest)

/-- The rest of a line after its last value: blanks, a comment, and its end. -/
def lineEnd? (inComment : Bool) : List Char → Option (List Char)
  | [] => some []
  | '\n' :: rest => some rest
  | '\r' :: '\n' :: rest => some rest
  | c :: rest =>
    if inComment then if isTextChar c then lineEnd? true rest else none
    else if isBlank c then lineEnd? false rest
    else if c = '#' then lineEnd? true rest
    else none

/-! ## Keys -/

def isBareKeyChar (c : Char) : Bool := c.isAlphanum || c == '_' || c == '-'

/-- One part of a key. -/
def simpleKey? (cs : List Char) : Option (String × List Char) :=
  match cs with
  | '"' :: rest =>
    (basicBody? (rest.length + 1) rest).map fun (body, rest) => (String.ofList body, rest)
  | '\x27' :: rest => (literalBody? rest).map fun (body, rest) => (String.ofList body, rest)
  | _ =>
    let bare := cs.takeWhile isBareKeyChar
    if bare.isEmpty then none else some (String.ofList bare, cs.dropWhile isBareKeyChar)

/-- How deep arrays and tables in braces may be nested, and how many parts a key may have. -/
def nestingLimit : Nat := 80

/-- A key with at most `parts` parts divided by points: the parts before the last, and the last. -/
def keyParts? : (parts : Nat) → List Char → Option ((List String × String) × List Char)
  | 0, _ => none
  | parts + 1, cs => do
    let (part, rest) ← simpleKey? cs
    match skipBlanks rest with
    | '.' :: after =>
      let ((path, last), rest) ← keyParts? parts (skipBlanks after)
      some ((part :: path, last), rest)
    | rest => some (([], part), rest)

/-- A key, and what follows the blanks after it. -/
def key? (cs : List Char) : Option ((List String × String) × List Char) :=
  keyParts? nestingLimit cs

/-! ## Values -/

mutual
/-- A value at the front, in which arrays and tables are nested at most `levels` deep. -/
def value? : Nat → Nat → List Char → Option (Value × List Char)
  | 0, _, _ => none
  | fuel + 1, levels, cs =>
    match cs with
    | '"' :: '"' :: '"' :: rest => do
      let body := dropNewline rest
      let (s, rest) ← multiBasicBody? (body.length + 1) body
      some (.string (String.ofList s), rest)
    | '"' :: rest => do
      let (s, rest) ← basicBody? (rest.length + 1) rest
      some (.string (String.ofList s), rest)
    | '\x27' :: '\x27' :: '\x27' :: rest => do
      let (s, rest) ← multiLiteralBody? (dropNewline rest)
      some (.string (String.ofList s), rest)
    | '\x27' :: rest => do
      let (s, rest) ← literalBody? rest
      some (.string (String.ofList s), rest)
    | '[' :: rest =>
      if levels = 0 then none
      else do
        let (items, rest) ← items? fuel (levels - 1) rest
        some (.array items, rest)
    | '{' :: rest =>
      if levels = 0 then none
      else do
        let (nodes, rest) ← pairs? fuel (levels - 1) [] rest
        some (.table (nodeEntries nodes), rest)
    | _ => unquoted? cs
/-- The items of an array up to its closing bracket; a comma may follow the last one. -/
def items? : Nat → Nat → List Char → Option (List Value × List Char)
  | 0, _, _ => none
  | fuel + 1, levels, cs => do
    match ← trivia? false cs with
    | ']' :: rest => some ([], rest)
    | cs =>
      let (item, rest) ← value? fuel levels cs
      match ← trivia? false rest with
      | ',' :: rest =>
        let (items, rest) ← items? fuel levels rest
        some (item :: items, rest)
      | ']' :: rest => some ([item], rest)
      | _ => none
/-- The pairs of a table in braces up to its closing brace; a comma may follow the last one. Lines
may end and comments may stand wherever blanks may, except inside a key. -/
def pairs? : Nat → Nat → Nodes → List Char → Option (Nodes × List Char)
  | 0, _, _, _ => none
  | fuel + 1, levels, nodes, cs => do
    match ← trivia? false cs with
    | '}' :: rest => some (nodes, rest)
    | cs =>
      let ((path, key), rest) ← key? cs
      match ← trivia? false rest with
      | '=' :: rest =>
        let cs ← trivia? false rest
        let (value, rest) ← value? fuel levels cs
        let nodes ← addDotted path key value nodes
        match ← trivia? false rest with
        | ',' :: rest => pairs? fuel levels nodes rest
        | '}' :: rest => some (nodes, rest)
        | _ => none
      | _ => none
end

/-! ## Documents -/

/-- A document read so far: its tree and the path of the table that is open. -/
structure Draft where
  nodes : Nodes
  current : List String

/-- A line that opens a table, after its first bracket. -/
def header? (draft : Draft) (cs : List Char) : Option (Draft × List Char) :=
  match cs with
  | '[' :: cs => do
    let ((path, key), rest) ← key? (skipBlanks cs)
    match rest with
    | ']' :: ']' :: rest =>
      let nodes ← changeAt path (openElement key) draft.nodes
      some (⟨nodes, path ++ [key]⟩, rest)
    | _ => none
  | _ => do
    let ((path, key), rest) ← key? (skipBlanks cs)
    match rest with
    | ']' :: rest =>
      let nodes ← changeAt path (openTable key) draft.nodes
      some (⟨nodes, path ++ [key]⟩, rest)
    | _ => none

/-- A line that gives a key its value. -/
def keyValue? (draft : Draft) (cs : List Char) : Option (Draft × List Char) := do
  let ((path, key), rest) ← key? cs
  match rest with
  | '=' :: rest =>
    let (value, rest) ← value? (2 * rest.length + 2) nestingLimit (skipBlanks rest)
    let nodes ← changeAt draft.current (addDotted path key value) draft.nodes
    some ({ draft with nodes }, rest)
  | _ => none

/-- Reads line after line. -/
def lines? : Nat → Draft → List Char → Option Draft
  | 0, _, _ => none
  | fuel + 1, draft, cs => do
    match ← trivia? false cs with
    | [] => some draft
    | cs =>
      let (draft, rest) ← match cs with
        | '[' :: cs => header? draft cs
        | _ => keyValue? draft cs
      let rest ← lineEnd? false rest
      lines? fuel draft rest

/-- A byte order mark may stand before the text. -/
def dropMark : List Char → List Char
  | '\ufeff' :: rest => rest
  | cs => cs

/-- The entries of a document, or nothing if it is malformed. -/
def parse? (s : String) : Option (List (String × Value)) :=
  let cs := dropMark s.toList
  (lines? (cs.length + 1) ⟨[], []⟩ cs).map fun draft => nodeEntries draft.nodes

end AqlQuery.Toml

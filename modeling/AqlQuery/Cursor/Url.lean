import AqlQuery.Text.Base64
import AqlQuery.Text.Blank

/-!
# Addresses

The parts of an `http` address that a request needs: whom to connect to, and the target that is
sent. Backslashes divide segments as slashes do, segments of dots are resolved, and characters
that may not stand in a target are written as percent signs and bytes.
-/

namespace AqlQuery.Url

/-- Two upper-case hexadecimal digits after a percent sign. -/
def percentByte (n : Nat) : List Char :=
  ['%', (Nat.digitChar (n / 16)).toUpper, (Nat.digitChar (n % 16)).toUpper]

/-- Encodes the characters that `reserved` names, and all that are not printable ASCII. -/
def percentEncode (reserved : Char → Bool) (cs : List Char) : List Char :=
  cs.flatMap fun c =>
    if c.toNat ≤ 0x1F || 0x7F ≤ c.toNat || reserved c then
      (Text.utf8 (String.ofList [c])).flatMap percentByte
    else [c]

def reservedInPath (c : Char) : Bool :=
  c == ' ' || c == '"' || c == '<' || c == '>' || c == '\x60' || c == '#' || c == '?' ||
    c == '{' || c == '}'

def reservedInQuery (c : Char) : Bool :=
  c == ' ' || c == '"' || c == '<' || c == '>' || c == '#' || c == '\x27'

def isSlash (c : Char) : Bool := c == '/' || c == '\\'

/-- Splits at slashes. -/
def segments : List Char → List (List Char)
  | [] => [[]]
  | c :: rest =>
    if isSlash c then [] :: segments rest
    else
      match segments rest with
      | [] => [[c]]
      | first :: others => (c :: first) :: others

/-- A segment that stands for the place it is in. -/
def isSingleDot (s : List Char) : Bool :=
  let s := s.map Char.toLower
  s == ['.'] || s == ['%', '2', 'e']

/-- A segment that stands for the place above. -/
def isDoubleDot (s : List Char) : Bool :=
  let s := s.map Char.toLower
  s == ['.', '.'] || s == ['.', '%', '2', 'e'] || s == ['%', '2', 'e', '.'] ||
    s == ['%', '2', 'e', '%', '2', 'e']

/-- Resolves dots; `above` holds the segments so far, the last one first. -/
def resolveDots (above : List (List Char)) : List (List Char) → List (List Char)
  | [] => above.reverse
  | [last] =>
    if isDoubleDot last then ([] :: above.drop 1).reverse
    else if isSingleDot last then ([] :: above).reverse
    else (last :: above).reverse
  | s :: rest =>
    if isDoubleDot s then resolveDots (above.drop 1) rest
    else if isSingleDot s then resolveDots above rest
    else resolveDots (s :: above) rest

/-- The path of a target, which starts with a slash. -/
def encodePath (path : List Char) : List Char :=
  let parts := segments (match path with | c :: rest => if isSlash c then rest else path | [] => [])
  (resolveDots [] (parts.map (percentEncode reservedInPath))).flatMap fun s => '/' :: s

/-- The scheme of an address in lower case, and what follows its colon. -/
def scheme? (cs : List Char) : Option (List Char × List Char) :=
  let name := cs.takeWhile (· != ':')
  match cs.drop name.length with
  | _ :: rest => some (name.map Char.toLower, rest)
  | [] => none

/-- What an address says about a request. -/
structure Target where
  secure : Bool
  authority : String
  path : String
  deriving DecidableEq

/-- Tabs and line ends do not count, wherever they stand. -/
def isIgnored (c : Char) : Bool := c == '\t' || c == '\n' || c == '\r'

/-- Blanks and control characters do not count at the ends. -/
def isEdge (c : Char) : Bool := c.toNat ≤ 0x20

/-- The characters of an address that count. -/
def significant (address : String) : List Char :=
  (Text.stripChars isEdge address.toList).filter (!isIgnored ·)

/-- Whom to connect to, at the start of what follows the scheme. -/
def authorityOf (rest : List Char) : List Char :=
  rest.takeWhile fun c => !isSlash c && c != '?'

/-- The target behind a scheme and its slashes; nothing without an authority. -/
def targetAfter? (secure : Bool) (rest : List Char) : Option Target :=
  let authority := authorityOf rest
  if authority.isEmpty then none
  else
    let rest := rest.drop authority.length
    let path := rest.takeWhile (· != '?')
    let query := match rest.drop path.length with
      | [] => []
      | _ :: query => '?' :: percentEncode reservedInQuery query
    some ⟨secure, String.ofList authority, String.ofList (encodePath path ++ query)⟩

/-- Reads an address; nothing if it is none that requests can be sent to. -/
def target? (address : String) : Option Target := do
  let (scheme, rest) ← scheme? (significant address)
  let secure := scheme == ['h', 't', 't', 'p', 's']
  if secure || scheme == ['h', 't', 't', 'p'] then
    targetAfter? secure ((rest.dropWhile isSlash).takeWhile (· != '#'))
  else none

end AqlQuery.Url

import AqlQuery.Aql.Program
import AqlQuery.Proofs.Outcome
import AqlQuery.Proofs.Text.Quoted
import AqlQuery.Proofs.Text.References

/-!
# Reading the documents of an insert

A reader for the documents that an insert lists: object literals whose keys are in quotes and whose
values are placeholders, with blanks allowed between the parts. It reads back the members of every
document, however odd its keys are.
-/

namespace AqlQuery.Aql.Document

open Json.Reader

/-! ## The reader -/

/-- The characters that the name of a placeholder is made of. -/
def isNameChar (c : Char) : Bool := c.isAlphanum || c == '_'

/-- An at sign and the longest name after it. -/
def placeholder? : List Char → Option (String × List Char)
  | '@' :: rest =>
    if (rest.takeWhile isNameChar).isEmpty then none
    else some (String.ofList (rest.takeWhile isNameChar), rest.dropWhile isNameChar)
  | _ => none

/-- A key in quotes, a colon and a placeholder. -/
def member? (cs : List Char) : Option ((String × String) × List Char) := do
  let '"' :: rest := skipSpace cs | none
  let (key, rest) ← stringBody? rest
  let ':' :: rest := skipSpace rest | none
  let (name, rest) ← placeholder? (skipSpace rest)
  some ((String.ofList key, name), rest)

/-- Members up to the closing brace, at least one. -/
def members? : Nat → List Char → Option (List (String × String) × List Char)
  | 0, _ => none
  | fuel + 1, cs => do
    let (first, rest) ← member? cs
    match skipSpace rest with
    | ',' :: rest =>
      let (others, rest) ← members? fuel rest
      some (first :: others, rest)
    | '}' :: rest => some ([first], rest)
    | _ => none

/-- An object literal at the front of the text, as its keys and the names of its placeholders. -/
def object? (cs : List Char) : Option (List (String × String) × List Char) := do
  let '{' :: rest := skipSpace cs | none
  match skipSpace rest with
  | '}' :: rest => some ([], rest)
  | _ => members? rest.length rest

/-- A text that is one object literal and nothing else. -/
def read? (text : String) : Option (List (String × String)) := do
  let (members, rest) ← object? text.toList
  if (skipSpace rest).isEmpty then some members else none

/-- The entries, if there is a value for every key. -/
def complete? (entries : List (String × Option Json)) : Option (List (String × Json)) :=
  entries.mapM fun entry => entry.2.map fun v => (entry.1, v)

/-- The object that a text stands for, with the data of a table for its placeholders. -/
def value? (table : BindTable) (text : String) : Option (List (String × Json)) := do
  let members ← read? text
  complete? (Entries.mapValues table.get? members)

/-! ## Reading what was written -/

/-- The name is a name throughout. -/
def IsName (name : String) : Prop := name ≠ "" ∧ ∀ c ∈ name.toList, isNameChar c = true

theorem isName_nameOf (n : UInt32) : IsName (BindTable.nameOf n) := by
  have hchars : (BindTable.nameOf n).toList = 'B' :: Nat.toDigits 10 n.toNat := by
    simp [BindTable.nameOf, Text.decimal]
  constructor
  · intro he
    rw [he] at hchars
    cases hchars
  · intro c hc
    rw [hchars, List.mem_cons] at hc
    rcases hc with rfl | hdigit
    · rfl
    · simp [isNameChar, Char.isAlphanum, Text.isDigit_of_mem_decimal hdigit]

theorem placeholder?_name {name : String} (hn : IsName name) {c : Char} (hc : isNameChar c = false)
    (rest : List Char) :
    placeholder? ('@' :: (name.toList ++ c :: rest)) = some (name, c :: rest) := by
  have htake : (name.toList ++ c :: rest).takeWhile isNameChar = name.toList := by
    rw [List.takeWhile_append_of_pos hn.2, List.takeWhile_cons_of_neg (by simp [hc]),
      List.append_nil]
  have hdrop : (name.toList ++ c :: rest).dropWhile isNameChar = c :: rest := by
    rw [List.dropWhile_append_of_pos hn.2, List.dropWhile_cons_of_neg (by simp [hc])]
  simp [placeholder?, htake, hdrop, hn.1]

/-- A member as an insert writes it. -/
def memberText (member : String × String) : String :=
  Json.quote member.1 ++ ": " ++ (Operand.bound member.2).text

theorem toList_memberText (member : String × String) :
    (memberText member).toList = '"' :: (member.1.toList.flatMap Json.escapeChar ++
      '"' :: ':' :: ' ' :: '@' :: member.2.toList) := by
  simp [memberText, Json.quote, Operand.text]

theorem member?_memberText {member : String × String} (hn : IsName member.2) {c : Char}
    (hc : isNameChar c = false) (rest : List Char) :
    member? ((memberText member).toList ++ c :: rest) = some (member, c :: rest) := by
  have hkey := stringBody?_escaped member.1.toList
    (':' :: ' ' :: '@' :: (member.2.toList ++ c :: rest))
  have hname := placeholder?_name hn hc rest
  rw [toList_memberText, member?]
  simp [skipSpace, isSpace, hkey, hname]

/-- Members as an insert writes them. -/
def membersText (members : List (String × String)) : String :=
  ", ".intercalate (members.map memberText)

theorem toList_membersText_cons (member next : String × String) (others : List (String × String))
    (cs : List Char) :
    (membersText (member :: next :: others)).toList ++ cs =
      (memberText member).toList ++ ',' :: ' ' :: ((membersText (next :: others)).toList ++ cs) := by
  simp [membersText, String.intercalate_cons_cons]

theorem members?_space (fuel : Nat) (cs : List Char) :
    members? fuel (' ' :: cs) = members? fuel cs := by
  cases fuel <;> rfl

theorem members?_membersText {member : String × String} {others : List (String × String)}
    (hn : ∀ m ∈ member :: others, IsName m.2) (rest : List Char) {fuel : Nat}
    (hfuel : others.length < fuel) :
    members? fuel ((membersText (member :: others)).toList ++ '}' :: rest) =
      some (member :: others, rest) := by
  obtain ⟨fuel, rfl⟩ : ∃ n, fuel = n + 1 := ⟨fuel - 1, by omega⟩
  induction others generalizing member fuel with
  | nil =>
    have hmember := member?_memberText (hn member List.mem_cons_self) (c := '}') rfl rest
    simp [membersText, members?, hmember, skipSpace, isSpace]
  | cons next others ih =>
    rw [List.length_cons] at hfuel
    obtain ⟨fuel, rfl⟩ : ∃ n, fuel = n + 1 := ⟨fuel - 1, by omega⟩
    have hmember := member?_memberText (hn member List.mem_cons_self) (c := ',') rfl
      (' ' :: ((membersText (next :: others)).toList ++ '}' :: rest))
    have hrest := @ih next (fun m hm => hn m (List.mem_cons_of_mem member hm)) fuel (by omega)
    rw [toList_membersText_cons, members?]
    simp [hmember, skipSpace, isSpace, members?_space, hrest]

theorem length_le_membersText (members : List (String × String)) :
    members.length ≤ (membersText members).toList.length := by
  induction members with
  | nil => exact Nat.zero_le _
  | cons member others ih =>
    cases others with
    | nil => simp [membersText, toList_memberText]
    | cons next others =>
      have h := congrArg List.length (toList_membersText_cons member next others [])
      simp only [List.append_nil, List.length_append, List.length_cons] at h ih ⊢
      omega

theorem exists_toList_membersText (member : String × String) (others : List (String × String)) :
    ∃ tail, (membersText (member :: others)).toList = '"' :: tail := by
  cases others with
  | nil =>
    have h : membersText [member] = memberText member := String.intercalate_singleton
    rw [h, toList_memberText]
    exact ⟨_, rfl⟩
  | cons next others =>
    have h := toList_membersText_cons member next others []
    rw [List.append_nil, toList_memberText] at h
    exact ⟨_, h⟩

/-- Some members of an object literal are read by `members?`. -/
theorem object?_membersText {member : String × String} {others : List (String × String)}
    (hn : ∀ m ∈ member :: others, IsName m.2) (rest : List Char) :
    object? ('{' :: ((membersText (member :: others)).toList ++ '}' :: rest)) =
      some (member :: others, rest) := by
  -- the quote of the first key is no closing brace, so there are members to read
  obtain ⟨tail, htail⟩ := exists_toList_membersText member others
  have hlength := length_le_membersText (member :: others)
  have hmembers := @members?_membersText member others hn rest
    ((membersText (member :: others)).toList ++ '}' :: rest).length (by
      rw [List.length_append]
      rw [List.length_cons] at hlength
      omega)
  rw [← hmembers, htail]
  rfl

theorem documentText_eq (members : List (String × String)) :
    Program.documentText (Entries.mapValues Operand.bound members) =
      "\x7b" ++ membersText members ++ "\x7d" := by
  have hmap : ((Entries.mapValues Operand.bound members).map fun member =>
      (member.1, member.2.text)).map (fun pair => Json.quote pair.1 ++ ": " ++ pair.2) =
        members.map memberText := by
    simp only [Entries.mapValues, List.map_map]
    rfl
  rw [membersText, ← hmap]
  rfl

/-- The members of a document are read back from its text. -/
theorem read?_documentText {members : List (String × String)} (hn : ∀ m ∈ members, IsName m.2) :
    read? (Program.documentText (Entries.mapValues Operand.bound members)) = some members := by
  have htext : (Program.documentText (Entries.mapValues Operand.bound members)).toList =
      '{' :: ((membersText members).toList ++ ['}']) := by
    rw [documentText_eq]
    simp
  rw [read?, htext]
  cases members with
  | nil => rfl
  | cons member others =>
    rw [object?_membersText hn []]
    rfl

theorem value?_documentText {members : List (String × String)} (hn : ∀ m ∈ members, IsName m.2)
    (table : BindTable) :
    value? table (Program.documentText (Entries.mapValues Operand.bound members)) =
      complete? (Entries.mapValues table.get? members) := by
  rw [value?, read?_documentText hn]
  rfl

theorem complete?_some (object : List (String × Json)) :
    complete? (Entries.mapValues some object) = some object :=
  Outcome.mapM_map_some fun _ _ => rfl

end AqlQuery.Aql.Document

/-!
# Fields of a record

However a record is written, its fields are looked up by name.
-/

namespace AqlQuery

abbrev Fields (α : Type) := String → Option α

namespace Fields

variable {α β : Type}

/-- Fields given as pairs; of a repeated name the first counts. -/
def ofPairs (pairs : List (String × α)) : Fields α := fun name => pairs.lookup name

/-- A field that has to be there. -/
def need (fields : Fields α) (name : String) (read : α → Option β) : Option β :=
  (fields name).bind read

/-- A field with a default. -/
def getOr (fields : Fields α) (name : String) (fallback : β) (read : α → Option β) : Option β :=
  match fields name with
  | none => some fallback
  | some value => read value

end Fields

end AqlQuery

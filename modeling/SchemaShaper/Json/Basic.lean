import SchemaShaper.Record.Access

/-!
# JSON values

A JSON value as its text has it. Numbers keep their literal. A text that holds half of a surrogate
pair without its partner is no text of characters; it is kept as `none`, so that it can be skipped
but not used. Objects keep the order of their members and repeated names.
-/

namespace SchemaShaper

/-- A JSON value. -/
inductive Json where
  | null
  | bool (b : Bool)
  | number (literal : String)
  | text (s : Option String)
  | array (items : List Json)
  | object (members : List (Option String × Json))
  deriving Repr

namespace Json

/-- A text of characters. -/
def string (s : String) : Json := text (some s)

/-- An object of named members. -/
def record (members : List (String × Json)) : Json :=
  object (members.map fun (k, v) => (some k, v))

/-- The text that a value is. -/
def text? : Json → Option String
  | text s => s
  | _ => none

/-- The members of an object; none when a name is no text of characters. -/
def namedMembers? : List (Option String × Json) → Option (List (String × Json))
  | [] => some []
  | (k, v) :: rest => do
    let name ← k
    return (name, v) :: (← namedMembers? rest)

/-- The member of a name, the first of them, in an object. -/
def member? (name : String) : Json → Option Json
  | object members => (members.find? (·.1 == some name)).map (·.2)
  | _ => none

/-- Looking into a JSON value. A record is an object, or an array that holds its fields in order
from the first one on; null stands for an absent value. -/
def access : Access Option Json where
  entries names v :=
    match v with
    | object members => namedMembers? members
    | array items => if items.length ≤ names.length then some (names.zip items) else none
    | _ => none
  items v :=
    match v with
    | array items => some items
    | _ => none
  text := text?
  flag v :=
    match v with
    | bool b => some b
    | _ => none
  present? v :=
    match v with
    | null => some none
    | v => some (some v)
  refuse := none

end Json

end SchemaShaper

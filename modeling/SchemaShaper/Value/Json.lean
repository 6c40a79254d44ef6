import SchemaShaper.Json.Number
import SchemaShaper.Json.Parser
import SchemaShaper.Json.Printer
import SchemaShaper.Value.Record

/-!
# Values as JSON

Every value but one with an unsuitable key has a JSON form: a value under a tag is an object whose
only member is named for the tag, and a float that is no finite number is null. In the other
direction repeated names, numbers that are too large and more than 127 nested collections are
refused.
-/

namespace SchemaShaper

/-- The text of a number in JSON. -/
def Number.jsonText : Number → String
  | whole n => Decimal.text n
  | float x => if x.isFinite then Json.floatLayout.text x else "null"

namespace Value

/-- The greatest number of nested collections that is read. -/
def maxJsonDepth : Nat := 127

/-- The name of a member for a key. -/
def memberName? : Value → Option String
  | text s => some s
  | bool b => some (if b then "true" else "false")
  | number (.float x) => if x.isFinite then some (Json.floatLayout.text x) else none
  | number n => some n.jsonText
  | _ => none

mutual

/-- The JSON form of a value; none when a key has no name. -/
def toJson? : Value → Option Json
  | null => some .null
  | bool b => some (.bool b)
  | number n => some (.number n.jsonText)
  | text s => some (.string s)
  | sequence items => (itemsToJson? items).map .array
  | mapping entries => (entriesToJson? entries).map .object
  | tagged tag v => v.toJson?.map fun j => .record [("!" ++ tag, j)]

/-- The JSON forms of items. -/
def itemsToJson? : List Value → Option (List Json)
  | [] => some []
  | v :: vs => do return (← v.toJson?) :: (← itemsToJson? vs)

/-- The JSON forms of entries. -/
def entriesToJson? : List (Value × Value) → Option (List (Option String × Json))
  | [] => some []
  | (k, v) :: rest => do return (some (← k.memberName?), ← v.toJson?) :: (← entriesToJson? rest)

end

/-- The mapping of entries with texts as keys; none when a key repeats. -/
def mappingOf? (entries : List (String × Value)) : Option Value :=
  if (entries.map (·.1)).Nodup then some (record entries) else none

mutual

/-- The value of a JSON value that may hold `depth` nested collections. -/
def ofJsonWithin? (depth : Nat) : Json → Option Value
  | .null => some null
  | .bool b => some (bool b)
  | .number literal => (Json.Literal.ofText literal).number?.map number
  | .text s => s.map text
  | .array items =>
    match depth with
    | 0 => none
    | depth + 1 => (itemsOfJson? depth items).map sequence
  | .object members =>
    match depth with
    | 0 => none
    | depth + 1 => (membersOfJson? depth members).bind mappingOf?

/-- The values of items. -/
def itemsOfJson? (depth : Nat) : List Json → Option (List Value)
  | [] => some []
  | j :: js => do return (← ofJsonWithin? depth j) :: (← itemsOfJson? depth js)

/-- The values of members, with their names. -/
def membersOfJson? (depth : Nat) : List (Option String × Json) → Option (List (String × Value))
  | [] => some []
  | (k, j) :: rest => do
    return (← k, ← ofJsonWithin? depth j) :: (← membersOfJson? depth rest)

end

/-- The value of a JSON value. -/
def ofJson? (j : Json) : Option Value := ofJsonWithin? maxJsonDepth j

end Value

end SchemaShaper

import SchemaShaper.Record.Access
import SchemaShaper.Value.Basic

/-!
# Values as records

Mappings with texts as keys, and how to look into a value as into a record.
-/

namespace SchemaShaper

namespace Value

/-- A mapping whose keys are texts. -/
def record (entries : List (String × Value)) : Value :=
  mapping (entries.map fun (k, v) => (text k, v))

/-- A sequence of texts. -/
def texts (names : List String) : Value := sequence (names.map text)

/-- The keys of a mapping as texts; none when a key is no text. -/
def textEntries? : List (Value × Value) → Option (List (String × Value))
  | [] => some []
  | (k, v) :: rest => do
    let name ← k.asText?
    return (name, v) :: (← textEntries? rest)

/-- Looking into a value. Tags do not count. A record is a mapping with texts as keys, or a sequence
that holds its fields in order from the first one on; null stands for an empty list and for an
absent value. -/
def access : Access Option Value where
  entries names v :=
    match v.untagged with
    | mapping entries => textEntries? entries
    | sequence items => if items.length ≤ names.length then some (names.zip items) else none
    | _ => none
  items v :=
    match v.untagged with
    | sequence items => some items
    | null => some []
    | _ => none
  text v := v.asText?
  flag v :=
    match v.untagged with
    | bool b => some b
    | _ => none
  present? v :=
    match v with
    | null => some none
    | v => some (some v)
  refuse := none

end Value

end SchemaShaper

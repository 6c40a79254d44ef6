import SchemaShaper.Value.Basic

/-!
# Omitting keys

`Value.without` removes, at any depth, every entry of a mapping whose key is one of the given texts.
A key under tags counts as the text it is. Keys themselves, items and texts that merely equal an
omitted key stay as they are.
-/

namespace SchemaShaper.Value

/-- Is the key one of the omitted texts? -/
def isOmitted (keys : List String) (key : Value) : Bool :=
  match key.asText? with
  | some s => keys.contains s
  | none => false

mutual

/-- Remove the entries with an omitted key at every depth. -/
def without (keys : List String) : Value → Value
  | sequence items => sequence (itemsWithout keys items)
  | mapping entries => mapping (entriesWithout keys entries)
  | tagged tag v => tagged tag (v.without keys)
  | v => v

/-- `without` on the items of a sequence. -/
def itemsWithout (keys : List String) : List Value → List Value
  | [] => []
  | v :: vs => v.without keys :: itemsWithout keys vs

/-- `without` on the entries of a mapping. -/
def entriesWithout (keys : List String) : List (Value × Value) → List (Value × Value)
  | [] => []
  | (k, v) :: rest =>
    if isOmitted keys k then entriesWithout keys rest
    else (k, v.without keys) :: entriesWithout keys rest

end

end SchemaShaper.Value

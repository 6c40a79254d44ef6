/-!
# Reading records out of nested data

Documents and settings are records. The same rules read them from YAML nodes, from JSON and from
dynamic values: an unknown key is ignored, a repeated one is refused, and a missing one is refused
unless the field has a default or may be absent. An `Access` says how to look into one kind of
source; the readers of this file work for every kind.
-/

namespace SchemaShaper

/-- How to look into a source of nested data. -/
structure Access (m : Type → Type) (α : Type) where
  /-- The entries of a record, given the names of its fields in order. -/
  entries : List String → α → m (List (String × α))
  /-- The items of a list. -/
  items : α → m (List α)
  /-- A text. -/
  text : α → m String
  /-- A truth value. -/
  flag : α → m Bool
  /-- The source itself, or nothing where it stands for an absent value. -/
  present? : α → m (Option α)
  /-- The source does not fit. -/
  refuse : {β : Type} → m β

namespace Access

variable {m : Type → Type} [Monad m] {α β : Type}

/-- The source of a field, if the record has it once. -/
def field? (a : Access m α) (name : String) (entries : List (String × α)) : m (Option α) :=
  match entries.filter (·.1 == name) with
  | [] => pure none
  | [(_, source)] => pure (some source)
  | _ => a.refuse

/-- Read a field that every record of the kind has. -/
def required (a : Access m α) (name : String) (read : α → m β) (entries : List (String × α)) :
    m β := do
  match ← a.field? name entries with
  | none => a.refuse
  | some source => read source

/-- Read a field that takes its default when it is missing. -/
def defaulted (a : Access m α) (name : String) (read : α → m β) (default : β)
    (entries : List (String × α)) : m β := do
  match ← a.field? name entries with
  | none => pure default
  | some source => read source

/-- Read a field that may be missing or absent. -/
def optional (a : Access m α) (name : String) (read : α → m β) (entries : List (String × α)) :
    m (Option β) := do
  match ← a.field? name entries with
  | none => pure none
  | some source =>
    match ← a.present? source with
    | none => pure none
    | some source => some <$> read source

/-- Read a list, item by item. -/
def list (a : Access m α) (read : α → m β) (source : α) : m (List β) := do
  (← a.items source).mapM read

end Access

end SchemaShaper

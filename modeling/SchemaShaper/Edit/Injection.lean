import SchemaShaper.Edit.Entry
import SchemaShaper.Edit.KeyName
import SchemaShaper.Edit.KeySpec

/-!
# Adding foreign keys

A key spec adds one key at the end of the first table of its source name. Only the source table has
to exist. In a list of entries, a missing table is reported with the entry as it was written.
-/

namespace SchemaShaper

/-- The name that the key of a spec gets in its source table. -/
def KeySpec.nameIn (s : KeySpec) (t : Table) : String :=
  KeyName.next s.sourceTable s.targetTable s.sourceColumns t.keyNames

/-- The key that a spec gives under a name. -/
def KeySpec.key (s : KeySpec) (name : String) : ForeignKey :=
  { name, sourceColumns := s.sourceColumns, targetTable := s.targetTable,
    targetColumns := s.targetColumns }

/-- Add the key of a spec; the answer holds the changed document and the generated name. -/
def Document.addKey (d : Document) (s : KeySpec) : Except EditError (Document × String) :=
  match d.table? s.sourceTable with
  | none => .error (.sourceTableNotFound s.sourceTable s.display)
  | some t =>
    let name := s.nameIn t
    .ok (d.modifyTable s.sourceTable (·.pushKey (s.key name)), name)

theorem Document.addKey_eq_ok_iff {d d' : Document} {s : KeySpec} {name : String} :
    d.addKey s = .ok (d', name) ↔ ∃ t, d.table? s.sourceTable = some t ∧ s.nameIn t = name ∧
      d.modifyTable s.sourceTable (·.pushKey (s.key name)) = d' := by
  unfold Document.addKey
  cases d.table? s.sourceTable with
  | none => simp
  | some t =>
    simp only [Except.ok.injEq, Prod.mk.injEq, Option.some.injEq, exists_eq_left']
    constructor
    · rintro ⟨rfl, rfl⟩
      exact ⟨rfl, rfl⟩
    · rintro ⟨rfl, rfl⟩
      exact ⟨rfl, rfl⟩

/-- The cause as a list of entries reports it: a missing table is shown with its entry. -/
def EditError.inEntry (entry : String) : EditError → EditError
  | .sourceTableNotFound table _ => .sourceTableNotFound table (Text.trimmed entry)
  | reason => reason

/-- Read one entry and add its key. -/
def Document.addKeyEntry (entry : String) (d : Document) : Except EditError Document :=
  match KeySpec.parse entry with
  | .error reason => .error reason
  | .ok s =>
    match d.addKey s with
    | .error reason => .error (reason.inEntry entry)
    | .ok (d, _) => .ok d

theorem Document.addKeyEntry_eq_ok_iff {entry : String} {d d' : Document} :
    d.addKeyEntry entry = .ok d' ↔
      ∃ s name, KeySpec.parse entry = .ok s ∧ d.addKey s = .ok (d', name) := by
  unfold Document.addKeyEntry
  cases KeySpec.parse entry with
  | error reason => simp
  | ok s => cases hd : d.addKey s <;> simp [hd, Prod.ext_iff]

/-- Read entries in order and add their keys. -/
def Document.addKeys (entries : List String) (d : Document) : Attempt :=
  runEntries Document.addKeyEntry 1 entries d

end SchemaShaper

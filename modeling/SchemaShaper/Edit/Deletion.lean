import SchemaShaper.Edit.Entry
import SchemaShaper.Edit.Statement

/-!
# Applying deletion statements

An index target is resolved against the list as it is when the statement acts, separately in every
table for columns and foreign keys. A statement that names a missing table removes nothing.
-/

namespace SchemaShaper

/-- Does the target select the element of this position and name in a list of `len` elements? -/
def Target.selects (target : Target) (len position : Nat) (name : String) : Bool :=
  match target with
  | .pattern glob => glob.covers name
  | .index spec => (spec.resolve len).contains position

/-- Delete the selected columns of a table. -/
def Table.deleteColumns (target : Target) (t : Table) : Table :=
  t.keepColumns fun i c => !target.selects t.columns.length i c.name

/-- Delete the selected foreign keys of a table. -/
def Table.deleteKeys (target : Target) (t : Table) : Table :=
  t.keepKeys fun i k => !target.selects t.keys.length i k.name

namespace Statement

/-- Apply a statement to a document. -/
def apply (s : Statement) (d : Document) : Document :=
  match s with
  | deleteTables target =>
    d.keepTables fun i t => !target.selects d.tables.length i t.name
  | deleteColumns tables target =>
    ⟨d.tables.map fun t => if tables.includes t.name then t.deleteColumns target else t⟩
  | deleteKeys target => ⟨d.tables.map (·.deleteKeys target)⟩

/-- The number of elements of the kind that the statement deletes. -/
def count (s : Statement) (d : Document) : Nat :=
  match s with
  | deleteTables _ => d.tables.length
  | deleteColumns .. => (d.tables.flatMap (·.columns)).length
  | deleteKeys _ => (d.tables.flatMap (·.keys)).length

/-- The number of elements that the statement removes from a document. -/
def removed (s : Statement) (d : Document) : Nat := s.count d - s.count (s.apply d)

/-- Apply statements in order. -/
def applyAll (statements : List Statement) (d : Document) : Document :=
  statements.foldl (fun d s => s.apply d) d

/-- Read the entries from `position` on. -/
def parseFrom : Nat → List String → Except EditError (List Statement)
  | _, [] => .ok []
  | position, entry :: entries =>
    if isSkipped entry then parseFrom (position + 1) entries
    else
      match parse entry with
      | .error reason => .error (.atLine position reason)
      | .ok s => (parseFrom (position + 1) entries).map (s :: ·)

section Entry

variable {entry : String} {entries : List String}

theorem parseFrom_cons_skip (h : isSkipped entry = true) (position : Nat) :
    parseFrom position (entry :: entries) = parseFrom (position + 1) entries := by
  rw [parseFrom, if_pos h]

theorem parseFrom_cons_ok (h : isSkipped entry = false) {s : Statement}
    (hs : parse entry = .ok s) (position : Nat) :
    parseFrom position (entry :: entries) = (parseFrom (position + 1) entries).map (s :: ·) := by
  rw [parseFrom, if_neg (by simp [h]), hs]

theorem parseFrom_cons_error (h : isSkipped entry = false) {reason : EditError}
    (hs : parse entry = .error reason) (position : Nat) :
    parseFrom position (entry :: entries) = .error (.atLine position reason) := by
  rw [parseFrom, if_neg (by simp [h]), hs]

end Entry

/-- Read a list of entries; the first bad one is reported with its position. -/
def parseEntries (entries : List String) : Except EditError (List Statement) :=
  parseFrom 1 entries

/-- Read the lines of a script. -/
def parseScript (script : String) : Except EditError (List Statement) :=
  parseEntries (Text.linesOf script)

end Statement

/-- Read and apply one entry. -/
def Document.deleteEntry (entry : String) (d : Document) : Except EditError Document :=
  (Statement.parse entry).map (·.apply d)

theorem Document.deleteEntry_eq_ok_iff {entry : String} {d d' : Document} :
    d.deleteEntry entry = .ok d' ↔ ∃ s, Statement.parse entry = .ok s ∧ s.apply d = d' := by
  unfold Document.deleteEntry
  cases Statement.parse entry <;> simp [Except.map]

theorem Document.deleteEntry_eq_error_iff {entry : String} {d : Document} {reason : EditError} :
    d.deleteEntry entry = .error reason ↔ Statement.parse entry = .error reason := by
  unfold Document.deleteEntry
  cases Statement.parse entry <;> simp [Except.map]

/-- Read and apply entries in order. -/
def Document.transform (entries : List String) (d : Document) : Attempt :=
  runEntries Document.deleteEntry 1 entries d

/-- Read and apply the lines of a script. -/
def Document.transformScript (script : String) (d : Document) : Attempt :=
  d.transform (Text.linesOf script)

end SchemaShaper

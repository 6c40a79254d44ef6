import SchemaShaper.Document.Basic
import SchemaShaper.Edit.Error
import SchemaShaper.Text.Split

/-!
# Running a list of entries

Statements and foreign keys come in lists of entries. Blank entries and entries that begin with `#`
are skipped but counted. The first entry that fails ends the run, and what the entries before it
did stays.
-/

namespace SchemaShaper

/-- Is the entry blank or a comment? -/
def isSkipped (entry : String) : Bool :=
  match Text.trim entry.toList with
  | [] => true
  | c :: _ => c == '#'

/-- What a run over a document leaves: the document, and the failure that ended the run. -/
structure Attempt where
  document : Document
  failure : Option EditError
  deriving DecidableEq, Repr

/-- Let `step` act on the document for every entry that is not skipped. The first entry stands at
`position`. -/
def runEntries (step : String → Document → Except EditError Document) :
    Nat → List String → Document → Attempt
  | _, [], d => ⟨d, none⟩
  | position, entry :: entries, d =>
    if isSkipped entry then runEntries step (position + 1) entries d
    else
      match step entry d with
      | .ok d => runEntries step (position + 1) entries d
      | .error reason => ⟨d, some (.atLine position reason)⟩

section Entry

variable {step : String → Document → Except EditError Document} {entry : String}
  {entries : List String} {d : Document}

theorem runEntries_cons_skip (h : isSkipped entry = true) (position : Nat) :
    runEntries step position (entry :: entries) d = runEntries step (position + 1) entries d := by
  rw [runEntries, if_pos h]

theorem runEntries_cons_ok (h : isSkipped entry = false) {d' : Document}
    (hs : step entry d = .ok d') (position : Nat) :
    runEntries step position (entry :: entries) d = runEntries step (position + 1) entries d' := by
  rw [runEntries, if_neg (by simp [h]), hs]

theorem runEntries_cons_error (h : isSkipped entry = false) {reason : EditError}
    (hs : step entry d = .error reason) (position : Nat) :
    runEntries step position (entry :: entries) d = ⟨d, some (.atLine position reason)⟩ := by
  rw [runEntries, if_neg (by simp [h]), hs]

end Entry

end SchemaShaper

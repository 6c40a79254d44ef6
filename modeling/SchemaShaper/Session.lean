import SchemaShaper.Document.Change
import SchemaShaper.Document.Finding
import SchemaShaper.Document.Interchange
import SchemaShaper.Edit.Deletion
import SchemaShaper.Edit.Injection
import SchemaShaper.Value.Omission

/-!
# Editing sessions

A session holds the document it began with, a working copy, and the keys its view leaves out. Every
edit acts on the working copy alone. The plain edits keep what the entries before a failure did; the
whole edits leave the session as it was when any entry fails.
-/

namespace SchemaShaper

/-- An editing session. -/
structure Session where
  base : Document
  working : Document
  omitted : List String
  deriving DecidableEq, Repr

namespace Session

/-- A session that begins with a document. -/
def start (base : Document) : Session := { base, working := base, omitted := [] }

/-- What an edit leaves: the session, and the failure that ended the edit. -/
structure Outcome where
  session : Session
  failure : Option EditError
  deriving DecidableEq, Repr

/-- Keep the document of an attempt, whether it failed or not. -/
def keep (s : Session) (a : Attempt) : Outcome := ⟨{ s with working := a.document }, a.failure⟩

/-- Keep the document of an attempt that succeeded. -/
def keepWhole (s : Session) (a : Attempt) : Outcome :=
  match a.failure with
  | none => ⟨{ s with working := a.document }, none⟩
  | some reason => ⟨s, some reason⟩

/-- Apply deletion statements to the working copy. -/
def transform (entries : List String) (s : Session) : Outcome :=
  s.keep (s.working.transform entries)

/-- Apply all deletion statements, or none. -/
def transformWhole (entries : List String) (s : Session) : Outcome :=
  s.keepWhole (s.working.transform entries)

/-- Add foreign keys to the working copy. -/
def addKeys (entries : List String) (s : Session) : Outcome :=
  s.keep (s.working.addKeys entries)

/-- Add all foreign keys, or none. -/
def addKeysWhole (entries : List String) (s : Session) : Outcome :=
  s.keepWhole (s.working.addKeys entries)

/-- Register one key to leave out, unless it is a skipped entry or registered already. -/
def omitKey (omitted : List String) (entry : String) : List String :=
  let key := Text.trimmed entry
  if isSkipped key || omitted.contains key then omitted else omitted ++ [key]

/-- Register keys that the view leaves out. -/
def omitKeys (entries : List String) (s : Session) : Session :=
  { s with omitted := entries.foldl omitKey s.omitted }

/-- Drop every edit and every omitted key. -/
def reset (s : Session) : Session := start s.base

/-- One operation on a session. -/
inductive Operation where
  | transform (entries : List String)
  | transformWhole (entries : List String)
  | addKeys (entries : List String)
  | addKeysWhole (entries : List String)
  | omitKeys (entries : List String)
  | reset
  deriving DecidableEq, Repr

/-- Perform one operation. -/
def perform (s : Session) : Operation → Outcome
  | .transform entries => s.transform entries
  | .transformWhole entries => s.transformWhole entries
  | .addKeys entries => s.addKeys entries
  | .addKeysWhole entries => s.addKeysWhole entries
  | .omitKeys entries => ⟨s.omitKeys entries, none⟩
  | .reset => ⟨s.reset, none⟩

/-- Perform operations in order; a failing one does not stop those that follow. -/
def run (s : Session) (operations : List Operation) : Session :=
  operations.foldl (fun s operation => (s.perform operation).session) s

/-- The working copy without the omitted keys. -/
def view (s : Session) : Value := s.working.toValue.without s.omitted

/-- The document that the session began with, nothing left out. -/
def baseView (s : Session) : Value := s.base.toValue

/-- The changes from the base to the working copy. -/
def changes (s : Session) : List Change := Change.between s.base s.working

end Session

end SchemaShaper

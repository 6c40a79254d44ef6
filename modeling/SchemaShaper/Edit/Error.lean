import SchemaShaper.Index.Parser

/-!
# Why an edit fails

An edit fails because its text cannot be read, because it would break the document model, or
because it needs a table that is not there. In a list of entries the cause is wrapped with the
position of the entry, counted from 1.
-/

namespace SchemaShaper

/-- The cause of a failed edit. -/
inductive EditError where
  | invalidStatement (line : String)
  | invalidIndexSpec (spec : String) (reason : Index.SpecError)
  | missingSeparator (line : String)
  | duplicateSeparator (line : String)
  | invalidSource (side : String)
  | invalidTarget (side : String)
  | emptyName (line : String)
  | columnCountMismatch (spec : String) (sources targets : Nat)
  | sourceTableNotFound (table spec : String)
  | atLine (position : Nat) (reason : EditError)
  deriving DecidableEq, Repr

namespace EditError

/-- A coarse class of causes. -/
inductive Kind where
  | parse
  | structural
  | notFound
  deriving DecidableEq, Repr

/-- The class of a cause; a position does not change it. -/
def kind : EditError → Kind
  | columnCountMismatch .. => .structural
  | sourceTableNotFound .. => .notFound
  | atLine _ reason => reason.kind
  | _ => .parse

/-- The wording of a cause. -/
def message : EditError → String
  | invalidStatement line =>
    s!"invalid statement: '{line}' (expected 'del table|column <table>|fk' followed by "
      ++ "'pattern:<glob>' or 'index:<spec>')"
  | invalidIndexSpec spec reason => s!"invalid index spec '{spec}': " ++ reason.message
  | missingSeparator line => s!"invalid foreign key spec (missing '|-->|'): {line}"
  | duplicateSeparator line => s!"invalid foreign key spec (multiple '|-->|'): {line}"
  | invalidSource side => s!"invalid source spec (expected 'table|cols'): {side}"
  | invalidTarget side => s!"invalid target spec (expected 'table|cols'): {side}"
  | emptyName line => s!"empty table or column name in foreign key spec: {line}"
  | columnCountMismatch spec sources targets =>
    s!"column count mismatch in '{spec}': source has {sources}, target has {targets}"
  | sourceTableNotFound table spec => s!"source table not found: {table} (in '{spec}')"
  | atLine position reason => s!"line {position}: " ++ reason.message

end EditError

end SchemaShaper

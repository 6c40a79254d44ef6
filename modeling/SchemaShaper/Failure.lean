import SchemaShaper.Edit.Error
import SchemaShaper.Files.Access
import SchemaShaper.Text.Split

/-!
# Why a run fails

A failure is a cause with what was being done when it arose, from the outside in. Causes from
outside the library, such as a text that is no JSON, have no wording of their own here: whoever
shows a failure words them.
-/

namespace SchemaShaper

/-- A cause from outside the library. -/
inductive Outside where
  | file (fault : Fault)
  /-- A text or a value does not fit YAML or what is read from it. -/
  | yaml
  /-- A text or a value does not fit JSON or what is read from it. -/
  | json
  deriving DecidableEq, Repr

/-- Why a run fails. -/
inductive Failure where
  | outside (cause : Outside)
  | edit (reason : EditError)
  | indexSpec (reason : Index.SpecError)
  | notice (message : String)
  | during (activity : String) (reason : Failure)
  deriving DecidableEq, Repr

namespace Failure

/-- The messages of a failure, the outermost first, where `wording` words the causes from
outside. -/
def messages (wording : Outside → String) : Failure → List String
  | outside cause => [wording cause]
  | edit reason => [reason.message]
  | indexSpec reason => [reason.message]
  | notice message => [message]
  | during activity reason => activity :: reason.messages wording

/-- A cause behind its lead; its further lines are moved in by `width` columns. -/
def indented (lead : String) (width : Nat) (cause : String) : String :=
  let margin := String.ofList ('\n' :: List.replicate width ' ')
  lead ++ Text.joinWith margin ((Text.splitOn '\n' cause.toList).map String.ofList)

/-- The causes of a report, indented, and numbered when there are more than one. -/
def causeLines (causes : List String) : List String :=
  match causes with
  | [cause] => [indented "    " 4 cause]
  | causes => causes.zipIdx.map fun (cause, i) => indented ("    " ++ toString i ++ ": ") 7 cause

/-- The report of a failure: its outermost message, then its causes, indented. -/
def report (wording : Outside → String) (f : Failure) : String :=
  match f.messages wording with
  | [] => ""
  | [message] => message
  | message :: causes => Text.joinWith "\n" ([message, "", "Caused by:"] ++ causeLines causes)

end Failure

end SchemaShaper

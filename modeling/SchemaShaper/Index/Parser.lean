import SchemaShaper.Index.Spec

/-!
# Reading index specs

A spec is a comma-separated list of terms, in brackets or not. A term is a whole number, or two or
three components separated by colons, each blank or a whole number. A refused spec is reported by
its leftmost bad term.
-/

namespace SchemaShaper.Index

/-- Why a text is no index spec. -/
inductive SpecError where
  | empty
  | unbalancedBrackets (spec : String)
  | emptyTerm (spec : String)
  | invalidInteger (term value : String)
  | tooManyColons (term : String)
  | zeroStep (term : String)
  deriving DecidableEq, Repr

/-- The wording of an index spec error. -/
def SpecError.message : SpecError → String
  | .empty => "index spec is empty"
  | .unbalancedBrackets spec => s!"unbalanced brackets in index spec '{spec}'"
  | .emptyTerm spec => s!"empty term in index spec '{spec}'"
  | .invalidInteger term value => s!"invalid integer '{value}' in index term '{term}'"
  | .tooManyColons term =>
    s!"too many ':' in slice term '{term}' (expected start:stop or start:stop:step)"
  | .zeroStep term => s!"slice step cannot be zero in term '{term}'"

/-- The offset that a text of at most one sign and ASCII digits writes, if it is in range. -/
def offset? (cs : List Char) : Option Offset :=
  match Decimal.ofSigned? cs with
  | some n => if minOffset ≤ n ∧ n ≤ maxOffset then some (Int64.ofInt n) else none
  | none => none

/-- Read the offset `value` inside the term `term`. -/
def readOffset (term value : List Char) : Except SpecError Offset :=
  match offset? value with
  | some i => .ok i
  | none => .error (.invalidInteger (String.ofList term) (String.ofList value))

/-- Read a component of the slice `term`; a blank one is absent. -/
def readComponent (term : List Char) (value : Option (List Char)) :
    Except SpecError (Option Offset) :=
  match value with
  | none | some [] => .ok none
  | some (c :: cs) => (readOffset term (c :: cs)).map some

/-- Read a slice from the components of its term. -/
def readSlice (term : List Char) (parts : List (List Char)) : Except SpecError Slice := do
  if parts.length > 3 then .error (.tooManyColons (String.ofList term)) else
  let start ← readComponent term parts[0]?
  let stop ← readComponent term parts[1]?
  let step ← readComponent term parts[2]?
  if step = some 0 then .error (.zeroStep (String.ofList term)) else
  return { start, stop, step }

/-- Read one trimmed term of the spec `spec`. -/
def readTerm (spec : String) (term : List Char) : Except SpecError Term :=
  if term.isEmpty then .error (.emptyTerm spec)
  else if term.contains ':' then
    (readSlice term ((Text.splitOn ':' term).map Text.trim)).map .range
  else (readOffset term term).map .single

/-- The body of a trimmed spec that is not empty: what stands between its brackets, or all of it
when no bracket stands at its ends. -/
def body? (cs : List Char) : Option (List Char) :=
  match cs.head? == some '[', cs.getLast? == some ']' with
  | true, true => if 2 ≤ cs.length then some (cs.drop 1).dropLast else none
  | false, false => some cs
  | _, _ => none

/-- Read an index spec. -/
def Spec.parse (spec : String) : Except SpecError Spec :=
  let cs := Text.trim spec.toList
  if cs.isEmpty then .error .empty
  else
    match body? cs with
    | none => .error (.unbalancedBrackets spec)
    | some inner =>
      if inner.contains '[' || inner.contains ']' then .error (.unbalancedBrackets spec)
      else if (Text.trim inner).isEmpty then .ok ⟨[]⟩
      else
        ((Text.splitOn ',' inner).mapM fun term => readTerm spec (Text.trim term)).map Spec.mk

end SchemaShaper.Index

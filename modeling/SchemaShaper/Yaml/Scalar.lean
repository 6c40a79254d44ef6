import SchemaShaper.Json.Parser
import SchemaShaper.Text.Split
import SchemaShaper.Value.Basic

/-!
# What plain scalars mean

A plain scalar is null, a truth value, a whole number, a float, or else the text it is. Whole
numbers may be written in base 2, 8 or 16; digits behind a leading zero are a text. A whole number
that needs more than 64 bits but no more than 128 is refused, and a larger one is a float. A number
that is too large for a float is a text.
-/

namespace SchemaShaper.Yaml

open Decimal

/-- Does the text stand for null? -/
def isNull (s : String) : Bool := ["null", "Null", "NULL", "~"].contains s

/-- The truth value of a text. -/
def flag? (s : String) : Option Bool :=
  if ["true", "True", "TRUE"].contains s then some true
  else if ["false", "False", "FALSE"].contains s then some false
  else none

/-- Does the text begin with a sign? -/
def isSigned (cs : List Char) : Bool := cs.head? == some '+' || cs.head? == some '-'

/-- The text without a `+` in front of it; none when another sign follows. -/
def unpositive? : List Char → Option (List Char)
  | '+' :: cs => if isSigned cs then none else some cs
  | cs => some cs

/-- Is the text, behind at most one sign, a run of digits with a zero in front? -/
def hasLeadingZero (cs : List Char) : Bool :=
  let cs := if isSigned cs then cs.drop 1 else cs
  cs.length > 1 && cs.head? == some '0' && cs.all Char.isDigit

/-- The value of a run of digits of a base. -/
def ofBase? (base : Nat) (cs : List Char) : Option Nat :=
  if cs.isEmpty then none
  else cs.foldlM (fun n c => do
    let d ← Json.hexValue? c
    if d < base then some (n * base + d) else none) 0

/-- The value of an unsigned whole number, in decimal if `decimal` allows it. -/
def unsigned? (decimal : Bool) (cs : List Char) : Option Nat :=
  match cs with
  | '0' :: 'x' :: rest => ofBase? 16 rest
  | '0' :: 'o' :: rest => ofBase? 8 rest
  | '0' :: 'b' :: rest => ofBase? 2 rest
  | cs => if decimal then ofDigits? cs else none

/-- The value of a whole number of any size. -/
def whole? (s : String) : Option Int :=
  let decimal := !hasLeadingZero s.toList
  match s.toList with
  | '-' :: cs => (unsigned? decimal cs).map fun n => -(n : Int)
  | cs => (unpositive? cs).bind fun cs => (unsigned? decimal cs).map Int.ofNat

/-- The digits and the exponent of a decimal behind its sign. -/
def decimal? (cs : List Char) : Option (Nat × Int) := do
  let (whole, cs) := cs.span Char.isDigit
  let (fraction, cs) := match cs with
    | '.' :: cs => cs.span Char.isDigit
    | cs => ([], cs)
  if whole.isEmpty && fraction.isEmpty then none else
  let e ← match cs with
    | [] => some 0
    | c :: cs => if c == 'e' || c == 'E' then ofSigned? cs else none
  return (valueFrom 0 (whole ++ fraction), e - fraction.length)

/-- The float of a text. -/
def float? (s : String) : Option Binary64 :=
  let cs := s.toList
  match unpositive? cs with
  | none => none
  | some positive =>
    if [".inf", ".Inf", ".INF"].contains (String.ofList positive) then
      some (.infinity false)
    else if ["-.inf", "-.Inf", "-.INF"].contains s then some (.infinity true)
    else if [".nan", ".NaN", ".NAN"].contains s then some .nan
    else
      let (negative, size) := match positive with
        | '-' :: cs => (true, cs)
        | cs => (false, cs)
      match decimal? size with
      | none => none
      | some (digits, e) =>
        let x := Binary64.ofDecimal negative digits e
        if x.isFinite then some x else none

/-- What a whole number of any size is read as. -/
inductive Range where
  | fits
  | tooLarge
  | beyond
  deriving DecidableEq, Repr

/-- The range of a whole number: up to 64 bits, up to 128 bits, or beyond. -/
def Range.of (n : Int) : Range :=
  if -Int.pow 2 63 ≤ n ∧ n < Int.pow 2 64 then fits
  else if -Int.pow 2 127 ≤ n ∧ n < Int.pow 2 128 then tooLarge
  else beyond

/-- The value of a text as a float or a text. -/
def floatOrText (s : String) : Value :=
  if hasLeadingZero s.toList then .text s
  else
    match float? s with
    | some x => .number (.float x)
    | none => .text s

/-- The value of a plain scalar; none for a whole number that is refused. -/
def plainValue? (s : String) : Option Value :=
  if s.isEmpty || isNull s then some .null
  else
    match flag? s with
    | some b => some (.bool b)
    | none =>
      match whole? s with
      | none => some (floatOrText s)
      | some n =>
        match Range.of n with
        | .fits => some (.number (.whole n))
        | .tooLarge => none
        | .beyond => some (floatOrText s)

/-- The value that a scalar has under one of the tags of the core schema; none when its text does
not fit. -/
def coreValue? (tag s : String) : Option Value :=
  match tag with
  | "bool" => (flag? s).map .bool
  | "int" =>
    match whole? s with
    | some n => if Range.of n = .fits then some (.number (.whole n)) else none
    | none => none
  | "float" => (float? s).map fun x => .number (.float x)
  | "null" => if isNull s then some .null else none
  | _ => some (.text s)

end SchemaShaper.Yaml

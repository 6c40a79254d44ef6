import SchemaShaper.Decimal.Whole
import SchemaShaper.Index.Slice
import SchemaShaper.Text.Split

/-!
# Index specs

An index spec is a list of terms, each a single position or a slice, that together designate
positions in a list of known length. `positions` keeps the order of the terms and every
repetition; `resolve` is the sorted list of the distinct positions.
-/

namespace SchemaShaper.Index

/-- One term of an index spec. -/
inductive Term where
  | single (index : Offset)
  | range (slice : Slice)
  deriving DecidableEq, Repr

/-- The position in a list of `len` elements that an index designates, if it designates one; a
negative index counts from the end. -/
def normalize (index : Offset) (len : Nat) : Option Nat :=
  let i := if index.toInt < 0 then index.toInt + len else index.toInt
  if (len : Int) ≤ maxOffset ∧ 0 ≤ i ∧ i < len then some i.toNat else none

/-- The written form of a part of a slice; nothing for an absent part. -/
def optionalText (value : Option Offset) : String :=
  match value with
  | none => ""
  | some v => Decimal.text v.toInt

/-- The written form `start:stop`, with `:step` behind it when the slice gives a step. -/
def Slice.display (s : Slice) : String :=
  optionalText s.start ++ ":" ++ optionalText s.stop ++
    match s.step with
    | none => ""
    | some step => ":" ++ Decimal.text step.toInt

namespace Term

/-- The positions that the term designates in a list of `len` elements. -/
def positions (t : Term) (len : Nat) : List Nat :=
  match t with
  | single i => (normalize i len).toList
  | range s => s.positions len

/-- The written form of a term. -/
def display : Term → String
  | single i => Decimal.text i.toInt
  | range s => s.display

end Term

/-- An index spec: its terms in order. -/
structure Spec where
  terms : List Term
  deriving DecidableEq, Repr

/-- Drop every element that equals the one before it. -/
def dropRepeats : List Nat → List Nat
  | a :: b :: rest => if a = b then dropRepeats (b :: rest) else a :: dropRepeats (b :: rest)
  | short => short

namespace Spec

/-- Does the spec have no term? -/
def isEmpty (s : Spec) : Bool := s.terms.isEmpty

/-- The designated positions in term order, repetitions kept. -/
def positions (s : Spec) (len : Nat) : List Nat := s.terms.flatMap (·.positions len)

/-- The designated positions, each once and ascending. -/
def resolve (s : Spec) (len : Nat) : List Nat :=
  dropRepeats ((s.positions len).mergeSort (· ≤ ·))

/-- The designated elements of a list, in term order. -/
def select {α : Type} (s : Spec) (items : List α) : List α :=
  (s.positions items.length).filterMap (items[·]?)

/-- The canonical written form: the terms in brackets, separated by commas. -/
def display (s : Spec) : String :=
  "[" ++ Text.joinWith "," (s.terms.map Term.display) ++ "]"

end Spec

end SchemaShaper.Index

import SchemaShaper.Decimal.Shortest

/-!
# Dynamic values

A value is what a YAML or JSON text holds before it is read as anything in particular: null, a
boolean, a number, a text, a sequence, a mapping in its own order, or a value under a tag. The name
of a tag is kept without its leading `!`.
-/

namespace SchemaShaper

open Decimal

/-- A number: a whole number from -2^63 to 2^64 - 1, or a float. -/
inductive Number where
  | whole (n : Int)
  | float (x : Binary64)
  deriving DecidableEq, Repr

/-- Numeric equality. A whole number never equals a float. -/
def Number.same : Number → Number → Bool
  | whole a, whole b => a == b
  | float x, float y => x.same y
  | _, _ => false

/-- A dynamic value. -/
inductive Value where
  | null
  | bool (b : Bool)
  | number (n : Number)
  | text (s : String)
  | sequence (items : List Value)
  | mapping (entries : List (Value × Value))
  | tagged (tag : String) (value : Value)
  deriving Repr

namespace Value

mutual

/-- Equality of values; the order of the entries of a mapping does not count. -/
def same : Value → Value → Bool
  | null, null => true
  | bool a, bool b => a == b
  | number a, number b => a.same b
  | text a, text b => a == b
  | sequence xs, sequence ys => sameItems xs ys
  | mapping xs, mapping ys => xs.length == ys.length && sameEntries xs ys
  | tagged s x, tagged t y => s == t && same x y
  | _, _ => false

/-- Equality of sequences, item by item. -/
def sameItems : List Value → List Value → Bool
  | [], [] => true
  | x :: xs, y :: ys => same x y && sameItems xs ys
  | _, _ => false

/-- Is there an equal entry in the second list for every entry of the first? -/
def sameEntries : List (Value × Value) → List (Value × Value) → Bool
  | [], _ => true
  | (k, v) :: xs, ys => (ys.any fun (k', v') => same k k' && same v v') && sameEntries xs ys

end

/-- The text that a value is, seen through its tags. -/
def asText? : Value → Option String
  | text s => some s
  | tagged _ v => v.asText?
  | _ => none

/-- The value without the tags around it. -/
def untagged : Value → Value
  | tagged _ v => v.untagged
  | v => v

/-- The value under a key that is a plain text, in the mapping that the value is under its tags. -/
def get? (v : Value) (key : String) : Option Value :=
  match v.untagged with
  | mapping entries => (entries.find? fun (k, _) => k.same (text key)).map (·.2)
  | _ => none

/-- Put an entry into a mapping: the value of an equal key is replaced where it stands, a new key
comes last. -/
def insert (key value : Value) : List (Value × Value) → List (Value × Value)
  | [] => [(key, value)]
  | (k, v) :: rest =>
    if k.same key then (k, value) :: rest else (k, v) :: insert key value rest

/-- The name of a tag written with or without its leading `!`. -/
def tagName (s : String) : String :=
  match s.toList with
  | ['!'] => "!"
  | '!' :: rest => String.ofList rest
  | _ => s

end Value

end SchemaShaper

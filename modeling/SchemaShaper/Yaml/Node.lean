import SchemaShaper.Yaml.Token

/-!
# Nodes of YAML

A document is a tree of scalars, sequences and mappings, whose nodes may have a tag and an anchor,
and of aliases of anchors. An anchor is a number: as many names had an anchor before it. A name that
is used again gets a number anew, so that numbers may repeat; an alias stands for the last node of
its number.
-/

namespace SchemaShaper.Yaml

/-- What stands in front of a node. -/
structure Properties where
  anchor : Option Nat
  tag : Option TagText
  deriving DecidableEq, Repr

/-- A node. -/
inductive Node where
  | aliasOf (anchor : Nat)
  | scalar (properties : Properties) (style : Style) (text : String)
  | sequence (properties : Properties) (items : List Node)
  | mapping (properties : Properties) (entries : List (Node × Node))
  deriving Repr

namespace Node

/-- The node of an absent scalar. -/
def blank : Node := scalar ⟨none, none⟩ .plain ""

/-- The anchor of a node with the node. -/
def anchored (p : Properties) (n : Node) : List (Nat × Node) :=
  match p.anchor with
  | some a => [(a, n)]
  | none => []

mutual

/-- The anchored nodes in the order in which they begin. -/
def anchors : Node → List (Nat × Node)
  | aliasOf _ => []
  | scalar p style text => anchored p (scalar p style text)
  | sequence p items => anchored p (sequence p items) ++ itemAnchors items
  | mapping p entries => anchored p (mapping p entries) ++ entryAnchors entries

/-- The anchored nodes in items. -/
def itemAnchors : List Node → List (Nat × Node)
  | [] => []
  | n :: ns => n.anchors ++ itemAnchors ns

/-- The anchored nodes in entries. -/
def entryAnchors : List (Node × Node) → List (Nat × Node)
  | [] => []
  | (k, v) :: rest => k.anchors ++ v.anchors ++ entryAnchors rest

end

mutual

/-- The number of marks that a tree consists of: one for a scalar or an alias, one for either end of
a collection. -/
def size : Node → Nat
  | aliasOf _ => 1
  | scalar .. => 1
  | sequence _ items => 2 + itemsSize items
  | mapping _ entries => 2 + entriesSize entries

/-- `size` of items. -/
def itemsSize : List Node → Nat
  | [] => 0
  | n :: ns => n.size + itemsSize ns

/-- `size` of entries. -/
def entriesSize : List (Node × Node) → Nat
  | [] => 0
  | (k, v) :: rest => k.size + v.size + entriesSize rest

end

end Node

end SchemaShaper.Yaml

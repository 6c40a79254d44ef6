import SchemaShaper.Record.Access
import SchemaShaper.Yaml.Parser
import SchemaShaper.Yaml.Scalar

/-!
# Reading YAML

How a node is read as a dynamic value, and how a typed reader looks into it. Following an alias is
counted: a text may follow a hundred times as many aliases as its tree has marks, which bounds what
nested aliases can blow up to. A value may hold 128 nested collections.
-/

namespace SchemaShaper.Yaml

/-- What reading a tree needs: its anchored nodes, the last one first, and the number of aliases
that may be followed. -/
structure Context where
  anchors : List (Nat × Node)
  limit : Nat

/-- The context of a tree. -/
def Context.of (root : Node) : Context :=
  { anchors := root.anchors.reverse, limit := 100 * root.size }

/-- A reading counts the aliases that it follows and may fail. -/
abbrev Reading := StateT Nat Option

/-- The greatest number of nested collections that is read. -/
def maxDepth : Nat := 128

namespace Context

/-- The node itself, or the node that an alias stands for. -/
def target (ctx : Context) (n : Node) : Reading Node :=
  match n with
  | .aliasOf a => do
    let followed ← get
    if followed < ctx.limit then
      set (followed + 1)
      match ctx.anchors.lookup a with
      | some n => pure n
      | none => failure
    else failure
  | n => pure n

/-- Is the tag one of the program that reads? Such a tag begins with `!`. -/
def isLocal (tag : TagText) : Bool := tag.head? == some (some '!')

/-- The name of a local tag: what stands behind its `!`, or `!` when nothing does. A tag with an
unreadable character has no name. -/
def localName? (tag : TagText) : Option (List Char) :=
  match tag with
  | [some '!'] => some ['!']
  | some '!' :: name => name.mapM id
  | _ => none

/-- Put a value under the tag of its node. Tags without a local name do not count. -/
def underTag (p : Properties) (v : Value) : Value :=
  match p.tag.bind localName? with
  | none => v
  | some name => .tagged (Value.tagName (String.ofList name)) v

/-- The name of a tag of the core schema. -/
def coreName? (tag : TagText) : Option String := do
  let cs ← tag.mapM id
  return String.ofList (← Text.dropLead "tag:yaml.org,2002:".toList cs)

/-- The value of a scalar whose tag, if it has one, does not count. -/
def untaggedScalar (style : Style) (text : String) : Reading Value :=
  if style = .plain then StateT.lift (plainValue? text) else pure (.text text)

/-- The value of a scalar. -/
def scalarValue (p : Properties) (style : Style) (text : String) : Reading Value :=
  match p.tag with
  | none => untaggedScalar style text
  | some tag =>
    if isLocal tag then return underTag p (← untaggedScalar style text)
    else StateT.lift (coreValue? ((coreName? tag).getD "") text)

/-- The mapping of entries; fails when a key repeats. -/
def mappingOf (entries : List (Value × Value)) : Reading Value :=
  if distinct (entries.map (·.1)) then pure (.mapping entries) else failure
where
  /-- Does no key repeat? -/
  distinct : List Value → Bool
    | [] => true
    | k :: ks => !ks.any (k.same ·) && distinct ks

/-- The value of a node that may hold `depth` nested collections. -/
def value (ctx : Context) (depth : Nat) (n : Node) : Reading Value := do
  match ← ctx.target n with
  | .aliasOf _ => failure
  | .scalar p style text => scalarValue p style text
  | .sequence p items =>
    match depth with
    | 0 => failure
    | depth + 1 =>
      let values ← items.mapM fun item => value ctx depth item
      return underTag p (.sequence values)
  | .mapping p entries =>
    match depth with
    | 0 => failure
    | depth + 1 =>
      let values ← entries.mapM fun (k, v) => do
        return (← value ctx depth k, ← value ctx depth v)
      return underTag p (← mappingOf values)

/-- The text of a node. Every scalar is a text, whatever its tag and its style. -/
def text (ctx : Context) (n : Node) : Reading String := do
  match ← ctx.target n with
  | .scalar _ _ text => pure text
  | _ => failure

/-- Is the scalar written as nothing at all? -/
def isBlank (style : Style) (text : String) : Bool := style = .plain && text.isEmpty

/-- The truth value of a node. -/
def flag (ctx : Context) (n : Node) : Reading Bool := do
  match ← ctx.target n with
  | .scalar p style text =>
    if style = .plain || (style = .literal && p.tag.bind coreName? == some "bool") then
      StateT.lift (flag? text)
    else failure
  | _ => failure

/-- The target of a node, or nothing when it is a plain scalar that stands for null. -/
def present? (ctx : Context) (n : Node) : Reading (Option Node) := do
  let n ← ctx.target n
  match n with
  | .scalar p .plain text =>
    match p.tag with
    | none => pure (if text.isEmpty || isNull text then none else some n)
    | some tag =>
      if coreName? tag == some "null" then
        if isNull text then pure none else failure
      else pure (some n)
  | n => pure (some n)

/-- The items of a sequence; a scalar written as nothing has none. -/
def items (ctx : Context) (n : Node) : Reading (List Node) := do
  match ← ctx.target n with
  | .sequence _ items => pure items
  | .scalar _ style text => if isBlank style text then pure [] else failure
  | _ => failure

/-- The entries of a mapping with texts as keys; a scalar written as nothing has none. -/
def entries (ctx : Context) (n : Node) : Reading (List (String × Node)) := do
  match ← ctx.target n with
  | .mapping _ entries => entries.mapM fun (k, v) => do return (← ctx.text k, v)
  | .scalar _ style text => if isBlank style text then pure [] else failure
  | _ => failure

/-- Looking into a node. -/
def access (ctx : Context) : Access Reading Node where
  entries _ := ctx.entries
  items := ctx.items
  text := ctx.text
  flag := ctx.flag
  present? := ctx.present?
  refuse := failure

end Context

/-- Read the text of a tree with a reader that is given the context and the root. -/
def read? {α : Type} (reader : Context → Node → Reading α) (text : String) : Option α := do
  let root ← parse? text
  let (result, _) ← (reader (.of root) root).run 0
  return result

/-- The dynamic value of a text. -/
def value? (text : String) : Option Value := read? (fun ctx root => ctx.value maxDepth root) text

end SchemaShaper.Yaml

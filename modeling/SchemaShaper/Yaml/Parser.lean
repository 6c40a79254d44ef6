import SchemaShaper.Yaml.Lexer
import SchemaShaper.Yaml.Node

/-!
# From tokens to nodes

A recursive descent over the tokens of a text. `fuel` bounds the depth of the recursion; every step
but a bounded number between two tokens consumes one. A text holds at most one document, and a text
without any is a blank scalar.
-/

namespace SchemaShaper.Yaml

/-- What tag handles stand for. -/
abbrev Handles := List (String × TagText)

/-- The state of the parser: the tokens that are left, and the number of every anchor name. -/
structure Parser where
  tokens : List Token
  anchors : List (String × Nat)

namespace Parser

/-- The token ahead. -/
def peek (p : Parser) : Token := p.tokens.head?.getD .streamEnd

/-- Drop the token ahead. -/
def drop (p : Parser) : Parser := { p with tokens := p.tokens.drop 1 }

/-- Give a name the next anchor number. -/
def bind (name : String) (p : Parser) : Nat × Parser :=
  let n := p.anchors.length
  let others := p.anchors.filter (·.1 != name)
  (n, { p with anchors := (name, n) :: others })

/-- The anchor ahead, if one stands there. -/
def anchor (p : Parser) : Option String × Parser :=
  match p.peek with
  | .anchor name => (some name, p.drop)
  | _ => (none, p)

/-- The tag ahead, if one stands there. -/
def tag (p : Parser) : Option (String × TagText) × Parser :=
  match p.peek with
  | .tag handle suffix => (some (handle, suffix), p.drop)
  | _ => (none, p)

/-- The anchor and the tag ahead, in any order. -/
def properties (p : Parser) : Option String × Option (String × TagText) × Parser :=
  match p.anchor with
  | (some name, p) =>
    let (tag, p) := p.tag
    (some name, tag, p)
  | (none, p) =>
    match p.tag with
    | (some tag, p) =>
      let (name, p) := p.anchor
      (name, some tag, p)
    | (none, p) => (none, none, p)

/-- The full form of a tag; none when its handle is not known. -/
def resolveTag? (handles : Handles) (tag : String × TagText) : Option TagText :=
  if tag.1.isEmpty then some tag.2
  else (handles.find? (·.1 == tag.1)).map fun (_, lead) => lead ++ tag.2

/-- Is this one of the tokens that end an entry of a block mapping without a node? -/
def endsBlockEntry : Token → Bool
  | .key | .value | .blockEnd => true
  | _ => false

/-- Is this one of the tokens that end an item of a block sequence without a node? -/
def endsBlockItem : Token → Bool
  | .blockEntry | .blockEnd => true
  | _ => false

/-- Is this one of the tokens that end an item of a flow sequence without a node? -/
def endsFlowItem : Token → Bool
  | .flowEntry | .flowSequenceEnd => true
  | _ => false

/-- Is this one of the tokens that end an entry of a flow mapping without a node? -/
def endsFlowEntry : Token → Bool
  | .flowEntry | .flowMappingEnd => true
  | _ => false

mutual

/-- The node ahead. Block collections are allowed where `block` says so, and a sequence without
indentation of its own where `indentless` does. -/
def node? (handles : Handles) (block indentless : Bool) (fuel : Nat) (p : Parser) :
    Option (Node × Parser) :=
  match fuel with
  | 0 => none
  | fuel + 1 =>
    match p.peek with
    | .aliasOf name => (p.anchors.lookup name).map fun a => (.aliasOf a, p.drop)
    | _ => do
      let (name, tag, p) := p.properties
      let tag ← match tag with
        | some tag => (resolveTag? handles tag).map some
        | none => some none
      let (anchor, p) := match name with
        | some name =>
          let (n, p) := p.bind name
          (some n, p)
        | none => (none, p)
      let properties : Properties := { anchor, tag }
      match p.peek with
      | .scalar style text => some (.scalar properties style text, p.drop)
      | .flowSequence =>
        (flowItems? handles true fuel p.drop).map fun (items, p) => (.sequence properties items, p)
      | .flowMapping =>
        (flowEntries? handles true fuel p.drop).map fun (entries, p) =>
          (.mapping properties entries, p)
      | t =>
        if t == .blockEntry && indentless then
          (indentlessItems? handles fuel p).map fun (items, p) => (.sequence properties items, p)
        else if t == .blockSequence && block then
          (blockItems? handles fuel p.drop).map fun (items, p) => (.sequence properties items, p)
        else if t == .blockMapping && block then
          (blockEntries? handles fuel p.drop).map fun (entries, p) =>
            (.mapping properties entries, p)
        else if name.isSome || tag.isSome then some (.scalar properties .plain "", p)
        else none

/-- The node ahead, or a blank one where a token stands that ends it. -/
def nodeUnless? (handles : Handles) (ends : Token → Bool) (block indentless : Bool) (fuel : Nat)
    (p : Parser) : Option (Node × Parser) :=
  match fuel with
  | 0 => none
  | fuel + 1 =>
    if ends p.peek then some (.blank, p) else node? handles block indentless fuel p

/-- The node behind a `:`, or a blank one where none stands. -/
def valueUnless? (handles : Handles) (ends : Token → Bool) (block : Bool) (fuel : Nat)
    (p : Parser) : Option (Node × Parser) :=
  match fuel with
  | 0 => none
  | fuel + 1 =>
    if p.peek == .value then nodeUnless? handles ends block block fuel p.drop
    else some (.blank, p)

/-- The items of a block sequence. -/
def blockItems? (handles : Handles) (fuel : Nat) (p : Parser) : Option (List Node × Parser) :=
  match fuel with
  | 0 => none
  | fuel + 1 =>
    match p.peek with
    | .blockEntry => do
      let (item, p) ← nodeUnless? handles endsBlockItem true false fuel p.drop
      let (items, p) ← blockItems? handles fuel p
      return (item :: items, p)
    | .blockEnd => some ([], p.drop)
    | _ => none

/-- The items of a sequence without indentation of its own. -/
def indentlessItems? (handles : Handles) (fuel : Nat) (p : Parser) :
    Option (List Node × Parser) :=
  match fuel with
  | 0 => none
  | fuel + 1 =>
    match p.peek with
    | .blockEntry => do
      let ends t := endsBlockItem t || endsBlockEntry t
      let (item, p) ← nodeUnless? handles ends true false fuel p.drop
      let (items, p) ← indentlessItems? handles fuel p
      return (item :: items, p)
    | _ => some ([], p)

/-- The entries of a block mapping. -/
def blockEntries? (handles : Handles) (fuel : Nat) (p : Parser) :
    Option (List (Node × Node) × Parser) :=
  match fuel with
  | 0 => none
  | fuel + 1 =>
    match p.peek with
    | .key => do
      let (k, p) ← nodeUnless? handles endsBlockEntry true true fuel p.drop
      let (v, p) ← valueUnless? handles endsBlockEntry true fuel p
      let (entries, p) ← blockEntries? handles fuel p
      return ((k, v) :: entries, p)
    | .blockEnd => some ([], p.drop)
    | _ => none

/-- The items of a flow sequence; all but the first come behind a comma. -/
def flowItems? (handles : Handles) (first : Bool) (fuel : Nat) (p : Parser) :
    Option (List Node × Parser) :=
  match fuel with
  | 0 => none
  | fuel + 1 =>
    if p.peek == .flowSequenceEnd then some ([], p.drop)
    else if !first && p.peek != .flowEntry then none
    else
      let p := if first then p else p.drop
      if p.peek == .flowSequenceEnd then some ([], p.drop)
      else do
        let (item, p) ← if p.peek == .key then flowPair? handles fuel p.drop
          else node? handles false false fuel p
        let (items, p) ← flowItems? handles false fuel p
        return (item :: items, p)

/-- The mapping of one entry that an item of a flow sequence is, behind its `key` token. Where no
key stands, the token in its place is dropped. -/
def flowPair? (handles : Handles) (fuel : Nat) (p : Parser) : Option (Node × Parser) :=
  match fuel with
  | 0 => none
  | fuel + 1 => do
    let (k, p) ← if p.peek == .value || endsFlowItem p.peek then some (.blank, p.drop)
      else node? handles false false fuel p
    let (v, p) ← valueUnless? handles endsFlowItem false fuel p
    return (.mapping ⟨none, none⟩ [(k, v)], p)

/-- The entries of a flow mapping; all but the first come behind a comma. -/
def flowEntries? (handles : Handles) (first : Bool) (fuel : Nat) (p : Parser) :
    Option (List (Node × Node) × Parser) :=
  match fuel with
  | 0 => none
  | fuel + 1 =>
    if p.peek == .flowMappingEnd then some ([], p.drop)
    else if !first && p.peek != .flowEntry then none
    else
      let p := if first then p else p.drop
      if p.peek == .flowMappingEnd then some ([], p.drop)
      else do
        let (entry, p) ←
          if p.peek == .key then do
            let ends t := t == .value || endsFlowEntry t
            let (k, p) ← nodeUnless? handles ends false false fuel p.drop
            let (v, p) ← valueUnless? handles endsFlowEntry false fuel p
            some ((k, v), p)
          else do
            let (k, p) ← node? handles false false fuel p
            some ((k, .blank), p)
        let (entries, p) ← flowEntries? handles false fuel p
        return (entry :: entries, p)

end

/-- The handles that need no directive. -/
def standardHandles : Handles :=
  [("!", [some '!']), ("!!", "tag:yaml.org,2002:".toList.map some)]

/-- The directives ahead: at most one version, 1.1 or 1.2, and at most one meaning of a handle. -/
def directives? (versioned : Bool) (handles : Handles) : List Token → Option (Handles × List Token)
  | .version major minor :: ts =>
    if versioned || major != 1 || (minor != 1 && minor != 2) then none
    else directives? true handles ts
  | .tagHandle handle lead :: ts =>
    if (handles.lookup handle).isSome then none
    else directives? versioned (handles ++ [(handle, lead)]) ts
  | ts => some (handles ++ standardHandles, ts)

/-- Does the document mark leave its document blank? -/
def endsDocument : Token → Bool
  | .version .. | .tagHandle .. | .documentStart | .documentEnd | .streamEnd => true
  | _ => false

/-- The document ahead. -/
def document? (fuel : Nat) (tokens : List Token) : Option (Node × Parser) := do
  let (handles, rest) ← directives? false [] tokens
  match tokens.head?, rest with
  | some .streamEnd, _ => some (.blank, ⟨tokens, []⟩)
  | _, .documentStart :: rest => nodeUnless? handles endsDocument true false fuel ⟨rest, []⟩
  | some (.version ..), _ | some (.tagHandle ..), _ => none
  | _, _ => node? handles true false fuel ⟨tokens, []⟩

end Parser

/-- The node that a text holds. -/
def parse? (text : String) : Option Node := do
  let tokens ← tokens? text
  let (node, p) ← Parser.document? (4 * tokens.length + 4) tokens
  if (p.tokens.dropWhile (· == .documentEnd)).head? == some .streamEnd then some node else none

end SchemaShaper.Yaml

import SchemaShaper.Yaml.ScalarText
import SchemaShaper.Yaml.TagText
import SchemaShaper.Yaml.Token

/-!
# Cutting a YAML text into tokens

The lexer keeps the stack of indentations of the open block collections, and for every open flow
collection, and the text around them, the place where a key without `?` may have begun. When a `:`
follows, the tokens that belong in front of that key are put in there. Such a key stands on one
line, and at most 1024 bytes of UTF-8 lie between its beginning and the `:`.
-/

namespace SchemaShaper.Yaml

/-- The place where a key may have begun. A required key is one that nothing but a key can be. -/
structure KeyStart where
  possible : Bool
  required : Bool
  /-- The number of tokens before it. -/
  number : Nat
  /-- The number of bytes from it on. -/
  left : Nat
  line : Nat
  column : Nat

namespace KeyStart

/-- No key can have begun. -/
def none : KeyStart :=
  { possible := false, required := false, number := 0, left := 0, line := 0, column := 0 }

/-- The most bytes from the beginning of a key to its `:`. -/
def maxKeyBytes : Nat := 1024

/-- Has the cursor gone too far for the key? -/
def isStale (k : KeyStart) (c : Cursor) : Bool :=
  k.possible && (k.line < c.line || c.left + maxKeyBytes < k.left)

end KeyStart

/-- The state of the lexer. -/
structure Lexer where
  cursor : Cursor
  /-- The tokens read so far, the last one first. -/
  tokens : List Token
  /-- The number of tokens read so far. -/
  count : Nat
  /-- The column of the innermost block collection, -1 outside all of them. -/
  indent : Int
  /-- The columns of the block collections around it. -/
  outer : List Int
  /-- May a key without `?` begin here? -/
  keyAllowed : Bool
  /-- The start of a key at this level. -/
  keyStart : KeyStart
  /-- The starts of keys outside the open flow collections, innermost first. -/
  outerStarts : List KeyStart

namespace Lexer

/-- The state before a text. -/
def start (cs : List Char) : Lexer :=
  { cursor := .start cs, tokens := [], count := 0, indent := -1, outer := [], keyAllowed := true,
    keyStart := .none, outerStarts := [] }

/-- Is the cursor inside a flow collection? -/
def inFlow (l : Lexer) : Bool := !l.outerStarts.isEmpty

/-- Append a token. -/
def push (l : Lexer) (t : Token) : Lexer :=
  { l with tokens := t :: l.tokens, count := l.count + 1 }

/-- Put a token in after the first `number` tokens. -/
def pushAt (l : Lexer) (number : Nat) (t : Token) : Lexer :=
  let later := l.count - number
  { l with tokens := l.tokens.take later ++ t :: l.tokens.drop later, count := l.count + 1 }

/-- Move the cursor. -/
def moveTo (l : Lexer) (c : Cursor) : Lexer := { l with cursor := c }

/-- Say whether a key may begin. -/
def allowKey (l : Lexer) (allowed : Bool) : Lexer := { l with keyAllowed := allowed }

/-- Close the block collections right of a column. -/
def unrollFrom (column : Int) (l : Lexer) : List Int → Lexer
  | [] => l
  | i :: outer =>
    if column < l.indent then
      unrollFrom column { l.push .blockEnd with indent := i, outer } outer
    else l

/-- Close the block collections right of a column; in flow collections indentation is free. -/
def unroll (l : Lexer) (column : Int) : Lexer :=
  if l.inFlow then l else unrollFrom column l l.outer

/-- Open a block collection at a column, unless one is open there. -/
def roll (l : Lexer) (column : Nat) (number : Nat) (t : Token) : Lexer :=
  if !l.inFlow && l.indent < column then
    { l.pushAt number t with indent := column, outer := l.indent :: l.outer }
  else l

/-- Forget the place where a key may have begun; a required key must not be forgotten. -/
def dropKey? (l : Lexer) : Option Lexer :=
  if l.keyStart.possible && l.keyStart.required then none
  else some { l with keyStart := .none }

/-- Remember that a key may begin here. -/
def saveKey? (l : Lexer) : Option Lexer :=
  if l.keyAllowed then do
    let c := l.cursor
    let required := !l.inFlow && l.indent == (c.column : Int)
    let l ← l.dropKey?
    let k : KeyStart :=
      { possible := true, required, number := l.count, left := c.left, line := c.line,
        column := c.column }
    return { l with keyStart := k }
  else some l

/-- A place where a key may have begun, unless the cursor has gone too far for it. -/
def freshKey? (c : Cursor) (k : KeyStart) : Option KeyStart :=
  if k.isStale c then if k.required then none else some { k with possible := false } else some k

/-- Forget the keys that the cursor has gone too far for. -/
def dropStale? (l : Lexer) : Option Lexer := do
  return { l with
    keyStart := ← freshKey? l.cursor l.keyStart
    outerStarts := ← l.outerStarts.mapM (freshKey? l.cursor) }

/-- Skip blanks, comments and line breaks. A tab counts as a blank in a flow collection and where no
key may begin, and a byte order mark at the beginning of a line. Behind a line break a key may
begin. -/
def skipSpace (fuel : Nat) (l : Lexer) : Lexer :=
  match fuel with
  | 0 => l
  | fuel + 1 =>
    let c := l.cursor
    let c := if c.column == 0 && c.sees byteOrderMark then c.step else c
    let c := c.skip fun x => x == ' ' || ((l.inFlow || !l.keyAllowed) && x == '\t')
    let c := c.skipComment
    if c.holds 0 isBreak then
      let l := l.moveTo c.skipBreak
      skipSpace fuel (if l.inFlow then l else l.allowKey true)
    else l.moveTo c

/-- The token of a directive. -/
def directive? (l : Lexer) : Option Lexer := do
  let l ← (l.unroll (-1)).dropKey?
  let (name, c) := l.cursor.step.take isWordChar
  if !c.endsWord 0 then none else
  let (token, c) ← match String.ofList name with
    | "YAML" => (readVersion? c).map fun (major, minor, c) => (Token.version major minor, c)
    | "TAG" => (readTagHandle? c).map fun (handle, lead, c) => (Token.tagHandle handle lead, c)
    | _ => none
  let c := (c.skip isGap).skipComment
  if c.endsLine then some (((l.push token).moveTo c.skipBreak).allowKey false) else none

/-- The token of a mark between documents. -/
def documentMark? (l : Lexer) (t : Token) : Option Lexer := do
  let l ← (l.unroll (-1)).dropKey?
  return ((l.push t).moveTo (l.cursor.forward 3)).allowKey false

/-- The token that opens a flow collection. -/
def openFlow? (l : Lexer) (t : Token) : Option Lexer := do
  let l ← l.saveKey?
  return ({ l.push t with
    keyStart := .none, outerStarts := l.keyStart :: l.outerStarts }.moveTo l.cursor.step).allowKey
      true

/-- The token that closes a flow collection. -/
def closeFlow? (l : Lexer) (t : Token) : Option Lexer := do
  let l ← l.dropKey?
  let l := match l.outerStarts with
    | [] => l
    | k :: outer => { l with keyStart := k, outerStarts := outer }
  return ((l.push t).moveTo l.cursor.step).allowKey false

/-- The token of a comma. -/
def flowEntry? (l : Lexer) : Option Lexer := do
  let l ← l.dropKey?
  return ((l.push .flowEntry).moveTo l.cursor.step).allowKey true

/-- Open a block collection that an indicator at the cursor belongs to. -/
def openBlock? (l : Lexer) (t : Token) : Option Lexer :=
  if l.inFlow then some l
  else if l.keyAllowed then some (l.roll l.cursor.column l.count t)
  else none

/-- The token of an item of a block sequence. -/
def blockEntry? (l : Lexer) : Option Lexer := do
  let l ← (← l.openBlock? .blockSequence).dropKey?
  return ((l.push .blockEntry).moveTo l.cursor.step).allowKey true

/-- The token of a key that is marked by `?`. -/
def markedKey? (l : Lexer) : Option Lexer := do
  let l ← (← l.openBlock? .blockMapping).dropKey?
  return ((l.push .key).moveTo l.cursor.step).allowKey !l.inFlow

/-- The token of a `:`, with the tokens in front of the key that it ends. -/
def value? (l : Lexer) : Option Lexer := do
  let k := l.keyStart
  let l ←
    if k.possible then
      let l := (l.pushAt k.number .key).roll k.column k.number .blockMapping
      some ({ l with keyStart := .none }.allowKey false)
    else do
      let l ← l.openBlock? .blockMapping
      some (l.allowKey !l.inFlow)
  return (l.push .value).moveTo l.cursor.step

/-- The token of an alias, an anchor or a tag. -/
def property? (l : Lexer) (read : Cursor → Option (Token × Cursor)) : Option Lexer := do
  let l ← l.saveKey?
  let (token, c) ← read l.cursor
  return ((l.push token).moveTo c).allowKey false

/-- The token of a block scalar. -/
def blockScalar? (l : Lexer) (style : Style) : Option Lexer := do
  let l ← l.dropKey?
  let (text, c) ← readBlock? (style == .folded) l.indent l.cursor
  return ((l.push (.scalar style (String.ofList text))).moveTo c).allowKey true

/-- The token of a plain scalar. -/
def plainScalar? (l : Lexer) : Option Lexer := do
  let l ← l.saveKey?
  let (text, broken, c) ← readPlain? l.inFlow (l.indent + 1) l.cursor
  return ((l.push (.scalar .plain (String.ofList text))).moveTo c).allowKey broken

/-- May a plain scalar begin with the character ahead? -/
def beginsPlain (l : Lexer) : Bool :=
  let c := l.cursor
  match c.rest with
  | [] => false
  | x :: _ =>
    if x == '-' then !c.holds 1 isGap
    else if x == '?' || x == ':' then !l.inFlow && !c.endsWord 1
    else !(isGap x || isBreak x || ",[]{}#&*!|>'\"%@`".toList.contains x)

/-- The end of the text. -/
def finish? (l : Lexer) : Option Lexer := do
  let l ← (l.unroll (-1)).dropKey?
  return l.push .streamEnd

/-- Read the token ahead, which is not the end of the text. -/
def next? (l : Lexer) : Option Lexer :=
  let c := l.cursor
  if c.column == 0 && c.sees '%' then l.directive?
  else if c.atMark '-' then l.documentMark? .documentStart
  else if c.atMark '.' then l.documentMark? .documentEnd
  else if c.sees '[' then l.openFlow? .flowSequence
  else if c.sees '{' then l.openFlow? .flowMapping
  else if c.sees ']' then l.closeFlow? .flowSequenceEnd
  else if c.sees '}' then l.closeFlow? .flowMappingEnd
  else if c.sees ',' then l.flowEntry?
  else if c.sees '-' && c.endsWord 1 then l.blockEntry?
  else if c.sees '?' && (l.inFlow || c.endsWord 1) then l.markedKey?
  else if c.sees ':' && (l.inFlow || c.endsWord 1) then l.value?
  else if c.sees '*' then
    l.property? fun c => (readName? c).map fun (name, c) => (.aliasOf name, c)
  else if c.sees '&' then
    l.property? fun c => (readName? c).map fun (name, c) => (.anchor name, c)
  else if c.sees '!' then
    l.property? fun c => (readTag? l.inFlow c).map fun (handle, suffix, c) =>
      (.tag handle suffix, c)
  else if c.sees '|' && !l.inFlow then l.blockScalar? .literal
  else if c.sees '>' && !l.inFlow then l.blockScalar? .folded
  else if c.sees '\'' then
    l.property? fun c => (readQuoted? '\'' c).map fun (text, c) =>
      (.scalar .singleQuoted (String.ofList text), c)
  else if c.sees '"' then
    l.property? fun c => (readQuoted? '"' c).map fun (text, c) =>
      (.scalar .doubleQuoted (String.ofList text), c)
  else if l.beginsPlain then l.plainScalar?
  else none

/-- Read tokens up to the end of the text. Every token but the last consumes a character. -/
def run? (fuel : Nat) (l : Lexer) : Option Lexer :=
  match fuel with
  | 0 => none
  | fuel + 1 => do
    let l ← (l.skipSpace (l.cursor.left + 1)).dropStale?
    let l := l.unroll l.cursor.column
    if l.cursor.atEnd then l.finish? else run? fuel (← l.next?)

end Lexer

/-- The tokens of a text; none when the text breaks a rule. -/
def tokens? (text : String) : Option (List Token) :=
  let cs := text.toList
  if cs.all isAllowed then ((Lexer.start cs).run? (cs.length + 1)).map (·.tokens.reverse) else none

end SchemaShaper.Yaml

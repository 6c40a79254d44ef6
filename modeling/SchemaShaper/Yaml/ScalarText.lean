import SchemaShaper.Json.Parser
import SchemaShaper.Yaml.Cursor

/-!
# Texts of scalars

How the text of a quoted, plain or block scalar is read. Line breaks inside quoted and plain scalars
are folded: one break is a space, and of more breaks the first is dropped. `fuel` bounds the rounds
of each loop; every round moves the cursor forward.
-/

namespace SchemaShaper.Yaml

/-- The blanks and breaks between two parts of a scalar: the blanks before any break, the first
break, and the further ones. -/
structure Gap where
  blanks : List Char
  first : List Char
  more : List Char
  broken : Bool

namespace Gap

/-- No blank and no break. -/
def empty : Gap := { blanks := [], first := [], more := [], broken := false }

/-- What a gap reads as inside a scalar. -/
def text (g : Gap) : List Char :=
  if g.broken then
    if g.first.head? == some '\n' then if g.more.isEmpty then [' '] else g.more
    else g.first ++ g.more
  else g.blanks

/-- Read a gap on from what is read of it. A tab left of the column `margin` on a line of its own is
refused. -/
def readFrom? (margin : Int) (g : Gap) (fuel : Nat) (c : Cursor) : Option (Gap × Cursor) :=
  match fuel with
  | 0 => some (g, c)
  | fuel + 1 =>
    match c.rest with
    | [] => some (g, c)
    | x :: _ =>
      if isGap x then
        if g.broken then
          if x == '\t' && (c.column : Int) < margin then none else readFrom? margin g fuel c.step
        else readFrom? margin { g with blanks := g.blanks ++ [x] } fuel c.step
      else if isBreak x then
        let (br, c) := c.takeBreak
        if g.broken then readFrom? margin { g with more := g.more ++ br } fuel c
        else readFrom? margin { g with blanks := [], first := br, broken := true } fuel c
      else some (g, c)

/-- Read the gap ahead. `broken` says that a line break stands before it already. -/
def read? (margin : Int) (broken : Bool) (c : Cursor) : Option (Gap × Cursor) :=
  readFrom? margin { empty with broken } c.left c

end Gap

/-- The character that an escape of one letter writes in a double-quoted scalar. -/
def escapeChar? : Char → Option Char
  | '0' => some '\x00'
  | 'a' => some '\x07'
  | 'b' => some '\x08'
  | 't' | '\t' => some '\t'
  | 'n' => some '\n'
  | 'v' => some '\x0b'
  | 'f' => some '\x0c'
  | 'r' => some '\r'
  | 'e' => some '\x1b'
  | ' ' => some ' '
  | '"' => some '"'
  | '/' => some '/'
  | '\\' => some '\\'
  | 'N' => some '\u0085'
  | '_' => some '\u00a0'
  | 'L' => some '\u2028'
  | 'P' => some '\u2029'
  | _ => none

/-- The number of hexadecimal digits behind an escape letter. -/
def escapeWidth? : Char → Option Nat
  | 'x' => some 2
  | 'u' => some 4
  | 'U' => some 8
  | _ => none

/-- The character that hexadecimal digits write. -/
def hexChar? (cs : List Char) : Option Char := do
  let n ← cs.foldlM (fun n c => do return n * 16 + (← Json.hexValue? c)) 0
  if n ≤ 0x10FFFF ∧ ¬ (0xD800 ≤ n ∧ n ≤ 0xDFFF) then some (Char.ofNat n) else none

/-- The escape behind a backslash: its character and its length. -/
def escape? : List Char → Option (Char × Nat)
  | [] => none
  | e :: cs =>
    match escapeWidth? e with
    | some n =>
      if (cs.take n).length == n then (hexChar? (cs.take n)).map (·, n + 1) else none
    | none => (escapeChar? e).map (·, 1)

/-- The part of a quoted scalar up to the next blank, break or closing quote. The answer also says
whether it ended with an escaped line break. -/
def quotedPart? (quote : Char) (fuel : Nat) (c : Cursor) : Option (List Char × Bool × Cursor) :=
  match fuel with
  | 0 => some ([], false, c)
  | fuel + 1 =>
    match c.rest with
    | [] => some ([], false, c)
    | x :: cs =>
      if isGap x || isBreak x then some ([], false, c)
      else if x == quote then
        if quote == '\'' && cs.head? == some '\'' then do
          let (part, broken, c) ← quotedPart? quote fuel (c.forward 2)
          return ('\'' :: part, broken, c)
        else some ([], false, c)
      else if x == '\\' && quote == '"' then
        if (cs.head?.map isBreak).getD false then some ([], true, c.step.skipBreak)
        else do
          let (e, n) ← escape? cs
          let (part, broken, c) ← quotedPart? quote fuel (c.forward (n + 1))
          return (e :: part, broken, c)
      else do
        let (part, broken, c) ← quotedPart? quote fuel c.step
        return (x :: part, broken, c)

/-- The rest of a quoted scalar, and the place behind its closing quote. -/
def quotedRest? (quote : Char) (fuel : Nat) (c : Cursor) : Option (List Char × Cursor) :=
  match fuel with
  | 0 => none
  | fuel + 1 => do
    if c.atDocumentMark || c.atEnd then none else
    let (part, broken, c) ← quotedPart? quote c.left c
    if c.sees quote then some (part, c.step)
    else
      let (gap, c) ← Gap.read? 0 broken c
      let (rest, c) ← quotedRest? quote fuel c
      return (part ++ gap.text ++ rest, c)

/-- The quoted scalar ahead. -/
def readQuoted? (quote : Char) (c : Cursor) : Option (List Char × Cursor) :=
  quotedRest? quote c.left c.step

/-- Does the character stand for a part of a flow collection? -/
def isFlowMark (c : Char) : Bool := c == ',' || c == '[' || c == ']' || c == '{' || c == '}'

/-- The part of a plain scalar up to the next blank, break or mark that ends it. In a flow
collection, `:` in front of a mark is refused. -/
def plainPart? (flow : Bool) (fuel : Nat) (c : Cursor) : Option (List Char × Cursor) :=
  match fuel with
  | 0 => some ([], c)
  | fuel + 1 =>
    match c.rest with
    | [] => some ([], c)
    | x :: _ =>
      if isGap x || isBreak x then some ([], c)
      else if flow && x == ':' && c.holds 1 (fun y => isFlowMark y || y == '?') then none
      else if (x == ':' && c.endsWord 1) || (flow && isFlowMark x) then some ([], c)
      else do
        let (part, c) ← plainPart? flow fuel c.step
        return (x :: part, c)

/-- A plain scalar from one of its parts on, with the gap before that part. The answer also says
whether a line break follows the scalar. -/
def plainRest? (flow : Bool) (margin : Int) (gap : Gap) (fuel : Nat) (c : Cursor) :
    Option (List Char × Bool × Cursor) :=
  match fuel with
  | 0 => some ([], gap.broken, c)
  | fuel + 1 => do
    if c.atDocumentMark || c.sees '#' then some ([], gap.broken, c) else
    let (part, c) ← plainPart? flow c.left c
    let text := if part.isEmpty then [] else gap.text ++ part
    let pending := if part.isEmpty then gap else Gap.empty
    if !c.holds 0 (fun x => isGap x || isBreak x) then some (text, pending.broken, c)
    else
      let (next, c) ← Gap.readFrom? margin pending c.left c
      if !flow && (c.column : Int) < margin then some (text, next.broken, c)
      else
        let (rest, broken, c) ← plainRest? flow margin next fuel c
        return (text ++ rest, broken, c)

/-- The plain scalar ahead, where lines that begin left of the column `margin` do not belong to
it. -/
def readPlain? (flow : Bool) (margin : Int) (c : Cursor) : Option (List Char × Bool × Cursor) :=
  plainRest? flow margin Gap.empty (c.left + 1) c

/-- What happens to the line breaks at the end of a block scalar. -/
inductive Chomping where
  | strip
  | clip
  | keep
  deriving DecidableEq, Repr

/-- The header of a block scalar behind its first character: the chomping and the indentation that
it gives, 0 if none. -/
def readHeader? (c : Cursor) : Option (Chomping × Nat × Cursor) :=
  let sign? (c : Cursor) : Option Chomping :=
    if c.sees '+' then some .keep else if c.sees '-' then some .strip else none
  let digit? (c : Cursor) : Option Nat :=
    match c.rest with
    | x :: _ => if x.isDigit then some (x.toNat - '0'.toNat) else none
    | [] => none
  match sign? c with
  | some chomping =>
    let c := c.step
    match digit? c with
    | some 0 => none
    | some n => some (chomping, n, c.step)
    | none => some (chomping, 0, c)
  | none =>
    match digit? c with
    | some 0 => none
    | some n =>
      let c := c.step
      match sign? c with
      | some chomping => some (chomping, n, c.step)
      | none => some (.clip, n, c)
    | none => some (.clip, 0, c)

/-- The line breaks and indentation before the next line that is not empty. An `indent` of 0 is not
known yet; then the answer holds the deepest indentation met. -/
def readIndents? (indent deepest : Nat) (fuel : Nat) (c : Cursor) :
    Option (List Char × Nat × Cursor) :=
  match fuel with
  | 0 => some ([], deepest, c)
  | fuel + 1 =>
    let spaces := (c.rest.takeWhile (· == ' ')).length
    let c := c.forward (if indent == 0 then spaces else min spaces (indent - c.column))
    let deepest := max deepest c.column
    if (indent == 0 || c.column < indent) && c.sees '\t' then none
    else if c.holds 0 isBreak then do
      let (br, c) := c.takeBreak
      let (breaks, deepest, c) ← readIndents? indent deepest fuel c
      return (br ++ breaks, deepest, c)
    else some ([], deepest, c)

/-- The lines of a block scalar from one of them on. `first` and `more` are the line breaks before
it, and `afterBlank` says that the line before it began with a blank. -/
def blockLines? (folded : Bool) (chomping : Chomping) (indent : Nat) (first more : List Char)
    (afterBlank : Bool) (fuel : Nat) (c : Cursor) : Option (List Char × Cursor) :=
  let tail := (if chomping == .strip then [] else first) ++ (if chomping == .keep then more else [])
  match fuel with
  | 0 => some (tail, c)
  | fuel + 1 =>
    if c.column == indent && !c.atEnd then do
      let blank := c.holds 0 isGap
      let joint :=
        if folded && first.head? == some '\n' && !afterBlank && !blank then
          if more.isEmpty then [' '] else []
        else first
      let (line, c) := c.take (!isBreak ·)
      let (br, c) := c.takeBreak
      let (breaks, _, c) ← readIndents? indent 0 (c.left + 1) c
      let (rest, c) ← blockLines? folded chomping indent br breaks blank fuel c
      return (joint ++ more ++ line ++ rest, c)
    else some (tail, c)

/-- The block scalar ahead, inside a collection of the indentation `parent`. -/
def readBlock? (folded : Bool) (parent : Int) (c : Cursor) : Option (List Char × Cursor) := do
  let (chomping, given, c) ← readHeader? c.step
  let c := (c.skip isGap).skipComment
  if !c.endsLine then none else
  let c := c.skipBreak
  let indent := if given == 0 then 0 else (max parent 0).toNat + given
  let (breaks, deepest, c) ← readIndents? indent 0 (c.left + 1) c
  let indent := if indent == 0 then max deepest (max (parent + 1) 1).toNat else indent
  blockLines? folded chomping indent [] breaks false (c.left + 1) c

end SchemaShaper.Yaml

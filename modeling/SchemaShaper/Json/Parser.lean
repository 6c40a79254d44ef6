import SchemaShaper.Json.Basic

/-!
# Reading JSON

A recursive descent over the characters of the text. `fuel` bounds the depth of the recursion; every
step of it consumes a character, so the length of the text is enough. Blanks are the space, the tab,
the line feed and the carriage return.
-/

namespace SchemaShaper.Json

/-- Is the character ignored between tokens? -/
def isSpace (c : Char) : Bool := c == ' ' || c == '\n' || c == '\t' || c == '\r'

/-- Drop the blanks at the front. -/
def skipSpace (cs : List Char) : List Char := cs.dropWhile isSpace

/-- A run of digits at the front, and what follows it. -/
def spanDigits (cs : List Char) : List Char × List Char := cs.span Char.isDigit

/-- The whole part of a number: a zero, or digits that do not begin with one. -/
def readWhole? : List Char → Option (List Char × List Char)
  | '0' :: cs => if (cs.head?.map Char.isDigit).getD false then none else some (['0'], cs)
  | cs =>
    match spanDigits cs with
    | ([], _) => none
    | (ds, rest) => some (ds, rest)

/-- The fraction of a number, with its point; nothing where no point stands. -/
def readFraction? : List Char → Option (List Char × List Char)
  | '.' :: cs =>
    match spanDigits cs with
    | ([], _) => none
    | (ds, rest) => some ('.' :: ds, rest)
  | cs => some ([], cs)

/-- The exponent of a number, with its mark; nothing where no mark stands. -/
def readExponent? : List Char → Option (List Char × List Char)
  | c :: cs =>
    if c == 'e' || c == 'E' then
      let (sign, cs) := match cs with
        | '+' :: cs => (['+'], cs)
        | '-' :: cs => (['-'], cs)
        | cs => ([], cs)
      match spanDigits cs with
      | ([], _) => none
      | (ds, rest) => some (c :: sign ++ ds, rest)
    else some ([], c :: cs)
  | [] => some ([], [])

/-- A number literal at the front. -/
def readNumber? (cs : List Char) : Option (Json × List Char) := do
  let (sign, cs) := match cs with
    | '-' :: cs => (['-'], cs)
    | cs => ([], cs)
  let (whole, cs) ← readWhole? cs
  let (fraction, cs) ← readFraction? cs
  let (exponent, cs) ← readExponent? cs
  return (number (String.ofList (sign ++ whole ++ fraction ++ exponent)), cs)

/-- The value of a hexadecimal digit. -/
def hexValue? (c : Char) : Option Nat :=
  if c.isDigit then some (c.toNat - '0'.toNat)
  else if 'a' ≤ c ∧ c ≤ 'f' then some (c.toNat - 'a'.toNat + 10)
  else if 'A' ≤ c ∧ c ≤ 'F' then some (c.toNat - 'A'.toNat + 10)
  else none

/-- The number that four hexadecimal digits write. -/
def hexUnit? (a b c d : Char) : Option Nat := do
  return (((← hexValue? a) * 16 + (← hexValue? b)) * 16 + (← hexValue? c)) * 16 + (← hexValue? d)

/-- A piece of a text: a character that stands for itself, or a 16-bit unit of an escape. -/
inductive Piece where
  | char (c : Char)
  | unit (n : Nat)
  deriving DecidableEq, Repr

/-- The character of an escape of one letter. -/
def escaped? : Char → Option Char
  | '"' => some '"'
  | '\\' => some '\\'
  | '/' => some '/'
  | 'b' => some '\x08'
  | 'f' => some '\x0c'
  | 'n' => some '\n'
  | 'r' => some '\r'
  | 't' => some '\t'
  | _ => none

/-- The pieces of a text behind its opening quote, and what follows its closing one. -/
def readPieces? : List Char → Option (List Piece × List Char)
  | '"' :: cs => some ([], cs)
  | '\\' :: 'u' :: a :: b :: c :: d :: cs => do
    let n ← hexUnit? a b c d
    let (pieces, rest) ← readPieces? cs
    return (.unit n :: pieces, rest)
  | '\\' :: c :: cs => do
    let c ← escaped? c
    let (pieces, rest) ← readPieces? cs
    return (.char c :: pieces, rest)
  | c :: cs =>
    if c.toNat < 0x20 then none
    else do
      let (pieces, rest) ← readPieces? cs
      return (.char c :: pieces, rest)
  | [] => none

/-- The characters that pieces make up. Two halves of a surrogate pair are one character; a half
without its partner makes no text. -/
def assemble? : List Piece → Option (List Char)
  | [] => some []
  | .char c :: rest => (assemble? rest).map (c :: ·)
  | .unit n :: rest =>
    if n < 0xD800 ∨ 0xDFFF < n then (assemble? rest).map (Char.ofNat n :: ·)
    else if n < 0xDC00 then
      match rest with
      | .unit k :: rest =>
        if 0xDC00 ≤ k ∧ k ≤ 0xDFFF then
          (assemble? rest).map (Char.ofNat (0x10000 + (n - 0xD800) * 0x400 + (k - 0xDC00)) :: ·)
        else none
      | _ => none
    else none

/-- A text behind its opening quote. -/
def readText? (cs : List Char) : Option (Option String × List Char) :=
  (readPieces? cs).map fun (pieces, rest) => ((assemble? pieces).map String.ofList, rest)

/-- What follows a fixed word at the front. -/
def afterWord? (word : String) (cs : List Char) : Option (List Char) :=
  if word.toList.isPrefixOf cs then some (cs.drop word.length) else none

mutual

/-- A value, after blanks. -/
def readValue? (fuel : Nat) (cs : List Char) : Option (Json × List Char) :=
  match fuel with
  | 0 => none
  | fuel + 1 =>
    match skipSpace cs with
    | [] => none
    | c :: cs =>
      if c == 'n' then (afterWord? "ull" cs).map (null, ·)
      else if c == 't' then (afterWord? "rue" cs).map (bool true, ·)
      else if c == 'f' then (afterWord? "alse" cs).map (bool false, ·)
      else if c == '"' then (readText? cs).map fun (s, rest) => (text s, rest)
      else if c == '[' then
        match skipSpace cs with
        | ']' :: rest => some (array [], rest)
        | cs => (readItems? fuel cs).map fun (items, rest) => (array items, rest)
      else if c == '{' then
        match skipSpace cs with
        | '}' :: rest => some (object [], rest)
        | cs => (readMembers? fuel cs).map fun (members, rest) => (object members, rest)
      else readNumber? (c :: cs)

/-- The items of an array from one of them on, up to the closing bracket. -/
def readItems? (fuel : Nat) (cs : List Char) : Option (List Json × List Char) :=
  match fuel with
  | 0 => none
  | fuel + 1 => do
    let (item, cs) ← readValue? fuel cs
    match skipSpace cs with
    | ']' :: rest => some ([item], rest)
    | ',' :: cs => do
      let (items, rest) ← readItems? fuel cs
      return (item :: items, rest)
    | _ => none

/-- The members of an object from one of them on, up to the closing brace. -/
def readMembers? (fuel : Nat) (cs : List Char) :
    Option (List (Option String × Json) × List Char) :=
  match fuel with
  | 0 => none
  | fuel + 1 =>
    match skipSpace cs with
    | '"' :: cs => do
      let (name, cs) ← readText? cs
      match skipSpace cs with
      | ':' :: cs => do
        let (value, cs) ← readValue? fuel cs
        match skipSpace cs with
        | '}' :: rest => some ([(name, value)], rest)
        | ',' :: cs => do
          let (members, rest) ← readMembers? fuel cs
          return ((name, value) :: members, rest)
        | _ => none
      | _ => none
    | _ => none

end

/-- Read a text that holds one JSON value. -/
def parse? (s : String) : Option Json :=
  match readValue? (s.length + 1) s.toList with
  | some (value, rest) => if (skipSpace rest).isEmpty then some value else none
  | none => none

end SchemaShaper.Json

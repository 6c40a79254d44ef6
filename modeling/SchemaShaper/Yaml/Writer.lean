import SchemaShaper.Yaml.Style

/-!
# Writing YAML text

The text written so far, and what of its end matters for what comes next: the column, whether it
ends with space, and whether only indentation and indicators stand on its last line.
-/

namespace SchemaShaper.Yaml

/-- The text written so far. -/
structure Writer where
  text : String
  column : Nat
  spaced : Bool
  indented : Bool

namespace Writer

/-- Nothing written. -/
def empty : Writer := { text := "", column := 0, spaced := true, indented := true }

/-- Write a character of a line. -/
def put (w : Writer) (c : Char) : Writer :=
  { w with text := w.text.push c, column := w.column + 1 }

/-- Write characters of a line. -/
def puts (w : Writer) (cs : List Char) : Writer := cs.foldl put w

/-- Write a line break. -/
def lineBreak (w : Writer) (c : Char) : Writer := { w with text := w.text.push c, column := 0 }

/-- Write a space unless the text ends with one. -/
def space (w : Writer) : Writer := if w.spaced then w else w.put ' '

/-- Go to a column, on a new line unless only indentation and indicators stand before it. -/
def indentTo (w : Writer) (column : Nat) : Writer :=
  let w := if !w.indented || w.column > column || (w.column == column && !w.spaced) then
    w.lineBreak '\n' else w
  let w := w.puts (List.replicate (column - w.column) ' ')
  { w with spaced := true, indented := true }

/-- Write characters after which neither space nor indentation is left. -/
def solid (w : Writer) (cs : List Char) : Writer :=
  { w.puts cs with spaced := false, indented := false }

/-- Write an indicator such as `-`, behind which a nested collection may go on on the line. -/
def indicator (w : Writer) (c : Char) : Writer := { w.space.put c with spaced := false }

/-- An uppercase hexadecimal digit. -/
def hexDigit (n : Nat) : Char := Char.ofNat (if n < 10 then '0'.toNat + n else 'A'.toNat + n - 10)

/-- A number in uppercase hexadecimal digits, `count` of them. -/
def hex (n : Nat) : Nat → List Char
  | 0 => []
  | count + 1 => hexDigit (n / Nat.pow 16 count % 16) :: hex n count

/-- A character in double quotes. -/
def escape (c : Char) : List Char :=
  if isPrintable c && !isBreak c && c != '"' && c != '\\' then [c]
  else
    '\\' :: match c with
      | '\x00' => ['0']
      | '\x07' => ['a']
      | '\x08' => ['b']
      | '\t' => ['t']
      | '\n' => ['n']
      | '\x0b' => ['v']
      | '\x0c' => ['f']
      | '\r' => ['r']
      | '\x1b' => ['e']
      | '"' => ['"']
      | '\\' => ['\\']
      | '\u0085' => ['N']
      | '\u2028' => ['L']
      | '\u2029' => ['P']
      | c =>
        if c.toNat ≤ 0xFF then 'x' :: hex c.toNat 2 else 'u' :: hex c.toNat 4

/-- Write the characters of a scalar in single quotes, where a line break is followed by
indentation. -/
def quotedChars (column : Nat) (afterBreak : Bool) (w : Writer) : List Char → Writer
  | [] => if afterBreak then w.indentTo column else w
  | c :: cs =>
    if isBreak c then quotedChars column true { w.lineBreak c with indented := true } cs
    else
      let w := if afterBreak then w.indentTo column else w
      let w := if c == '\'' then w.put '\'' else w
      quotedChars column false { w.put c with indented := w.indented && c == ' ' } cs

/-- Write a scalar in single quotes. -/
def singleQuoted (w : Writer) (column : Nat) (cs : List Char) : Writer :=
  (quotedChars column false (w.space.solid ['\'']) cs).solid ['\'']

/-- Write a scalar in double quotes. -/
def doubleQuoted (w : Writer) (cs : List Char) : Writer :=
  w.space.solid ('"' :: cs.flatMap escape ++ ['"'])

/-- Write the lines of a literal scalar. -/
def literalChars (column : Nat) (afterBreak : Bool) (w : Writer) : List Char → Writer
  | [] => w
  | c :: cs =>
    if isBreak c then literalChars column true { w.lineBreak c with indented := true } cs
    else
      let w := if afterBreak then w.indentTo column else w
      literalChars column false { w.put c with indented := false } cs

/-- The signs behind `|`: the width of the indentation where the text does not show it, and what
becomes of the breaks at the end. -/
def literalHints (cs : List Char) : List Char :=
  let width := if (cs.head?.map fun c => c == ' ' || isBreak c).getD false then ['2'] else []
  let chomping := match cs.reverse with
    | [] => ['-']
    | [c] => if isBreak c then ['+'] else ['-']
    | c :: d :: _ => if !isBreak c then ['-'] else if isBreak d then ['+'] else []
  width ++ chomping

/-- Write a literal scalar. -/
def literal (w : Writer) (column : Nat) (cs : List Char) : Writer :=
  let w := (w.space.puts ('|' :: literalHints cs)).lineBreak '\n'
  literalChars column true { w with spaced := true, indented := true } cs

/-- Write a scalar, whose further lines begin at a column. -/
def scalar (w : Writer) (column : Nat) (style : Style) (cs : List Char) : Writer :=
  match chooseStyle style cs with
  | .plain => w.space.solid cs
  | .singleQuoted => w.singleQuoted column cs
  | .literal => w.literal column cs
  | _ => w.doubleQuoted cs

/-- A character of a tag; what may not stand there is written as escaped bytes. -/
def tagChar (c : Char) : List Char :=
  if c.isAlphanum || "-;/?:@&=+$,_.~*'()[]".toList.contains c then [c]
  else c.toString.toUTF8.toList.flatMap fun b => '%' :: hex b.toNat 2

/-- The tag of a name as it is written: behind one `!`, and no further than the first U+0000. -/
def tagText (name : String) : List Char :=
  let cs := name.toList
  (if cs.head? == some '!' then cs else '!' :: cs).takeWhile (· != '\x00')

/-- Write a tag. Behind its `!` nothing stands as it is that may not stand there, and the tag `!`
needs brackets. -/
def tag (w : Writer) (name : String) : Writer :=
  w.space.solid ('!' :: match tagText name with
    | ['!'] => '<' :: tagChar '!' ++ ['>']
    | cs => (cs.drop 1).flatMap tagChar)

end Writer

end SchemaShaper.Yaml

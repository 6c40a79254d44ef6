import SchemaShaper.Yaml.Writer

/-!
# The YAML form of a value

Collections are written as blocks, two columns per level, and only empty ones in brackets. A
sequence that is the value of a key stands at the column of the key. A key of one line and at most
128 bytes stands before its `:`; any other key is marked by `?`.

A tag directly under a tag has no form, and neither has a mapping of one entry whose key is under a
tag or is such a mapping itself, unless that mapping is directly under a tag.
-/

namespace SchemaShaper

/-- The layout of floats. -/
def Yaml.floatLayout : Decimal.FloatLayout :=
  { exponentPlus := "", greatestPlain := 15, leastPlain := -5 }

/-- The text of a number in YAML. -/
def Number.yamlText : Number → String
  | whole n => Decimal.text n
  | float x =>
    if x.isNaN then ".nan"
    else if x.isInfinite then if x.isNegative then "-.inf" else ".inf"
    else Yaml.floatLayout.text x

namespace Value

/-- Is the value under a tag, or a mapping of one entry? -/
def mayBeTag : Value → Bool
  | tagged .. => true
  | mapping [_] => true
  | _ => false

mutual

/-- Has the value a YAML form, directly under a tag or not? -/
def isWritable (underTag : Bool) : Value → Bool
  | tagged _ v => !underTag && v.isWritable true
  | sequence items => itemsWritable items
  | mapping [(k, v)] =>
    (underTag || !k.mayBeTag) && k.isWritable false && v.isWritable false
  | mapping entries => entriesWritable entries
  | _ => true

/-- Have all items a YAML form? -/
def itemsWritable : List Value → Bool
  | [] => true
  | v :: vs => v.isWritable false && itemsWritable vs

/-- Have all entries a YAML form? -/
def entriesWritable : List (Value × Value) → Bool
  | [] => true
  | (k, v) :: rest => k.isWritable false && v.isWritable false && entriesWritable rest

end

/-- The style that a scalar asks for and its text; none for a collection. -/
def scalarForm? : Value → Option (Yaml.Style × String)
  | null => some (.plain, "null")
  | bool b => some (.plain, if b then "true" else "false")
  | number n => some (.plain, n.yamlText)
  | text s => some (Yaml.wantedStyle s, s)
  | _ => none

/-- The most bytes of a key before its `:`. -/
def maxKeyBytes : Nat := 128

/-- The number of bytes of a key that fits on one line; none for any other key. A tag counts with
the bytes of its characters, before any is escaped. -/
def keyBytes? : Value → Option Nat
  | tagged tag v => (keyBytes? v).map (· + (String.ofList (Yaml.Writer.tagText tag)).utf8ByteSize)
  | sequence [] | mapping [] => some 0
  | v =>
    match v.scalarForm? with
    | some (_, s) => if s.toList.any Yaml.isBreak then none else some s.utf8ByteSize
    | none => none

/-- Does the key stand before its `:`? -/
def isSimpleKey (k : Value) : Bool :=
  match k.keyBytes? with
  | some n => n ≤ maxKeyBytes
  | none => false

/-- The column of the parts of a block inside one at `column`, which is none around the whole
text. -/
def nested (column : Option Nat) : Nat :=
  match column with
  | none => 0
  | some n => n + 2

/-- The column of the further lines of a scalar. -/
def scalarColumn (column : Option Nat) : Nat := (column.getD 0) + 2

mutual

/-- Write a value inside a block at `column`; `asPart` says that it is a key or a value of a
mapping. -/
def write (column : Option Nat) (asPart : Bool) (v : Value) (w : Yaml.Writer) : Yaml.Writer :=
  match v with
  | tagged tag v => v.write column asPart (w.tag tag)
  | sequence [] => (w.space.puts ['[']).solid [']']
  | mapping [] => (w.space.puts ['{']).solid ['}']
  | sequence items =>
    let aligned := asPart && !w.indented
    writeItems (if aligned then column.getD 0 else nested column) items w
  | mapping entries => writeEntries (nested column) entries w
  | v =>
    match v.scalarForm? with
    | some (style, s) => w.scalar (scalarColumn column) style s.toList
    | none => w

/-- Write the items of a block sequence. -/
def writeItems (column : Nat) (items : List Value) (w : Yaml.Writer) : Yaml.Writer :=
  match items with
  | [] => w
  | v :: vs =>
    writeItems column vs (v.write (some column) false ((w.indentTo column).indicator '-'))

/-- Write the entries of a block mapping. -/
def writeEntries (column : Nat) (entries : List (Value × Value)) (w : Yaml.Writer) :
    Yaml.Writer :=
  match entries with
  | [] => w
  | (k, v) :: rest =>
    let w := w.indentTo column
    let w :=
      if k.isSimpleKey then (k.write (some column) true w).solid [':']
      else
        let w := k.write (some column) true (w.indicator '?')
        (w.indentTo column).indicator ':'
    writeEntries column rest (v.write (some column) true w)

end

/-- The YAML text of a value; none when it has no YAML form. -/
def toYaml? (v : Value) : Option String :=
  if v.isWritable false then some ((v.write none false .empty).indentTo 0).text else none

end Value

end SchemaShaper

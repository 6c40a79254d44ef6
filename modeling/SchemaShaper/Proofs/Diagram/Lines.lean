import SchemaShaper.Proofs.Diagram.TypeTokens

/-!
# What the text of a diagram says

A diagram says its direction, the entities with their attributes, and the relationships. Where all
names are words, the text says nothing less: documents have the same text exactly if all of that is
the same (`draw_eq_draw_iff`).

The text is read line by line. Behind its indentation each line is a word, which may be empty, and a
rest that begins with no letter; the first two characters of the rest tell the four kinds of lines
apart, whatever stands in a type (`Line.text_injective`). The lines of an entity end with a closing
line and no other line of it is one, so the lines in turn give the entities and the relationships
(`blocks_injective`).
-/

namespace SchemaShaper

namespace Diagram

/-! ## Lines -/

/-- What an entity says about a column. -/
@[ext]
structure Attribute where
  type : String
  name : String
  primary : Bool
  deriving DecidableEq, Repr

/-- What a diagram says about a table. -/
@[ext]
structure Entity where
  name : String
  attributes : List Attribute
  deriving DecidableEq, Repr

/-- What a diagram says about a foreign key. -/
@[ext]
structure Relationship where
  table : String
  target : String
  sources : List String
  targets : List String
  deriving DecidableEq, Repr

/-- A line below the header. -/
inductive Line where
  | opening (name : String)
  | column (a : Attribute)
  | closing
  | relationship (r : Relationship)

/-- The lines of an entity. -/
def Entity.lines (e : Entity) : List Line :=
  .opening e.name :: (e.attributes.map .column ++ [.closing])

/-- The lines of entities and of relationships. -/
def blocks (entities : List Entity) (relationships : List Relationship) : List Line :=
  entities.flatMap Entity.lines ++ relationships.map .relationship

/-- The text of a line. -/
def Line.text : Line → String
  | opening name => "    " ++ name ++ " \x7b"
  | column a => "        " ++ a.type ++ " " ++ a.name ++ if a.primary then " PK" else ""
  | closing => "    \x7d"
  | relationship r =>
    "    " ++ r.table ++ " \x7do--|| " ++ r.target ++ " : \"" ++ Text.joinWith ", " r.sources
      ++ " -> " ++ Text.joinWith ", " r.targets ++ "\""

end Diagram

/-- What is drawn of a column of the table. -/
def Table.attributeOf (t : Table) (c : Column) : Diagram.Attribute :=
  ⟨Diagram.typeToken c.type, c.name, t.primaryColumns.contains c.name⟩

/-- What is drawn of the table. -/
def Table.entity (t : Table) : Diagram.Entity := ⟨t.name, t.columns.map t.attributeOf⟩

/-- What is drawn of the foreign keys of the table. -/
def Table.relationships (t : Table) : List Diagram.Relationship :=
  t.keys.map fun k => ⟨t.name, k.targetTable, k.sourceColumns, k.targetColumns⟩

/-- What is drawn of the tables. -/
def Document.entities (d : Document) : List Diagram.Entity := d.tables.map Table.entity

/-- What is drawn of the foreign keys. -/
def Document.relationships (d : Document) : List Diagram.Relationship :=
  d.tables.flatMap Table.relationships

namespace Diagram

theorem entityLines_eq_map (direction : Direction) (t : Table) :
    entityLines ⟨direction, []⟩ t = t.entity.lines.map Line.text := by
  have hcolumns : t.columns.map (columnLine ⟨direction, []⟩ t.primaryColumns) =
      ((t.columns.map t.attributeOf).map Line.column).map Line.text := by
    rw [List.map_map, List.map_map]
    rfl
  rw [Entity.lines, List.map_cons, List.map_append, Table.entity, ← hcolumns]
  rfl

theorem keyLines_eq_map (t : Table) :
    t.keys.map (keyLine t) = (t.relationships.map Line.relationship).map Line.text := by
  rw [Table.relationships, List.map_map, List.map_map]
  rfl

theorem lines_eq_blocks (direction : Direction) (d : Document) :
    lines ⟨direction, []⟩ d = "erDiagram" :: ("    direction " ++ direction.name) ::
      (blocks d.entities d.relationships).map Line.text := by
  have hentities : d.tables.flatMap (entityLines ⟨direction, []⟩) =
      (d.entities.flatMap Entity.lines).map Line.text := by
    rw [Document.entities, List.flatMap_map, List.map_flatMap]
    exact List.flatMap_congr fun t _ => entityLines_eq_map direction t
  have hkeys : d.tables.flatMap (fun t => t.keys.map (keyLine t)) =
      (d.relationships.map Line.relationship).map Line.text := by
    rw [Document.relationships, List.map_flatMap, List.map_flatMap]
    exact List.flatMap_congr fun t _ => keyLines_eq_map t
  rw [blocks, List.map_append, ← hentities, ← hkeys]
  rfl

/-! ## Names that are words -/

/-- Is the character an ASCII letter, an ASCII digit or an underscore? -/
def isNameChar (c : Char) : Bool := c.isAlphanum || c == '_'

/-- The name is a word of ASCII letters, digits and underscores. -/
structure IsWord (name : String) : Prop where
  ne_empty : name ≠ ""
  chars : ∀ c ∈ name.toList, isNameChar c = true

instance (name : String) : Decidable (IsWord name) :=
  decidable_of_iff (name ≠ "" ∧ name.toList.all isNameChar = true)
    ⟨fun h => ⟨h.1, List.all_eq_true.1 h.2⟩, fun h => ⟨h.ne_empty, List.all_eq_true.2 h.chars⟩⟩

theorem IsWord.not_mem {name : String} (h : IsWord name) {c : Char} (hc : isNameChar c = false) :
    c ∉ name.toList := by
  intro hmem
  rw [h.chars c hmem] at hc
  cases hc

/-- The names are words and the types are tokens. -/
def Line.Plain : Line → Prop
  | opening name => IsWord name
  | column a => IsToken a.type ∧ IsWord a.name
  | closing => True
  | relationship r =>
    IsWord r.table ∧ IsWord r.target ∧ ∀ name ∈ r.sources ++ r.targets, IsWord name

/-- The characters of names with a comma and a space between neighbours. -/
def listed (names : List String) : List Char := [',', ' '].intercalate (names.map String.toList)

theorem listed_cons (name : String) (names : List String) :
    listed (name :: names) = name.toList ++ names.flatMap fun n => ',' :: ' ' :: n.toList := by
  rw [listed, List.map_cons, Text.intercalate_cons_eq_flatMap, List.flatMap_map]
  rfl

theorem mem_listed {names : List String} (h : ∀ name ∈ names, IsWord name) {c : Char}
    (hc : c ∈ listed names) : c = ',' ∨ c = ' ' ∨ isNameChar c = true := by
  cases names with
  | nil => exact absurd hc List.not_mem_nil
  | cons name names =>
    obtain ⟨hname, hnames⟩ := List.forall_mem_cons.1 h
    rw [listed_cons, List.mem_append, List.mem_flatMap] at hc
    rcases hc with hc | ⟨n, hn, hc⟩
    · exact Or.inr (Or.inr (hname.chars c hc))
    · simp only [List.mem_cons] at hc
      exact hc.imp_right (Or.imp_right ((hnames n hn).chars c))

theorem append_word_injective {name name' : String} {rest rest' : List Char} (h : IsWord name)
    (h' : IsWord name') (hrest : ∀ c ∈ rest.head?, isNameChar c = false)
    (hrest' : ∀ c ∈ rest'.head?, isNameChar c = false)
    (heq : name.toList ++ rest = name'.toList ++ rest') : name = name' ∧ rest = rest' := by
  obtain ⟨hname, hrest⟩ := Text.append_inj_of_class h.chars h'.chars hrest hrest' heq
  exact ⟨String.toList_inj.1 hname, hrest⟩

theorem head?_flatMap_comma (names : List String) :
    ∀ c ∈ (names.flatMap fun n => ',' :: ' ' :: n.toList).head?, isNameChar c = false := by
  cases names with
  | nil => simp
  | cons name names =>
    simp only [List.flatMap_cons, List.cons_append, List.head?_cons, Option.mem_def,
      Option.some.injEq]
    rintro c rfl
    decide

theorem flatMap_comma_injective {names names' : List String} (h : ∀ name ∈ names, IsWord name)
    (h' : ∀ name ∈ names', IsWord name)
    (heq : (names.flatMap fun n => ',' :: ' ' :: n.toList) =
      names'.flatMap fun n => ',' :: ' ' :: n.toList) : names = names' := by
  induction names generalizing names' with
  | nil =>
    cases names' with
    | nil => rfl
    | cons name' names' => simp at heq
  | cons name names ih =>
    cases names' with
    | nil => simp at heq
    | cons name' names' =>
      obtain ⟨hname, hnames⟩ := List.forall_mem_cons.1 h
      obtain ⟨hname', hnames'⟩ := List.forall_mem_cons.1 h'
      simp only [List.flatMap_cons, List.cons_append, List.cons.injEq, true_and] at heq
      obtain ⟨rfl, hrest⟩ := append_word_injective hname hname' (head?_flatMap_comma names)
        (head?_flatMap_comma names') heq
      rw [ih hnames hnames' hrest]

theorem listed_injective {names names' : List String} (h : ∀ name ∈ names, IsWord name)
    (h' : ∀ name ∈ names', IsWord name) (heq : listed names = listed names') : names = names' := by
  have hne : ∀ {name : String} {names : List String}, IsWord name →
      listed (name :: names) ≠ [] := by
    intro name names hname hnil
    rw [listed_cons, List.append_eq_nil_iff, String.toList_eq_nil_iff] at hnil
    exact hname.ne_empty hnil.1
  match names, names' with
  | [], [] => rfl
  | [], name' :: _ => exact absurd heq.symm (hne (h' name' List.mem_cons_self))
  | name :: _, [] => exact absurd heq (hne (h name List.mem_cons_self))
  | name :: names, name' :: names' =>
    obtain ⟨hname, hnames⟩ := List.forall_mem_cons.1 h
    obtain ⟨hname', hnames'⟩ := List.forall_mem_cons.1 h'
    rw [listed_cons, listed_cons] at heq
    obtain ⟨rfl, hrest⟩ := append_word_injective hname hname' (head?_flatMap_comma names)
      (head?_flatMap_comma names') heq
    rw [flatMap_comma_injective hnames hnames' hrest]

/-! ## Lines in their parts -/

namespace Line

/-- The word that a line begins with behind its indentation. -/
def word : Line → List Char
  | opening name => name.toList
  | relationship r => r.table.toList
  | column _ | closing => []

/-- What stands behind the word. -/
def rest : Line → List Char
  | opening _ => [' ', '\x7b']
  | column a => [' ', ' ', ' ', ' '] ++ (a.type.toList ++ ' ' :: (a.name.toList
      ++ if a.primary then [' ', 'P', 'K'] else []))
  | closing => ['\x7d']
  | relationship r => [' ', '\x7d', 'o', '-', '-', '|', '|', ' '] ++ (r.target.toList
      ++ ([' ', ':', ' ', '"'] ++ (listed r.sources ++ ' ' :: '-' :: '>' :: ' ' ::
        (listed r.targets ++ ['"']))))

theorem toList_text (l : Line) : l.text.toList = [' ', ' ', ' ', ' '] ++ (l.word ++ l.rest) := by
  cases l with
  | opening name => simp [text, word, rest]
  | column a => cases h : a.primary <;> simp [text, word, rest, h]
  | closing => rfl
  | relationship r =>
    simp [text, word, rest, listed, Text.joinWith, String.toList_intercalate]

theorem isNameChar_word {l : Line} (h : l.Plain) : ∀ c ∈ l.word, isNameChar c = true := by
  cases l with
  | opening name => exact h.chars
  | relationship r => exact h.1.chars
  | column a | closing => simp [word]

theorem head?_rest (l : Line) : ∀ c ∈ l.rest.head?, isNameChar c = false := by
  cases l <;> simp [rest, isNameChar]

/-- The rest of a column line says the attribute: a type holds no space, and a name no character
that the mark of a primary column has in front. -/
theorem column_rest_injective {a a' : Attribute} (h : (column a).Plain) (h' : (column a').Plain)
    (heq : (column a).rest = (column a').rest) : a = a' := by
  obtain ⟨htype, hname⟩ := h
  obtain ⟨htype', hname'⟩ := h'
  have hmark : ∀ primary : Bool, ∀ c ∈ (if primary then [' ', 'P', 'K'] else []).head?,
      isNameChar c = false := by
    intro primary c hc
    cases primary with
    | false => cases hc
    | true =>
      cases hc
      decide
  have hspace : ∀ {tail : List Char}, ∀ c ∈ (' ' :: tail).head?, (!Text.isBlank c) = false := by
    rintro tail c ⟨⟩
    decide
  obtain ⟨htypes, hnames⟩ := Text.append_inj_of_class (p := fun c => !Text.isBlank c)
    (fun c hc => by simp [htype.not_blank c hc]) (fun c hc => by simp [htype'.not_blank c hc])
    hspace hspace (List.append_cancel_left heq)
  obtain ⟨hname, hmarks⟩ := append_word_injective hname hname' (hmark a.primary)
    (hmark a'.primary) (List.cons.inj hnames).2
  have hprimary : a.primary = a'.primary := by
    cases hp : a.primary <;> cases hp' : a'.primary <;> simp [hp, hp'] at hmarks ⊢
  exact Attribute.ext (String.toList_inj.1 htypes) hname hprimary

/-- The word and the rest of a relationship line say the relationship: no name holds the dash in
front of the target columns. -/
theorem relationship_injective {r r' : Relationship} (h : (relationship r).Plain)
    (h' : (relationship r').Plain) (hword : (relationship r).word = (relationship r').word)
    (heq : (relationship r).rest = (relationship r').rest) : r = r' := by
  obtain ⟨-, htarget, hlists⟩ := h
  obtain ⟨-, htarget', hlists'⟩ := h'
  rw [List.forall_mem_append] at hlists hlists'
  have hcolon : ∀ {tail : List Char}, ∀ c ∈ ([' ', ':', ' ', '"'] ++ tail).head?,
      isNameChar c = false := by
    simp [isNameChar]
  obtain ⟨htargets, hlabel⟩ := append_word_injective htarget htarget' hcolon hcolon
    (List.append_cancel_left heq)
  have hdash : ∀ {names : List String}, (∀ name ∈ names, IsWord name) →
      ∀ c ∈ listed names ++ [' '], (c != '-') = true := by
    intro names hnames c hc
    rw [bne_iff_ne]
    rintro rfl
    rcases List.mem_append.1 hc with hc | hc
    · rcases mem_listed hnames hc with hc | hc | hc <;> exact absurd hc (by decide)
    · exact absurd hc (by decide)
  have hlabel' := List.append_cancel_left hlabel
  rw [List.append_cons, List.append_cons (listed r'.sources)] at hlabel'
  obtain ⟨hsources, htail⟩ := Text.append_inj_of_class (p := (· != '-')) (hdash hlists.1)
    (hdash hlists'.1) (by simp) (by simp) hlabel'
  have htargetColumns : listed r.targets = listed r'.targets := by simpa using htail
  exact Relationship.ext (String.toList_inj.1 hword) htargets
    (listed_injective hlists.1 hlists'.1 (List.append_cancel_right hsources))
    (listed_injective hlists.2 hlists'.2 htargetColumns)

/-- Plain lines with the same text are the same. -/
theorem text_injective {l l' : Line} (h : l.Plain) (h' : l'.Plain) (heq : l.text = l'.text) :
    l = l' := by
  have hparts := congrArg String.toList heq
  rw [toList_text, toList_text] at hparts
  obtain ⟨hword, hrest⟩ := Text.append_inj_of_class (isNameChar_word h) (isNameChar_word h')
    (head?_rest l) (head?_rest l') (List.append_cancel_left hparts)
  cases l with
  | opening name =>
    cases l' with
    | opening name' => rw [String.toList_inj.1 hword]
    | _ => simp [rest] at hrest
  | column a =>
    cases l' with
    | column a' => rw [column_rest_injective h h' hrest]
    | _ => simp [rest] at hrest
  | closing =>
    cases l' with
    | closing => rfl
    | _ => simp [rest] at hrest
  | relationship r =>
    cases l' with
    | relationship r' => rw [relationship_injective h h' hword hrest]
    | _ => simp [rest] at hrest

theorem newline_not_mem_text {l : Line} (h : l.Plain) : '\n' ∉ l.text.toList := by
  have hname : ∀ {name : String}, IsWord name → '\n' ∉ name.toList := fun hname =>
    hname.not_mem (by decide)
  have hlisted : ∀ {names : List String}, (∀ name ∈ names, IsWord name) → '\n' ∉ listed names := by
    intro names hnames hmem
    rcases mem_listed hnames hmem with hc | hc | hc <;> exact absurd hc (by decide)
  rw [toList_text]
  cases l with
  | opening name => simp [word, rest, hname h]
  | column a =>
    have htype : '\n' ∉ a.type.toList := fun hmem => absurd (h.1.not_blank _ hmem) (by decide)
    cases hprimary : a.primary <;> simp [word, rest, hname h.2, htype, hprimary]
  | closing => decide
  | relationship r =>
    obtain ⟨htable, htarget, hlists⟩ := h
    rw [List.forall_mem_append] at hlists
    simp [word, rest, hname htable, hname htarget, hlisted hlists.1, hlisted hlists.2]

theorem map_text_injective {ls ls' : List Line} (h : ∀ l ∈ ls, l.Plain) (h' : ∀ l ∈ ls', l.Plain)
    (heq : ls.map text = ls'.map text) : ls = ls' := by
  induction ls generalizing ls' with
  | nil => exact (List.map_eq_nil_iff.1 heq.symm).symm
  | cons l ls ih =>
    obtain ⟨l', ls', rfl, hl, hls⟩ := List.map_eq_cons_iff.1 heq.symm
    obtain ⟨hplain, hrest⟩ := List.forall_mem_cons.1 h
    obtain ⟨hplain', hrest'⟩ := List.forall_mem_cons.1 h'
    rw [text_injective hplain hplain' hl.symm, ih hrest hrest' hls.symm]

end Line

/-! ## Blocks of lines -/

theorem column_lines_injective {as as' : List Attribute} {rest rest' : List Line}
    (heq : as.map Line.column ++ .closing :: rest = as'.map Line.column ++ .closing :: rest') :
    as = as' ∧ rest = rest' := by
  induction as generalizing as' with
  | nil =>
    cases as' with
    | nil => simpa using heq
    | cons a' as' => simp at heq
  | cons a as ih =>
    cases as' with
    | nil => simp at heq
    | cons a' as' =>
      simp only [List.map_cons, List.cons_append, List.cons.injEq, Line.column.injEq] at heq
      obtain ⟨rfl, hlines⟩ := heq
      obtain ⟨rfl, hrest⟩ := ih hlines
      exact ⟨rfl, hrest⟩

theorem blocks_cons (e : Entity) (es : List Entity) (rs : List Relationship) :
    blocks (e :: es) rs =
      .opening e.name :: (e.attributes.map .column ++ .closing :: blocks es rs) := by
  simp [blocks, Entity.lines]

/-- The lines say the entities and the relationships. -/
theorem blocks_injective {es es' : List Entity} {rs rs' : List Relationship}
    (heq : blocks es rs = blocks es' rs') : es = es' ∧ rs = rs' := by
  have hnil : ∀ {e : Entity} {es : List Entity} {rs rs' : List Relationship},
      blocks [] rs ≠ blocks (e :: es) rs' := by
    intro e es rs rs' heq
    rw [blocks_cons] at heq
    cases rs <;> simp [blocks] at heq
  induction es generalizing es' with
  | nil =>
    cases es' with
    | nil => exact ⟨rfl, List.map_injective_iff.2 (fun _ _ => Line.relationship.inj) heq⟩
    | cons e' es' => exact absurd heq hnil
  | cons e es ih =>
    cases es' with
    | nil => exact absurd heq.symm hnil
    | cons e' es' =>
      rw [blocks_cons, blocks_cons, List.cons.injEq, Line.opening.injEq] at heq
      obtain ⟨hname, hlines⟩ := heq
      obtain ⟨hattributes, hrest⟩ := column_lines_injective hlines
      obtain ⟨rfl, hrs⟩ := ih hrest
      exact ⟨by rw [Entity.ext hname hattributes], hrs⟩

end Diagram

/-! ## Whole texts -/

/-- The names that a diagram shows are words. The lists of columns in a foreign key may be empty and
need not be of one length; a primary key may name anything. -/
structure Document.NamedByWords (d : Document) : Prop where
  tables : ∀ t ∈ d.tables, Diagram.IsWord t.name
  columns : ∀ t ∈ d.tables, ∀ c ∈ t.columns, Diagram.IsWord c.name
  targets : ∀ t ∈ d.tables, ∀ k ∈ t.keys, Diagram.IsWord k.targetTable
  keyColumns : ∀ t ∈ d.tables, ∀ k ∈ t.keys,
    ∀ name ∈ k.sourceColumns ++ k.targetColumns, Diagram.IsWord name

theorem Direction.name_injective : Function.Injective Direction.name := by
  intro direction direction' h
  cases direction <;> cases direction' <;> simp [name] at h ⊢

namespace Diagram

theorem plain_blocks {d : Document} (h : d.NamedByWords) :
    ∀ l ∈ blocks d.entities d.relationships, l.Plain := by
  intro l hl
  simp only [blocks, Document.entities, Document.relationships, List.flatMap_map, List.map_flatMap,
    List.mem_append, List.mem_flatMap, List.mem_map] at hl
  rcases hl with ⟨t, ht, hl⟩ | ⟨t, ht, r, hr, rfl⟩
  · simp only [Table.entity, Entity.lines, List.map_map, List.mem_cons, List.mem_append,
      List.mem_map, Function.comp_apply, List.not_mem_nil, or_false] at hl
    rcases hl with rfl | ⟨c, hc, rfl⟩ | rfl
    · exact h.tables t ht
    · exact ⟨isToken_typeToken c.type, h.columns t ht c hc⟩
    · trivial
  · obtain ⟨k, hk, rfl⟩ := List.mem_map.1 hr
    exact ⟨h.tables t ht, h.targets t ht k hk, h.keyColumns t ht k hk⟩

theorem toList_draw (direction : Direction) (d : Document) :
    (draw direction d).toList =
      ['\n'].intercalate ((lines ⟨direction, []⟩ d).map String.toList) := by
  simp [draw, text, Text.joinWith, String.toList_intercalate]

theorem newline_not_mem_lines {d : Document} (h : d.NamedByWords) (direction : Direction) :
    ∀ row ∈ (lines ⟨direction, []⟩ d).map String.toList, '\n' ∉ row := by
  rw [lines_eq_blocks]
  simp only [List.map_cons, List.map_map, List.forall_mem_cons, List.forall_mem_map]
  refine ⟨by decide, ?_, fun l hl => Line.newline_not_mem_text (plain_blocks h l hl)⟩
  cases direction <;> decide

/-- **The diagram is unambiguous.** Where all names are words, two texts are equal exactly if they
say the same: the direction; the tables in order with their names and, column by column, the token
of the type, the name and whether the primary key has it; and the foreign keys of all tables in
order with their table, their target and both lists of columns. -/
theorem draw_eq_draw_iff {d d' : Document} (h : d.NamedByWords) (h' : d'.NamedByWords)
    (direction direction' : Direction) :
    draw direction d = draw direction' d' ↔
      direction = direction' ∧ d.entities = d'.entities ∧ d.relationships = d'.relationships := by
  constructor
  · intro heq
    have hrows := congrArg (Text.splitOn '\n' ·.toList) heq
    simp only [toList_draw] at hrows
    rw [Text.splitOn_intercalate (by simp [lines_eq_blocks]) (newline_not_mem_lines h direction),
      Text.splitOn_intercalate (by simp [lines_eq_blocks]) (newline_not_mem_lines h' direction')]
      at hrows
    have hlines := List.map_injective_iff.2 (fun _ _ => String.toList_inj.1) hrows
    rw [lines_eq_blocks, lines_eq_blocks, List.cons.injEq, List.cons.injEq] at hlines
    obtain ⟨-, hdirection, hblocks⟩ := hlines
    exact ⟨Direction.name_injective ((String.append_right_inj _).1 hdirection),
      blocks_injective (Line.map_text_injective (plain_blocks h) (plain_blocks h') hblocks)⟩
  · rintro ⟨rfl, hentities, hrelationships⟩
    rw [draw, draw, text, text, lines_eq_blocks, lines_eq_blocks, hentities, hrelationships]

/-- A column called `PK`, types that look like other lines, key columns that are missing on either
side, and a table without columns. -/
def crowded : Document :=
  ⟨[{ name := "PK"
      columns := [⟨"PK", "PK \x7b (1)", false⟩, ⟨"a_1", ") \x7do--|| \" ->", true⟩]
      primaryKey := some ["gone - x", "PK"]
      foreignKeys := some [⟨"k1", [], "PK", []⟩, ⟨"k2", ["PK", "a_1"], "direction", ["x"]⟩] },
    { name := "empty", columns := [], primaryKey := none, foreignKeys := none }]⟩

/-- The same for a diagram: types of another size, columns that may be null, and keys renamed. -/
def crowdedAlike : Document :=
  ⟨[{ name := "PK"
      columns := [⟨"PK", "PK(20, 2) \x7b", true⟩, ⟨"a_1", ")\t\x7do--|| \" ->", false⟩]
      primaryKey := some ["PK", "PK"]
      foreignKeys := some [⟨"first", [], "PK", []⟩, ⟨"first", ["PK", "a_1"], "direction", ["x"]⟩] },
    { name := "empty", columns := [], primaryKey := some [], foreignKeys := some [] }]⟩

theorem crowded_drawn_alike :
    crowded.NamedByWords ∧ crowdedAlike.NamedByWords ∧
    draw .topDown crowded = draw .topDown crowdedAlike ∧
    draw .topDown crowded ≠ draw .leftRight crowdedAlike := by
  have hcrowded : crowded.NamedByWords := ⟨by decide, by decide, by decide, by decide⟩
  have halike : crowdedAlike.NamedByWords := ⟨by decide, by decide, by decide, by decide⟩
  refine ⟨hcrowded, halike, ?_, fun heq => ?_⟩
  · exact (draw_eq_draw_iff hcrowded halike _ _).2
      ⟨rfl, by decide +kernel, by decide +kernel⟩
  · exact absurd ((draw_eq_draw_iff hcrowded halike _ _).1 heq).1 (by decide)

end Diagram

end SchemaShaper

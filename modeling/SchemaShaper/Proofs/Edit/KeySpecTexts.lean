import SchemaShaper.Edit.Injection
import SchemaShaper.Proofs.Text.Cuts

/-!
# Texts of foreign key specs

Reading gives well-formed specs only: as many source columns as target columns, at least one, and
names without blanks at their ends, without `|`, and in columns without `,`. A well-formed spec
reads back from its text with blanks around every bar.

Without blanks the two sides are parted by four bars, and the separator `|-->|` can lie between any
two neighbours of them. Between the last two it never counts, since it would share a bar with the
separator in the middle, which stands further to the left. Between the first two it does count,
when the source has the single column `-->`: this is the one spec whose bare text is refused
(`texts_of_wellFormed`).
-/

namespace SchemaShaper.KeySpec

/-- A text that can stand for a table or a column. -/
structure IsName (name : String) : Prop where
  ne_nil : name.toList ≠ []
  bare : Text.Bare name.toList
  no_bar : '|' ∉ name.toList

/-- The specs that texts write. -/
structure WellFormed (s : KeySpec) : Prop where
  lengths : s.sourceColumns.length = s.targetColumns.length
  nonempty : s.sourceColumns ≠ []
  sourceTable : IsName s.sourceTable
  targetTable : IsName s.targetTable
  columns : ∀ name ∈ s.sourceColumns ++ s.targetColumns, IsName name ∧ ',' ∉ name.toList

instance (name : String) : Decidable (IsName name) :=
  decidable_of_iff (name.toList ≠ [] ∧ Text.Bare name.toList ∧ '|' ∉ name.toList)
    ⟨fun h => ⟨h.1, h.2.1, h.2.2⟩, fun h => ⟨h.ne_nil, h.bare, h.no_bar⟩⟩

/-- The written form of a spec with the same blanks around every bar. -/
def padded (s : KeySpec) (gap : String) : String :=
  s.sourceTable ++ gap ++ "|" ++ gap ++ Text.joinWith "," s.sourceColumns ++ gap ++ separator
    ++ gap ++ s.targetTable ++ gap ++ "|" ++ gap ++ Text.joinWith "," s.targetColumns

/-! ## What reading guarantees -/

theorem isName_ofList {core : List Char} (hne : core ≠ []) (hbare : Text.Bare core)
    (hbar : '|' ∉ core) : IsName (String.ofList core) := by
  refine ⟨?_, ?_, ?_⟩
  · rwa [String.toList_ofList]
  · rwa [String.toList_ofList]
  · rwa [String.toList_ofList]

theorem isName_of_piece {side piece : List Char} (hpiece : piece ∈ Text.splitOn '|' side)
    (hne : Text.trim piece ≠ []) : IsName (String.ofList (Text.trim piece)) := by
  have hbar : '|' ∉ Text.trim piece :=
    fun h => Text.not_mem_of_mem_splitOn hpiece (Text.mem_of_mem_trim h)
  exact isName_ofList hne (Text.bare_trim piece) hbar

theorem isName_of_column {side columns column : List Char}
    (hcolumns : columns ∈ Text.splitOn '|' side)
    (hcolumn : column ∈ Text.splitOn ',' (Text.trim columns)) (hne : Text.trim column ≠ []) :
    IsName (String.ofList (Text.trim column)) ∧
      ',' ∉ (String.ofList (Text.trim column)).toList := by
  have hmem : ∀ c ∈ column, c ∈ columns := by
    intro c hc
    exact Text.mem_of_mem_trim ((Text.pieces_splitOn ',' _).mem hcolumn hc)
  have hbar : '|' ∉ Text.trim column :=
    fun h => Text.not_mem_of_mem_splitOn hcolumns (hmem _ (Text.mem_of_mem_trim h))
  have hcomma : ',' ∉ Text.trim column :=
    fun h => Text.not_mem_of_mem_splitOn hcolumn (Text.mem_of_mem_trim h)
  refine ⟨isName_ofList hne (Text.bare_trim column) hbar, ?_⟩
  rwa [String.toList_ofList]

/-- The names of one side are names as soon as they are not empty. -/
theorem names_of_readSide? {side : List Char} {table : String} {columns : List String}
    (h : readSide? side = some (table, columns)) (htable : table.toList ≠ [])
    (hcolumns : ∀ name ∈ columns, name.toList ≠ []) :
    IsName table ∧ columns ≠ [] ∧ ∀ name ∈ columns, IsName name ∧ ',' ∉ name.toList := by
  unfold readSide? at h
  split at h
  · next table' columns' hsplit =>
    obtain ⟨first, rest, hpieces, rfl, hrest⟩ := List.map_eq_cons_iff.1 hsplit
    obtain ⟨second, last, rfl, rfl, hlast⟩ := List.map_eq_cons_iff.1 hrest
    obtain rfl := List.map_eq_nil_iff.1 hlast
    cases h
    have hfirst : first ∈ Text.splitOn '|' side := by simp [hpieces]
    have hsecond : second ∈ Text.splitOn '|' side := by simp [hpieces]
    rw [String.toList_ofList] at htable
    refine ⟨isName_of_piece hfirst htable, ?_, ?_⟩
    · have hne := Text.splitBy_ne_nil (· == ',') (Text.trim second)
      exact fun hnil => hne (List.map_eq_nil_iff.1 hnil)
    · intro name hname
      have hnonempty := hcolumns name hname
      obtain ⟨column, hcolumn, rfl⟩ := List.mem_map.1 hname
      rw [String.toList_ofList] at hnonempty
      exact isName_of_column hsecond hcolumn hnonempty
  · cases h

theorem isEmpty_eq_false_iff {name : String} : name.isEmpty = false ↔ name.toList ≠ [] := by
  rw [← Bool.not_eq_true, String.isEmpty_iff, Ne, String.toList_eq_nil_iff]

theorem ofSides_eq_ok_iff {line source target : List Char} {s : KeySpec} :
    ofSides line source target = .ok s ↔
      readSide? source = some (s.sourceTable, s.sourceColumns) ∧
      readSide? target = some (s.targetTable, s.targetColumns) ∧
      s.sourceTable.toList ≠ [] ∧ s.targetTable.toList ≠ [] ∧
      (∀ name ∈ s.sourceColumns ++ s.targetColumns, name.toList ≠ []) ∧
      s.sourceColumns.length = s.targetColumns.length := by
  unfold ofSides
  constructor
  · intro h
    split at h
    · cases h
    · next hsource =>
      split at h
      · cases h
      · next htarget =>
        split at h
        · cases h
        · next hnames =>
          split at h
          · cases h
          · next hlengths =>
            cases h
            simp only [Bool.or_eq_true, not_or, Bool.not_eq_true, isEmpty_eq_false_iff,
              List.any_eq_false] at hnames
            obtain ⟨⟨hs, ht⟩, hcolumns⟩ := hnames
            exact ⟨hsource, htarget, hs, ht, hcolumns, by simpa using hlengths⟩
  · rintro ⟨hsource, htarget, hs, ht, hcolumns, hlengths⟩
    have hempty : ∀ name ∈ s.sourceColumns ++ s.targetColumns, name.isEmpty = false :=
      fun name hname => isEmpty_eq_false_iff.2 (hcolumns name hname)
    have hany : (s.sourceColumns ++ s.targetColumns).any String.isEmpty = false := by
      simpa only [List.any_eq_false, Bool.not_eq_true] using hempty
    rw [hsource, htarget]
    simp only [isEmpty_eq_false_iff.2 hs, isEmpty_eq_false_iff.2 ht, hany, hlengths]
    simp

theorem wellFormed_of_parse {line : String} {s : KeySpec} (h : parse line = .ok s) :
    s.WellFormed := by
  unfold parse readLine at h
  split at h
  · obtain ⟨hsource, htarget, hsne, htne, hcolumns, hlengths⟩ := ofSides_eq_ok_iff.1 h
    have hsplit := List.forall_mem_append.1 hcolumns
    obtain ⟨hs, hne, hsc⟩ := names_of_readSide? hsource hsne hsplit.1
    obtain ⟨ht, -, htc⟩ := names_of_readSide? htarget htne hsplit.2
    exact ⟨hlengths, hne, hs, ht, List.forall_mem_append.2 ⟨hsc, htc⟩⟩
  · cases h
  · cases h

/-! ## Bars -/

/-- What stands between the bars of the separator. -/
def arrow : List Char := ['-', '-', '>']

/-- Four texts with the bars of a spec between them. -/
def fields (a b c d : List Char) : List Char :=
  a ++ '|' :: (b ++ '|' :: (arrow ++ '|' :: (c ++ '|' :: d)))

theorem toList_separator : separator.toList = '|' :: (arrow ++ ['|']) := by
  simp [separator, arrow]

theorem arrow_prefix_iff {xs ys : List Char} (h : '|' ∉ xs) :
    '|' :: (arrow ++ ['|']) <+: '|' :: (xs ++ '|' :: ys) ↔ xs = arrow := by
  rw [List.cons_prefix_cons]
  constructor
  · rintro ⟨-, rest, hrest⟩
    have hfree : ∀ c ∈ xs, (c != '|') = true := by
      intro c hc
      rw [bne_iff_ne]
      rintro rfl
      exact h hc
    have hjoined : xs ++ '|' :: ys = arrow ++ '|' :: rest := by simp [← hrest]
    exact (Text.append_inj_of_class hfree (by simp [arrow]) (by simp) (by simp) hjoined).1
  · rintro rfl
    exact ⟨rfl, ys, by simp⟩

/-- A bar with the arrow and another bar behind it is a separator. -/
theorem splitOnText_arrow (rest : List Char) :
    Text.splitOnText separator.toList ('|' :: (arrow ++ '|' :: rest)) =
      [] :: Text.splitOnText separator.toList rest := by
  have hjoined : '|' :: (arrow ++ '|' :: rest) = separator.toList ++ rest := by
    simp [toList_separator]
  rw [hjoined]
  exact Text.splitOnText_append_self (by simp [toList_separator]) rest

/-- Any other text between two bars belongs to the piece in front of it. -/
theorem splitOnText_bar {xs ys : List Char} (h : '|' ∉ xs) (hne : xs ≠ arrow) :
    Text.splitOnText separator.toList ('|' :: (xs ++ '|' :: ys)) =
      (Text.splitOnText separator.toList ('|' :: ys)).modifyHead ('|' :: xs ++ ·) := by
  rw [toList_separator, Text.splitOnText_cons fun hp => hne ((arrow_prefix_iff h).1 hp),
    Text.splitOnText_append h, List.modifyHead_modifyHead]
  rfl

theorem splitOnText_last {xs : List Char} (h : '|' ∉ xs) :
    Text.splitOnText separator.toList ('|' :: xs) = ['|' :: xs] := by
  have hnot : ¬ '|' :: (arrow ++ ['|']) <+: '|' :: xs := by
    rw [List.cons_prefix_cons]
    rintro ⟨-, rest, rfl⟩
    exact h (by simp)
  rw [toList_separator, Text.splitOnText_cons hnot, Text.splitOnText_of_not_mem h]
  rfl

theorem splitOnText_front {xs : List Char} (h : '|' ∉ xs) (ys : List Char) :
    Text.splitOnText separator.toList (xs ++ ys) =
      (Text.splitOnText separator.toList ys).modifyHead (xs ++ ·) := by
  rw [toList_separator]
  exact Text.splitOnText_append h ys

section Fields

variable {a b c d : List Char} (ha : '|' ∉ a) (hb : '|' ∉ b) (hc : '|' ∉ c) (hd : '|' ∉ d)

include ha hb hc hd in
/-- The separator in the middle is found, even when the text behind it is an arrow as well. -/
theorem splitOnText_fields (hne : b ≠ arrow) :
    Text.splitOnText separator.toList (fields a b c d) = [a ++ '|' :: b, c ++ '|' :: d] := by
  have hright : Text.splitOnText separator.toList (c ++ '|' :: d) = [c ++ '|' :: d] := by
    rw [splitOnText_front hc, splitOnText_last hd]
    rfl
  unfold fields
  rw [splitOnText_front ha, splitOnText_bar hb hne, splitOnText_arrow, hright]
  simp

include ha hd in
/-- An arrow between the first two bars is taken for the separator, and then also one between the
last two. -/
theorem splitOnText_fields_arrow_arrow :
    Text.splitOnText separator.toList (fields a arrow arrow d) = [a, arrow, d] := by
  have harrow : '|' ∉ arrow := by decide
  have hright : Text.splitOnText separator.toList d = [d] := by
    rw [toList_separator]
    exact Text.splitOnText_of_not_mem hd
  unfold fields
  rw [splitOnText_front ha, splitOnText_arrow, splitOnText_front harrow, splitOnText_arrow, hright]
  simp

include ha hc hd in
theorem splitOnText_fields_arrow (hne : c ≠ arrow) :
    Text.splitOnText separator.toList (fields a arrow c d) =
      [a, arrow ++ '|' :: (c ++ '|' :: d)] := by
  have harrow : '|' ∉ arrow := by decide
  unfold fields
  rw [splitOnText_front ha, splitOnText_arrow, splitOnText_front harrow, splitOnText_bar hc hne,
    splitOnText_last hd]
  simp

end Fields

/-! ## Reading a side -/

theorem readSide?_of_no_bar {side : List Char} (h : '|' ∉ side) : readSide? side = none := by
  have hsplit : Text.splitOn '|' side = [side] :=
    Text.splitOn_eq_iff.2 ⟨by simp, by simpa using h, by simp [List.intercalate_singleton]⟩
  unfold readSide?
  rw [hsplit]
  rfl

theorem bare_bar {a b : List Char} (ha : ∀ c ∈ a.head?, Text.isBlank c = false)
    (hb : ∀ c ∈ b.getLast?, Text.isBlank c = false) : Text.Bare (a ++ '|' :: b) := by
  refine ⟨fun x hx => ?_, fun x hx => ?_⟩
  · cases a with
    | nil =>
      obtain rfl : '|' = x := Option.some.inj hx
      decide
    | cons c a => exact ha x hx
  · rw [Text.getLast?_append_of_ne_nil a (List.cons_ne_nil _ _)] at hx
    cases b with
    | nil =>
      obtain rfl : '|' = x := Option.some.inj hx
      decide
    | cons c b => exact hb x (by rwa [List.getLast?_cons_cons] at hx)

/-- Blanks around a side, and around its bar, do not count. -/
theorem readSide?_trim {a b : List Char} (ha : '|' ∉ a) (hb : '|' ∉ b) :
    readSide? (Text.trim (a ++ '|' :: b)) = some (String.ofList (Text.trim a),
      (Text.splitOn ',' (Text.trim b)).map fun column => String.ofList (Text.trim column)) := by
  obtain ⟨front, hfront, hastart, hahead⟩ := Text.exists_trimStart a
  obtain ⟨back, hback, hbend, hblast⟩ := Text.exists_trimEnd b
  have hatrim : Text.trim (Text.trimStart a) = Text.trim a := by
    have h := Text.trim_append_blanks hfront Text.blanks_nil (Text.trimStart a)
    rw [List.append_nil, ← hastart] at h
    exact h.symm
  have hbtrim : Text.trim (Text.trimEnd b) = Text.trim b := by
    have h := Text.trim_append_blanks Text.blanks_nil hback (Text.trimEnd b)
    rw [List.nil_append, ← hbend] at h
    exact h.symm
  -- Only the outer blanks of the side go here; those next to the bar go with the pieces.
  have hside : Text.trim (a ++ '|' :: b) = Text.trimStart a ++ '|' :: Text.trimEnd b := by
    have hjoined : a ++ '|' :: b =
        front ++ ((Text.trimStart a ++ '|' :: Text.trimEnd b) ++ back) := by
      simpa using congrArg₂ (fun a b => a ++ '|' :: b) hastart hbend
    rw [hjoined, Text.trim_append_blanks hfront hback, (bare_bar hahead hblast).trim_eq]
  have hsplit : Text.splitOn '|' (Text.trimStart a ++ '|' :: Text.trimEnd b) =
      [Text.trimStart a, Text.trimEnd b] := by
    refine Text.splitOn_eq_iff.2 ⟨by simp, ?_, by simp [List.intercalate_cons_cons]⟩
    intro part hpart hbar
    simp only [List.mem_cons, List.not_mem_nil, or_false] at hpart
    rcases hpart with rfl | rfl
    · exact ha (by rw [hastart]; exact List.mem_append_right _ hbar)
    · exact hb (by rw [hbend]; exact List.mem_append_left _ hbar)
  unfold readSide?
  rw [hside, hsplit, List.map_cons, List.map_cons, List.map_nil, hatrim, hbtrim]

/-! ## Written specs -/

/-- The columns of a side as written. -/
def joined (columns : List String) : List Char := [','].intercalate (columns.map String.toList)

section Columns

variable {columns : List String} (h : ∀ name ∈ columns, IsName name ∧ ',' ∉ name.toList)

include h in
theorem bare_joined : Text.Bare (joined columns) :=
  Text.bare_intercalate (List.forall_mem_map.2 fun name hname =>
    ⟨(h name hname).1.ne_nil, (h name hname).1.bare⟩)

include h in
theorem joined_ne_nil (hne : columns ≠ []) : joined columns ≠ [] :=
  Text.intercalate_ne_nil (by simpa using hne)
    (List.forall_mem_map.2 fun name hname => (h name hname).1.ne_nil)

include h in
theorem bar_not_mem_joined : '|' ∉ joined columns := by
  intro hbar
  rcases Text.mem_intercalate hbar with hcomma | ⟨part, hpart, hmem⟩
  · exact absurd hcomma (by decide)
  · obtain ⟨name, hname, rfl⟩ := List.mem_map.1 hpart
    exact (h name hname).1.no_bar hmem

include h in
theorem columns_of_joined (hne : columns ≠ []) :
    ((Text.splitOn ',' (joined columns)).map fun column => String.ofList (Text.trim column)) =
      columns := by
  have hsplit : Text.splitOn ',' (joined columns) = columns.map String.toList :=
    Text.splitOn_intercalate (by simpa using hne)
      (List.forall_mem_map.2 fun name hname => (h name hname).2)
  rw [hsplit, List.map_map]
  refine (List.map_congr_left fun name hname => ?_).trans (List.map_id _)
  simp only [Function.comp_apply, (h name hname).1.bare.trim_eq, String.ofList_toList, id_eq]

include h in
/-- Only a single column called `-->` is written as an arrow. -/
theorem joined_eq_arrow_iff : joined columns = arrow ↔ columns = ["-->"] := by
  constructor
  · intro harrow
    match columns, h with
    | [], _ => exact absurd harrow (by decide)
    | [name], _ =>
      have hname : name.toList = "-->".toList := by
        simpa [joined, List.intercalate_singleton, arrow] using harrow
      rw [String.toList_injective hname]
    | first :: second :: rest, _ =>
      have hcomma : ',' ∈ joined (first :: second :: rest) := by
        simp [joined, List.intercalate_cons_cons]
      rw [harrow] at hcomma
      exact absurd hcomma (by decide)
  · rintro rfl
    simp [joined, List.intercalate_singleton, arrow]

end Columns

theorem toList_padded (s : KeySpec) (gap : String) : (s.padded gap).toList =
    fields (s.sourceTable.toList ++ gap.toList)
      (gap.toList ++ (joined s.sourceColumns ++ gap.toList))
      (gap.toList ++ (s.targetTable.toList ++ gap.toList))
      (gap.toList ++ joined s.targetColumns) := by
  simp [padded, fields, joined, toList_separator, Text.joinWith, String.toList_intercalate]

theorem padded_empty (s : KeySpec) : s.padded "" = s.display := by
  simp [padded, display]

section Written

variable {s : KeySpec} (h : s.WellFormed) {gap : String} (hgap : Text.Blanks gap.toList)

include hgap in
theorem bar_not_mem_gap : '|' ∉ gap.toList := fun hbar => absurd (hgap _ hbar) (by decide)

include h in
theorem targetColumns_ne_nil : s.targetColumns ≠ [] := by
  intro hnil
  have hlength := h.lengths
  rw [hnil] at hlength
  exact h.nonempty (List.length_eq_zero_iff.1 hlength)

include h in
theorem bare_padded (gap : String) : Text.Bare (s.padded gap).toList := by
  obtain ⟨-, htarget⟩ := List.forall_mem_append.1 h.columns
  have hlast := joined_ne_nil htarget (targetColumns_ne_nil h)
  have hbare := fun mid => @Text.bare_append _ mid _ h.sourceTable.bare h.sourceTable.ne_nil
    (bare_joined htarget) hlast
  rw [toList_padded]
  unfold fields
  simpa only [List.append_assoc, List.cons_append] using
    hbare (gap.toList ++ '|' :: (gap.toList ++ (joined s.sourceColumns ++ (gap.toList ++
      '|' :: (arrow ++ '|' :: (gap.toList ++ (s.targetTable.toList ++ (gap.toList ++
        '|' :: gap.toList))))))))

include h hgap in
/-- With the same blanks around every bar a spec reads back, unless they and the source columns
make an arrow. -/
theorem parse_padded (hne : gap.toList ++ (joined s.sourceColumns ++ gap.toList) ≠ arrow) :
    parse (s.padded gap) = .ok s := by
  obtain ⟨hsource, htarget⟩ := List.forall_mem_append.1 h.columns
  have hbar := bar_not_mem_gap hgap
  have ha : '|' ∉ s.sourceTable.toList ++ gap.toList := by simp [h.sourceTable.no_bar, hbar]
  have hb : '|' ∉ gap.toList ++ (joined s.sourceColumns ++ gap.toList) := by
    simp [bar_not_mem_joined hsource, hbar]
  have hc : '|' ∉ gap.toList ++ (s.targetTable.toList ++ gap.toList) := by
    simp [h.targetTable.no_bar, hbar]
  have hd : '|' ∉ gap.toList ++ joined s.targetColumns := by
    simp [bar_not_mem_joined htarget, hbar]
  have hatrim : Text.trim (s.sourceTable.toList ++ gap.toList) = s.sourceTable.toList :=
    (Text.trim_append_blanks Text.blanks_nil hgap _).trans h.sourceTable.bare.trim_eq
  have hbtrim := (Text.trim_append_blanks hgap hgap _).trans (bare_joined hsource).trim_eq
  have hctrim := (Text.trim_append_blanks hgap hgap _).trans h.targetTable.bare.trim_eq
  have hdtrim : Text.trim (gap.toList ++ joined s.targetColumns) = joined s.targetColumns := by
    have htrim := Text.trim_append_blanks hgap Text.blanks_nil (joined s.targetColumns)
    rw [List.append_nil] at htrim
    exact htrim.trans (bare_joined htarget).trim_eq
  unfold parse readLine
  rw [(bare_padded h gap).trim_eq, toList_padded, splitOnText_fields ha hb hc hd hne]
  refine ofSides_eq_ok_iff.2 ⟨?_, ?_, h.sourceTable.ne_nil, h.targetTable.ne_nil,
    fun name hname => (h.columns name hname).1.ne_nil, h.lengths⟩
  · rw [readSide?_trim ha hb, hatrim, hbtrim, columns_of_joined hsource h.nonempty,
      String.ofList_toList]
  · rw [readSide?_trim hc hd, hctrim, hdtrim, columns_of_joined htarget (targetColumns_ne_nil h),
      String.ofList_toList]

include h in
theorem parse_padded_of_gap {gap : String} (hgap : Text.Blanks gap.toList) (hne : gap ≠ "") :
    parse (s.padded gap) = .ok s := by
  refine parse_padded h hgap fun harrow => ?_
  -- An arrow does not begin with a blank.
  have hnil : gap.toList ≠ [] := fun hnil => hne (String.toList_eq_nil_iff.1 hnil)
  obtain ⟨c, cs, hcs⟩ := List.exists_cons_of_ne_nil hnil
  have hblank : Text.isBlank c = true := hgap c (by rw [hcs]; exact List.mem_cons_self)
  rw [hcs] at harrow
  obtain ⟨rfl, -⟩ := List.cons.inj harrow
  exact absurd hblank (by decide)

include h in
theorem parse_display_of_ne (hne : s.sourceColumns ≠ ["-->"]) : parse s.display = .ok s := by
  obtain ⟨hsource, -⟩ := List.forall_mem_append.1 h.columns
  rw [← padded_empty]
  refine parse_padded h Text.blanks_nil fun harrow => hne ((joined_eq_arrow_iff hsource).1 ?_)
  simpa using harrow

include h in
/-- The column is taken for the middle of a separator. Then the source side has no bar, or the
target table makes another separator. -/
theorem parse_display_of_arrow (harrow : s.sourceColumns = ["-->"]) :
    parse s.display = .error (if s.targetTable = "-->" then .duplicateSeparator s.display
      else .invalidSource s.sourceTable) := by
  obtain ⟨hsource, htarget⟩ := List.forall_mem_append.1 h.columns
  have ha := h.sourceTable.no_bar
  have hc := h.targetTable.no_bar
  have hd := bar_not_mem_joined htarget
  have hbare := bare_padded h ""
  have hfields := toList_padded s ""
  rw [padded_empty] at hbare hfields
  simp only [String.toList_empty, List.nil_append, List.append_nil,
    (joined_eq_arrow_iff hsource).2 harrow] at hfields
  unfold parse readLine
  rw [hbare.trim_eq]
  -- Two bars are spent on the column; the last two part the line again around another arrow.
  by_cases htable : s.targetTable = "-->"
  · have hnames : s.targetTable.toList = arrow := by simp [htable, arrow]
    have hsplit : Text.splitOnText separator.toList s.display.toList =
        [s.sourceTable.toList, arrow, joined s.targetColumns] := by
      rw [hfields, hnames]
      exact splitOnText_fields_arrow_arrow ha hd
    rw [if_pos htable, hsplit, String.ofList_toList]
  · have hnames : s.targetTable.toList ≠ arrow := by
      intro hname
      refine htable (String.toList_injective ?_)
      simp [hname, arrow]
    rw [if_neg htable, hfields, splitOnText_fields_arrow ha hc hd hnames]
    simp only [ofSides, h.sourceTable.bare.trim_eq, readSide?_of_no_bar ha, String.ofList_toList]

end Written

/-- A key is not added only if its table is missing, which is reported with the spec as written. -/
theorem addKey_eq_error_iff {d : Document} {s : KeySpec} {e : EditError} :
    d.addKey s = .error e ↔
      d.table? s.sourceTable = none ∧ e = .sourceTableNotFound s.sourceTable s.display := by
  unfold Document.addKey
  cases d.table? s.sourceTable with
  | none => simp [eq_comm]
  | some t => simp

/-- **Texts of well-formed specs.** Every spec that is read is well formed, and a well-formed spec
reads back from its text with blanks around the bars. From the bare text, which the report of a
missing source table shows, it reads back exactly when its source columns are not the single column
`-->`; that text is refused for the separators or the source side that it seems to have. -/
theorem texts_of_wellFormed :
    (∀ line s, parse line = .ok s → s.WellFormed) ∧
    ∀ s : KeySpec, s.WellFormed →
      (∀ gap : String, Text.Blanks gap.toList → gap ≠ "" → parse (s.padded gap) = .ok s) ∧
      (parse s.display = .ok s ↔ s.sourceColumns ≠ ["-->"]) ∧
      (s.sourceColumns = ["-->"] →
        parse s.display = .error (if s.targetTable = "-->" then .duplicateSeparator s.display
          else .invalidSource s.sourceTable)) ∧
      ∀ (d : Document) (e : EditError), d.addKey s = .error e →
        e = .sourceTableNotFound s.sourceTable s.display := by
  refine ⟨fun line s h => wellFormed_of_parse h, fun s h => ⟨fun gap hgap hne =>
    parse_padded_of_gap h hgap hne, ⟨fun hparse harrow => ?_, parse_display_of_ne h⟩,
    parse_display_of_arrow h, fun d e he => (addKey_eq_error_iff.1 he).2⟩⟩
  rw [parse_display_of_arrow h harrow] at hparse
  cases hparse

/-- Tables and columns called `-->`, of which none stands alone between the first two bars. -/
def manyArrows : KeySpec := ⟨"-->", ["-->", "a # b"], "-->", ["-->", ">"]⟩

/-- The single source column `-->`, with a target table of that name. -/
def loneArrow : KeySpec := ⟨"t", ["-->"], "-->", ["c"]⟩

theorem wellFormed_loneArrow : loneArrow.WellFormed :=
  ⟨rfl, by decide, by decide, by decide, by decide⟩

theorem arrows_in_texts :
    parse " -->|-->,\ta # b|-->| --> | -->,>" = .ok manyArrows ∧ manyArrows.WellFormed ∧
    parse "--> | -->,a # b |-->| --> | -->,>" = .ok manyArrows ∧
    parse "-->|-->,a # b|-->|-->|-->,>" = .ok manyArrows ∧
    loneArrow.WellFormed ∧ parse "t | --> |-->| --> | c" = .ok loneArrow ∧
    parse "t|-->|-->|-->|c" = .error (.duplicateSeparator "t|-->|-->|-->|c") := by
  have hread : parse " -->|-->,\ta # b|-->| --> | -->,>" = .ok manyArrows := rfl
  have hmany := texts_of_wellFormed.1 _ _ hread
  have hspaced := (texts_of_wellFormed.2 manyArrows hmany).1 " " (by decide) (by decide)
  have hbare := (texts_of_wellFormed.2 manyArrows hmany).2.1.2 (by decide)
  have hlone := texts_of_wellFormed.2 loneArrow wellFormed_loneArrow
  exact ⟨hread, hmany, hspaced, hbare, wellFormed_loneArrow,
    hlone.1 " " (by decide) (by decide), hlone.2.2.1 rfl⟩

end SchemaShaper.KeySpec

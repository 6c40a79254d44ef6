import SchemaShaper.Diagram
import SchemaShaper.Proofs.Document.Views
import Mathlib.Data.List.Forall2

/-!
# Diagrams with keys left out

A diagram with keys left out is the plain diagram of the document without the parts that have these
keys, where every column type is empty when the key of types is left out (`Diagram.text_eq_draw`).
So it is the plain diagram of what the view of the document reads back as, whenever the view is read
back at all (`Diagram.text_draws_view`).

A view hides a name when the key of the name is left out; the diagram shows the names all the same,
as it leaves out parts as a whole only. `Diagram.text_determined_by_view_iff` says for which keys
the diagram shows no more than the view does.
-/

namespace SchemaShaper

/-! ## Drawing what is left -/

/-- The column with its type rewritten. -/
def Column.retype (f : String → String) (c : Column) : Column := { c with type := f c.type }

/-- The table with the types of its columns rewritten. -/
def Table.retype (f : String → String) (t : Table) : Table :=
  { t with columns := t.columns.map (Column.retype f) }

/-- The document with the types of all columns rewritten. -/
def Document.retype (f : String → String) (d : Document) : Document :=
  ⟨d.tables.map (Table.retype f)⟩

theorem Document.retype_id (d : Document) : d.retype id = d := by
  have hcolumn : Column.retype id = id := rfl
  have htable : Table.retype id = id := by
    funext t
    simp [Table.retype, hcolumn]
  simp [Document.retype, htable]

namespace Diagram

/-- The type that is drawn for a column type. -/
def drawnType (keys : List String) (type : String) : String :=
  if keys.contains "type" then "" else type

/-- The part of a document that is drawn. -/
def drawn (keys : List String) (d : Document) : Document := (d.redact keys).retype (drawnType keys)

theorem omits_iff {direction : Direction} {keys : List String} {key : String} :
    omits ⟨direction, keys⟩ key = true ↔ key ∈ keys := List.contains_iff_mem

theorem omits_nil (direction : Direction) (key : String) : omits ⟨direction, []⟩ key = false := rfl

section Drawing

variable (direction : Direction) (keys : List String)

theorem entityLines_eq (t : Table) :
    entityLines ⟨direction, keys⟩ t =
      entityLines ⟨direction, []⟩ ((t.redact keys).retype (drawnType keys)) := by
  have hprimary : ((t.redact keys).retype (drawnType keys)).primaryColumns =
      if keys.contains "primary_key" then [] else t.primaryColumns := by
    unfold Table.primaryColumns Table.retype Table.redact
    cases keys.contains "primary_key" <;> rfl
  have hcolumns : ((t.redact keys).retype (drawnType keys)).columns =
      (if keys.contains "columns" then [] else t.columns).map (Column.retype (drawnType keys)) :=
    rfl
  have hline : ∀ (primary : List String) (c : Column),
      columnLine ⟨direction, []⟩ primary (c.retype (drawnType keys)) =
        columnLine ⟨direction, keys⟩ primary c := fun _ _ => rfl
  have hlines : ∀ (primary : List String) (columns : List Column),
      (columns.map (Column.retype (drawnType keys))).map (columnLine ⟨direction, []⟩ primary) =
        columns.map (columnLine ⟨direction, keys⟩ primary) := fun primary columns => by
    rw [List.map_map]
    exact List.map_congr_left fun c _ => hline primary c
  simp only [entityLines, omits_nil, hprimary, hcolumns, hlines, Bool.false_eq_true, if_false]
  rfl

theorem keyLines_eq (t : Table) :
    (if keys.contains "foreign_keys" then [] else t.keys.map (keyLine t)) =
      ((t.redact keys).retype (drawnType keys)).keys.map
        (keyLine ((t.redact keys).retype (drawnType keys))) := by
  unfold Table.keys Table.retype Table.redact
  cases keys.contains "foreign_keys" <;> rfl

/-- **A diagram with keys left out** is the plain diagram of the part that is drawn. -/
theorem text_eq_draw (d : Document) :
    text ⟨direction, keys⟩ d = draw direction (drawn keys d) := by
  have htables : (drawn keys d).tables = (if keys.contains "tables" then [] else d.tables).map
      fun t => (t.redact keys).retype (drawnType keys) := by
    unfold drawn Document.retype Document.redact
    cases keys.contains "tables"
    · exact List.map_map
    · rfl
  have hkeyed : ∀ tables : List Table,
      (if keys.contains "foreign_keys" then [] else tables).flatMap (fun t =>
          t.keys.map (keyLine t)) =
        tables.flatMap fun t =>
          if keys.contains "foreign_keys" then [] else t.keys.map (keyLine t) := by
    intro tables
    cases keys.contains "foreign_keys"
    · rfl
    · simp
  unfold draw text lines
  simp only [omits_nil, htables, Bool.false_eq_true, if_false, List.flatMap_map, ← entityLines_eq,
    ← keyLines_eq, ← hkeyed]
  rfl

end Drawing

/-- **The diagram draws the view.** The view reads back as a document, its plain diagram is the
diagram with the keys left out, and leaving out the key of types as well empties the types in it. -/
theorem text_draws_view (direction : Direction) (keys : List String) (d : Document)
    (hneeded : ∀ key ∈ requiredKeys, key ∉ keys) :
    ∃ view, Document.ofValue? (d.toValue.without keys) = some view ∧
      text ⟨direction, keys⟩ d = draw direction view ∧
      ∀ keys', (∀ key, key ∈ keys' ↔ key = "type" ∨ key ∈ keys) →
        text ⟨direction, keys'⟩ d = draw direction (view.retype fun _ => "") := by
  refine ⟨d.redact keys, Document.ofValue?_view hneeded d, ?_, ?_⟩
  · have htype : drawnType keys = id := by
      have hmem : "type" ∉ keys := hneeded _ (by decide)
      funext type
      simp [drawnType, hmem]
    rw [text_eq_draw, drawn, htype, Document.retype_id]
  · intro keys' hkeys'
    have htype : drawnType keys' = fun _ => "" := by
      have hmem : "type" ∈ keys' := (hkeys' _).2 (Or.inl rfl)
      funext type
      simp [drawnType, hmem]
    have hredact : d.redact keys' = d.redact keys := by
      refine Document.redact_congr (fun key hkey => ?_) d
      rw [hkeys', or_iff_right]
      rintro rfl
      exact absurd hkey (by decide)
    rw [text_eq_draw, drawn, htype, hredact]

/-- A table with a key and a foreign key. -/
def employees : Document :=
  ⟨[{ name := "Employee", columns := [⟨"EID", "NUMERIC(10, 2)", false⟩, ⟨"Unit", "INTEGER", true⟩]
      primaryKey := some ["EID"]
      foreignKeys := some [⟨"works_in", ["Unit"], "OrgUnit", ["OEID"]⟩] }]⟩

theorem employees_without_primary_key :
    (∀ key ∈ requiredKeys, key ∉ ["primary_key", "comment"]) ∧
    (∃ view, Document.ofValue? (employees.toValue.without ["primary_key", "comment"]) = some view ∧
      text ⟨.topDown, ["primary_key", "comment"]⟩ employees = draw .topDown view ∧
      ∀ keys', (∀ key, key ∈ keys' ↔ key = "type" ∨ key ∈ ["primary_key", "comment"]) →
        text ⟨.topDown, keys'⟩ employees = draw .topDown (view.retype fun _ => "")) ∧
    text ⟨.topDown, ["primary_key", "comment"]⟩ employees =
      "erDiagram\n    direction TB\n    Employee \x7b\n        NUMERIC EID\n        INTEGER Unit\n"
        ++ "    \x7d\n    Employee \x7do--|| OrgUnit : \"Unit -> OEID\"" :=
  ⟨by decide, text_draws_view .topDown ["primary_key", "comment"] employees (by decide), by decide⟩

/-! ## What a view hides -/

section Hiding

variable {direction : Direction} {keys : List String}

theorem map_eq_map_of_view_eq {α β γ : Type} {view : α → γ} {f : α → β} {xs ys : List α}
    (h : xs.map view = ys.map view) (hf : ∀ x y, view x = view y → f x = f y) :
    xs.map f = ys.map f := by
  rw [← List.forall₂_eq_eq_eq, List.forall₂_map_left_iff, List.forall₂_map_right_iff] at h ⊢
  exact h.imp hf

theorem columnLine_of_view_eq {primary : List String} {c c' : Column}
    (h : c.toValue.without keys = c'.toValue.without keys) (hname : "columnname" ∉ keys) :
    columnLine ⟨direction, keys⟩ primary c = columnLine ⟨direction, keys⟩ primary c' := by
  unfold columnLine
  rw [Column.name_eq_of_view_eq h hname]
  by_cases htype : "type" ∈ keys
  · rw [omits_iff.2 htype]
    rfl
  · rw [Column.type_eq_of_view_eq h htype]

theorem entityLines_of_view_eq {t t' : Table}
    (h : t.toValue.without keys = t'.toValue.without keys) (hname : "tablename" ∉ keys)
    (hcolumn : "columns" ∈ keys ∨ "columnname" ∉ keys) :
    entityLines ⟨direction, keys⟩ t = entityLines ⟨direction, keys⟩ t' := by
  have hprimary : (if omits ⟨direction, keys⟩ "primary_key" then [] else t.primaryColumns) =
      if omits ⟨direction, keys⟩ "primary_key" then [] else t'.primaryColumns := by
    split
    · rfl
    · rename_i homits
      unfold Table.primaryColumns
      rw [Table.primaryKey_eq_of_view_eq h (mt omits_iff.2 homits)]
  have hcolumns : ∀ primary : List String,
      (if omits ⟨direction, keys⟩ "columns" then [] else t.columns).map
          (columnLine ⟨direction, keys⟩ primary) =
        (if omits ⟨direction, keys⟩ "columns" then [] else t'.columns).map
          (columnLine ⟨direction, keys⟩ primary) := by
    intro primary
    split
    · rfl
    · rename_i homits
      have hkey : "columns" ∉ keys := mt omits_iff.2 homits
      exact map_eq_map_of_view_eq (Table.columns_of_view_eq h hkey) fun c c' hc =>
        columnLine_of_view_eq hc (hcolumn.resolve_left hkey)
  unfold entityLines
  simp only [hprimary, hcolumns, Table.name_eq_of_view_eq h hname]

theorem keyLines_of_view_eq {t t' : Table}
    (h : t.toValue.without keys = t'.toValue.without keys) (hname : "tablename" ∉ keys)
    (hkey : "foreign_keys" ∉ keys) (htarget : "targettable" ∉ keys)
    (hsources : "sourcecolumns" ∉ keys) (htargets : "targetcolumns" ∉ keys) :
    t.keys.map (keyLine t) = t'.keys.map (keyLine t') := by
  have htable : keyLine t = keyLine t' := by
    funext k
    unfold keyLine
    rw [Table.name_eq_of_view_eq h hname]
  rw [htable]
  refine map_eq_map_of_view_eq (Table.keys_of_view_eq h hkey) fun k k' hk => ?_
  unfold keyLine
  rw [ForeignKey.targetTable_eq_of_view_eq hk htarget,
    ForeignKey.sourceColumns_eq_of_view_eq hk hsources,
    ForeignKey.targetColumns_eq_of_view_eq hk htargets]

theorem text_of_view_eq {d d' : Document} (h : d.toValue.without keys = d'.toValue.without keys)
    (hkeys : "tables" ∈ keys ∨ "tablename" ∉ keys ∧ ("columns" ∈ keys ∨ "columnname" ∉ keys) ∧
      ("foreign_keys" ∈ keys ∨
        "targettable" ∉ keys ∧ "sourcecolumns" ∉ keys ∧ "targetcolumns" ∉ keys)) :
    text ⟨direction, keys⟩ d = text ⟨direction, keys⟩ d' := by
  unfold text lines
  by_cases htables : "tables" ∈ keys
  · simp only [omits_iff.2 htables, if_true]
  · obtain ⟨hname, hcolumn, hkey⟩ := hkeys.resolve_left htables
    have hsame := Document.tables_of_view_eq h htables
    have hentities : d.tables.flatMap (entityLines ⟨direction, keys⟩) =
        d'.tables.flatMap (entityLines ⟨direction, keys⟩) := by
      rw [List.flatMap_def, List.flatMap_def, map_eq_map_of_view_eq hsame fun t t' ht =>
        entityLines_of_view_eq ht hname hcolumn]
    have hkeyed : (if omits ⟨direction, keys⟩ "foreign_keys" then [] else d.tables).flatMap
          (fun t => t.keys.map (keyLine t)) =
        (if omits ⟨direction, keys⟩ "foreign_keys" then [] else d'.tables).flatMap
          fun t => t.keys.map (keyLine t) := by
      split
      · rfl
      · rename_i homits
        have hshown : "foreign_keys" ∉ keys := mt omits_iff.2 homits
        obtain ⟨htarget, hsources, htargets⟩ := hkey.resolve_left hshown
        rw [List.flatMap_def, List.flatMap_def, map_eq_map_of_view_eq hsame fun t t' ht =>
          keyLines_of_view_eq ht hname hshown htarget hsources htargets]
    have homits : omits ⟨direction, keys⟩ "tables" = false :=
      Bool.eq_false_iff.2 (mt omits_iff.1 htables)
    simp only [homits, Bool.false_eq_true, if_false, hentities, hkeyed]

end Hiding

/-- A table with this name and nothing else. -/
def bareTable (name : String) : Table :=
  { name, columns := [], primaryKey := none, foreignKeys := none }

/-- A table with one column of this name. -/
def oneColumn (name : String) : Table :=
  { bareTable "t" with columns := [{ name, type := "", nullable := false }] }

/-- A table with one foreign key. -/
def oneKey (k : ForeignKey) : Table := { bareTable "t" with foreignKeys := some [k] }

section Determined

variable {direction : Direction} {keys : List String} (htables : "tables" ∉ keys)
  (h : ∀ d d' : Document, d.toValue.without keys = d'.toValue.without keys →
    text ⟨direction, keys⟩ d = text ⟨direction, keys⟩ d')
include htables h

/-- Tables that are drawn as they are look alike when their views are equal. -/
theorem draw_eq_of_determined {t t' : Table}
    (hview : t.toValue.without keys = t'.toValue.without keys)
    (ht : (t.redact keys).retype (drawnType keys) = t)
    (ht' : (t'.redact keys).retype (drawnType keys) = t') :
    draw direction ⟨[t]⟩ = draw direction ⟨[t']⟩ := by
  have hdrawn : ∀ t : Table, (t.redact keys).retype (drawnType keys) = t →
      text ⟨direction, keys⟩ ⟨[t]⟩ = draw direction ⟨[t]⟩ := by
    intro t ht
    rw [text_eq_draw]
    simp [drawn, Document.redact, Document.retype, htables, ht]
  rw [← hdrawn t ht, ← hdrawn t' ht']
  refine h _ _ ?_
  simp [Document.toValue, Value.without_record, Value.fieldsWithout_cons, Value.without,
    Value.itemsWithout, hview]

theorem tablename_not_mem : "tablename" ∉ keys := by
  intro hmem
  have hdrawn : ∀ name, ((bareTable name).redact keys).retype (drawnType keys) = bareTable name :=
    fun name => by simp [bareTable, Table.redact, Table.retype]
  have hview : (bareTable "a").toValue.without keys = (bareTable "b").toValue.without keys := by
    simp [bareTable, Table.toValue, Value.without_record, Value.fieldsWithout_cons, hmem]
  have hdraw := draw_eq_of_determined htables h hview (hdrawn _) (hdrawn _)
  exact absurd hdraw (by cases direction <;> decide)

theorem columnname_not_mem (hcolumns : "columns" ∉ keys) : "columnname" ∉ keys := by
  intro hmem
  have hdrawn : ∀ name, ((oneColumn name).redact keys).retype (drawnType keys) = oneColumn name :=
    fun name => by
      simp [oneColumn, bareTable, Table.redact, Table.retype, Column.retype, drawnType, hcolumns]
  have hcolumn : (Column.mk "a" "" false).toValue.without keys =
      (Column.mk "b" "" false).toValue.without keys := by
    simp [Column.toValue, Value.without_record, Value.fieldsWithout_cons, hmem]
  have hview : (oneColumn "a").toValue.without keys = (oneColumn "b").toValue.without keys := by
    simp [oneColumn, bareTable, Table.toValue, Value.without_record, Value.fieldsWithout_cons,
      Value.without, Value.itemsWithout, hcolumn]
  have hdraw := draw_eq_of_determined htables h hview (hdrawn _) (hdrawn _)
  exact absurd hdraw (by cases direction <;> decide)

theorem keyFields_not_mem (hkeys : "foreign_keys" ∉ keys) :
    "targettable" ∉ keys ∧ "sourcecolumns" ∉ keys ∧ "targetcolumns" ∉ keys := by
  have hdrawn : ∀ k, ((oneKey k).redact keys).retype (drawnType keys) = oneKey k :=
    fun k => by simp [oneKey, bareTable, Table.redact, Table.retype, hkeys]
  have hdraw : ∀ k k' : ForeignKey, k.toValue.without keys = k'.toValue.without keys →
      draw direction ⟨[oneKey k]⟩ = draw direction ⟨[oneKey k']⟩ := by
    intro k k' hk
    refine draw_eq_of_determined htables h ?_ (hdrawn _) (hdrawn _)
    simp [oneKey, bareTable, Table.toValue, Value.without_record, Value.fieldsWithout_cons,
      Value.without, Value.itemsWithout, hk]
  refine ⟨fun hmem => ?_, fun hmem => ?_, fun hmem => ?_⟩
  · have hlike := hdraw ⟨"", [], "a", []⟩ ⟨"", [], "b", []⟩ (by
      simp [ForeignKey.toValue, Value.without_record, Value.fieldsWithout_cons, hmem])
    exact absurd hlike (by cases direction <;> decide)
  · have hlike := hdraw ⟨"", ["a"], "", []⟩ ⟨"", ["b"], "", []⟩ (by
      simp [ForeignKey.toValue, Value.without_record, Value.fieldsWithout_cons, hmem])
    exact absurd hlike (by cases direction <;> decide)
  · have hlike := hdraw ⟨"", [], "", ["a"]⟩ ⟨"", [], "", ["b"]⟩ (by
      simp [ForeignKey.toValue, Value.without_record, Value.fieldsWithout_cons, hmem])
    exact absurd hlike (by cases direction <;> decide)

end Determined

/-- **What the diagram shows beyond the view.** The view determines the text of the diagram exactly
if no name that is drawn has an omitted key: the name of a table, and the names of columns and in
foreign keys unless all columns or all foreign keys are left out. -/
theorem text_determined_by_view_iff (direction : Direction) (keys : List String) :
    (∀ d d' : Document, d.toValue.without keys = d'.toValue.without keys →
      text ⟨direction, keys⟩ d = text ⟨direction, keys⟩ d') ↔
    "tables" ∈ keys ∨ "tablename" ∉ keys ∧ ("columns" ∈ keys ∨ "columnname" ∉ keys) ∧
      ("foreign_keys" ∈ keys ∨
        "targettable" ∉ keys ∧ "sourcecolumns" ∉ keys ∧ "targetcolumns" ∉ keys) := by
  constructor
  · intro h
    rw [or_iff_not_imp_left, or_iff_not_imp_left, or_iff_not_imp_left]
    exact fun htables => ⟨tablename_not_mem htables h, columnname_not_mem htables h,
      keyFields_not_mem htables h⟩
  · exact fun hkeys d d' h => text_of_view_eq h hkeys

/-- Two documents whose views without the names of tables are equal, and whose diagrams without
these names differ. -/
theorem omitted_tablename_is_drawn :
    (Document.mk [bareTable "a"]).toValue.without ["tablename"] =
        (Document.mk [bareTable "b"]).toValue.without ["tablename"] ∧
      text ⟨.topDown, ["tablename"]⟩ ⟨[bareTable "a"]⟩ ≠
        text ⟨.topDown, ["tablename"]⟩ ⟨[bareTable "b"]⟩ := by
  refine ⟨?_, by decide⟩
  simp [bareTable, Document.toValue, Table.toValue, Value.without_record, Value.fieldsWithout_cons,
    Value.without, Value.itemsWithout]

end Diagram

end SchemaShaper

import SchemaShaper.Document.Interchange
import SchemaShaper.Proofs.Value.Records

/-!
# Views of a document

The view of a document is its interchange form without the omitted keys. As long as no omitted key
is one that its records need, the view is read back as a document: the tables, or the parts of a
table, whose key is omitted are missing, and everything else is as it was
(`Document.ofValue?_view`).

Two documents with the same view agree on everything whose key is not omitted, part by part
(`Table.name_eq_of_view_eq` and its siblings); this needs no assumption about the keys.
-/

namespace SchemaShaper

/-- The keys of the fields that every table, column and foreign key has. -/
def requiredKeys : List String :=
  ["tablename", "columnname", "type", "nullable", "fkname", "sourcecolumns", "targettable",
    "targetcolumns"]

/-- The fields of a table. -/
def Table.fields (t : Table) : List (String × Value) :=
  [("tablename", .text t.name), ("columns", .sequence (t.columns.map Column.toValue))]
    ++ (match t.primaryKey with
      | none => []
      | some names => [("primary_key", .texts names)])
    ++ match t.foreignKeys with
      | none => []
      | some keys => [("foreign_keys", .sequence (keys.map ForeignKey.toValue))]

theorem Table.toValue_eq_record (t : Table) : t.toValue = .record t.fields := rfl

section Fields

variable (t : Table)

theorem Table.nodup_fields : (t.fields.map (·.1)).Nodup := by
  obtain ⟨name, columns, primaryKey, foreignKeys⟩ := t
  cases primaryKey <;> cases foreignKeys <;> simp [Table.fields]

theorem Table.lookup_name : t.fields.lookup "tablename" = some (.text t.name) := rfl

theorem Table.lookup_columns :
    t.fields.lookup "columns" = some (.sequence (t.columns.map Column.toValue)) := rfl

theorem Table.lookup_primaryKey :
    t.fields.lookup "primary_key" = t.primaryKey.map .texts := by
  obtain ⟨name, columns, primaryKey, foreignKeys⟩ := t
  cases primaryKey <;> cases foreignKeys <;> rfl

theorem Table.lookup_foreignKeys :
    t.fields.lookup "foreign_keys" =
      t.foreignKeys.map fun keys => .sequence (keys.map ForeignKey.toValue) := by
  obtain ⟨name, columns, primaryKey, foreignKeys⟩ := t
  cases primaryKey <;> cases foreignKeys <;> rfl

end Fields

/-! ## Reading a view -/

/-- The table without the parts whose keys are omitted. -/
def Table.redact (keys : List String) (t : Table) : Table where
  name := t.name
  columns := if keys.contains "columns" then [] else t.columns
  primaryKey := if keys.contains "primary_key" then none else t.primaryKey
  foreignKeys := if keys.contains "foreign_keys" then none else t.foreignKeys

/-- The document without the parts whose keys are omitted. -/
def Document.redact (keys : List String) (d : Document) : Document :=
  ⟨if keys.contains "tables" then [] else d.tables.map (Table.redact keys)⟩

/-- Only the keys of these parts count. -/
theorem Document.redact_congr {keys keys' : List String}
    (h : ∀ key ∈ ["tables", "columns", "primary_key", "foreign_keys"], key ∈ keys ↔ key ∈ keys')
    (d : Document) : d.redact keys = d.redact keys' := by
  have hcontains : ∀ key ∈ ["tables", "columns", "primary_key", "foreign_keys"],
      keys.contains key = keys'.contains key := fun key hkey => by
    rw [Bool.eq_iff_iff, List.contains_iff_mem, List.contains_iff_mem]
    exact h key hkey
  have htable : Table.redact keys = Table.redact keys' := by
    funext t
    unfold Table.redact
    rw [hcontains "columns" (by decide), hcontains "primary_key" (by decide),
      hcontains "foreign_keys" (by decide)]
  unfold Document.redact
  rw [htable, hcontains "tables" (by decide)]

section Reading

variable {keys : List String}

theorem Column.read_toValue (c : Column) : Column.read Value.access c.toValue = some c := by
  simp [Column.read, Column.toValue, Access.required, Access.field?]

theorem ForeignKey.read_toValue (k : ForeignKey) :
    ForeignKey.read Value.access k.toValue = some k := by
  simp [ForeignKey.read, ForeignKey.toValue, Access.required, Access.field?]

theorem Column.without_toValue (hneeded : ∀ key ∈ requiredKeys, key ∉ keys) (c : Column) :
    c.toValue.without keys = c.toValue := by
  refine Value.without_record_eq_self ?_
  simp only [requiredKeys, List.forall_mem_cons] at hneeded
  simp [hneeded, Value.without]

theorem ForeignKey.without_toValue (hneeded : ∀ key ∈ requiredKeys, key ∉ keys) (k : ForeignKey) :
    k.toValue.without keys = k.toValue := by
  refine Value.without_record_eq_self ?_
  simp only [requiredKeys, List.forall_mem_cons] at hneeded
  simp [hneeded, Value.without]

theorem Table.read_view (hneeded : ∀ key ∈ requiredKeys, key ∉ keys) (t : Table) :
    Table.read Value.access (t.toValue.without keys) = some (t.redact keys) := by
  have hfield := Value.field?_fieldsWithout keys t.nodup_fields
  have hname : Value.access.required "tablename" Value.access.text
      (Value.fieldsWithout keys t.fields) = some t.name := by
    have hmem : "tablename" ∉ keys := hneeded _ (by decide)
    simp [Access.required, hfield, hmem, t.lookup_name, Value.without]
  have hcolumns : Value.access.defaulted "columns" (Value.access.list (Column.read Value.access)) []
      (Value.fieldsWithout keys t.fields) = some (t.redact keys).columns := by
    have hlist : Value.access.list (Column.read Value.access)
        (.sequence (t.columns.map fun c => c.toValue.without keys)) = some t.columns :=
      Value.list_sequence_self _ fun c => by rw [c.without_toValue hneeded, c.read_toValue]
    unfold Access.defaulted Table.redact
    rw [hfield, t.lookup_columns, Option.map_some, Value.without_sequence_map]
    cases keys.contains "columns" with
    | true => rfl
    | false => simpa using hlist
  have hprimary : Value.access.optional "primary_key" (Value.access.list Value.access.text)
      (Value.fieldsWithout keys t.fields) = some (t.redact keys).primaryKey := by
    unfold Access.optional Table.redact
    rw [hfield, t.lookup_primaryKey]
    cases keys.contains "primary_key" with
    | true => rfl
    | false => cases t.primaryKey <;> simp
  have hkeys : Value.access.optional "foreign_keys"
      (Value.access.list (ForeignKey.read Value.access)) (Value.fieldsWithout keys t.fields) =
        some (t.redact keys).foreignKeys := by
    have hlist : ∀ foreignKeys : List ForeignKey, Value.access.list (ForeignKey.read Value.access)
        (.sequence (foreignKeys.map fun k => k.toValue.without keys)) = some foreignKeys :=
      fun foreignKeys => Value.list_sequence_self foreignKeys fun k => by
        rw [k.without_toValue hneeded, k.read_toValue]
    unfold Access.optional Table.redact
    rw [hfield, t.lookup_foreignKeys]
    cases keys.contains "foreign_keys" with
    | true => rfl
    | false => cases t.foreignKeys <;> simp [Value.without_sequence_map, hlist]
  rw [t.toValue_eq_record, Value.without_record]
  simp only [Table.read, Value.entries_record, Option.bind_eq_bind, Option.bind_some, hname,
    hcolumns, hprimary, hkeys]
  rfl

/-- **A view is read back.** The omitted parts are missing, and the rest is as it was. -/
theorem Document.ofValue?_view (hneeded : ∀ key ∈ requiredKeys, key ∉ keys) (d : Document) :
    Document.ofValue? (d.toValue.without keys) = some (d.redact keys) := by
  have hnames : (([("tables", Value.sequence (d.tables.map Table.toValue))] :
      List (String × Value)).map (·.1)).Nodup := List.nodup_singleton _
  have hlist : Value.access.list (Table.read Value.access)
      (.sequence (d.tables.map fun t => t.toValue.without keys)) =
        some (d.tables.map (Table.redact keys)) :=
    Value.list_sequence_map _ fun t => t.read_view hneeded
  have htables : Value.access.defaulted "tables" (Value.access.list (Table.read Value.access)) []
      (Value.fieldsWithout keys [("tables", .sequence (d.tables.map Table.toValue))]) =
        some (d.redact keys).tables := by
    unfold Access.defaulted Document.redact
    rw [Value.field?_fieldsWithout keys hnames, List.lookup_cons_self, Option.map_some,
      Value.without_sequence_map]
    cases keys.contains "tables" with
    | true => rfl
    | false => simpa using hlist
  unfold Document.ofValue? Document.toValue
  rw [Value.without_record]
  simp only [Document.read, Value.entries_record, Option.bind_eq_bind, Option.bind_some, htables]
  rfl

end Reading

/-! ## Documents with the same view -/

section SameView

variable {keys : List String} {t t' : Table}

theorem Column.name_eq_of_view_eq {c c' : Column}
    (h : c.toValue.without keys = c'.toValue.without keys) (hkey : "columnname" ∉ keys) :
    c.name = c'.name := by
  have hfield := Value.lookup_eq_of_without_eq h hkey
  simpa [Value.without] using hfield

theorem Column.type_eq_of_view_eq {c c' : Column}
    (h : c.toValue.without keys = c'.toValue.without keys) (hkey : "type" ∉ keys) :
    c.type = c'.type := by
  have hfield := Value.lookup_eq_of_without_eq h hkey
  simpa [List.lookup_cons, Value.without] using hfield

section ForeignKey

variable {k k' : ForeignKey} (h : k.toValue.without keys = k'.toValue.without keys)
include h

theorem ForeignKey.sourceColumns_eq_of_view_eq (hkey : "sourcecolumns" ∉ keys) :
    k.sourceColumns = k'.sourceColumns := by
  have hfield := Value.lookup_eq_of_without_eq h hkey
  simpa [List.lookup_cons, Value.texts_injective.eq_iff] using hfield

theorem ForeignKey.targetTable_eq_of_view_eq (hkey : "targettable" ∉ keys) :
    k.targetTable = k'.targetTable := by
  have hfield := Value.lookup_eq_of_without_eq h hkey
  simpa [List.lookup_cons, Value.without] using hfield

theorem ForeignKey.targetColumns_eq_of_view_eq (hkey : "targetcolumns" ∉ keys) :
    k.targetColumns = k'.targetColumns := by
  have hfield := Value.lookup_eq_of_without_eq h hkey
  simpa [List.lookup_cons, Value.texts_injective.eq_iff] using hfield

end ForeignKey

section Table

variable (h : t.toValue.without keys = t'.toValue.without keys)
include h

theorem Table.lookup_of_view_eq {name : String} (hkey : name ∉ keys) :
    (t.fields.lookup name).map (·.without keys) = (t'.fields.lookup name).map (·.without keys) :=
  Value.lookup_eq_of_without_eq h hkey

theorem Table.name_eq_of_view_eq (hkey : "tablename" ∉ keys) : t.name = t'.name := by
  have hfield := Table.lookup_of_view_eq h hkey
  rw [t.lookup_name, t'.lookup_name] at hfield
  simpa [Value.without] using hfield

theorem Table.columns_of_view_eq (hkey : "columns" ∉ keys) :
    t.columns.map (fun c => c.toValue.without keys) =
      t'.columns.map fun c => c.toValue.without keys := by
  have hfield := Table.lookup_of_view_eq h hkey
  rw [t.lookup_columns, t'.lookup_columns] at hfield
  simpa [Value.without_sequence_map] using hfield

theorem Table.primaryKey_eq_of_view_eq (hkey : "primary_key" ∉ keys) :
    t.primaryKey = t'.primaryKey := by
  have hfield := Table.lookup_of_view_eq h hkey
  rw [t.lookup_primaryKey, t'.lookup_primaryKey, Option.map_map, Option.map_map] at hfield
  have htexts : (fun v => Value.without keys v) ∘ Value.texts = Value.texts :=
    funext (Value.without_texts keys)
  rw [htexts] at hfield
  exact Option.map_injective Value.texts_injective hfield

theorem Table.keys_of_view_eq (hkey : "foreign_keys" ∉ keys) :
    t.keys.map (fun k => k.toValue.without keys) =
      t'.keys.map fun k => k.toValue.without keys := by
  have hfield := Table.lookup_of_view_eq h hkey
  rw [t.lookup_foreignKeys, t'.lookup_foreignKeys] at hfield
  unfold Table.keys
  cases ht : t.foreignKeys <;> cases ht' : t'.foreignKeys <;>
    simp_all [Value.without_sequence_map]

end Table

theorem Document.tables_of_view_eq {d d' : Document}
    (h : d.toValue.without keys = d'.toValue.without keys) (hkey : "tables" ∉ keys) :
    d.tables.map (fun t => t.toValue.without keys) =
      d'.tables.map fun t => t.toValue.without keys := by
  have hfield := Value.lookup_eq_of_without_eq h hkey
  simpa [Value.without_sequence_map] using hfield

end SameView

end SchemaShaper

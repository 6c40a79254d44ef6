import SchemaShaper.Proofs.Document.Views

/-!
# Documents and their interchange forms

The interchange form of a document is the view that omits nothing, so it is read back as the
document (`Document.ofValue?_toValue`). It is also faithful: equal values come from equal documents
only, even where the order of the entries of a mapping does not count (`Document.same_toValue_iff`).
That is shown part by part. Records are the same when their fields are (`Value.same_record_iff`),
lists when their items are, and a table tells an absent list, which has no field, from an empty one.
-/

namespace SchemaShaper

/-! ## Omitting nothing -/

namespace Value

mutual

theorem without_nil : (v : Value) → v.without [] = v
  | null | bool _ | number _ | text _ => rfl
  | sequence items => by rw [without, itemsWithout_nil items]
  | mapping entries => by rw [without, entriesWithout_nil entries]
  | tagged tag v => by rw [without, without_nil v]

theorem itemsWithout_nil : (items : List Value) → itemsWithout [] items = items
  | [] => rfl
  | v :: vs => by rw [itemsWithout, without_nil v, itemsWithout_nil vs]

theorem entriesWithout_nil : (entries : List (Value × Value)) → entriesWithout [] entries = entries
  | [] => rfl
  | (k, v) :: rest => by
    have hkey : isOmitted [] k = false := by
      unfold isOmitted
      cases k.asText? <;> rfl
    rw [entriesWithout, hkey, without_nil v, entriesWithout_nil rest]
    rfl

end

end Value

theorem Table.redact_nil (t : Table) : t.redact [] = t := rfl

theorem Document.redact_nil (d : Document) : d.redact [] = d := by
  have hid : Table.redact [] = id := funext Table.redact_nil
  unfold Document.redact
  rw [hid, List.map_id]
  rfl

theorem Document.ofValue?_toValue (d : Document) : ofValue? d.toValue = some d := by
  have hview := @ofValue?_view [] (fun _ _ => List.not_mem_nil) d
  rwa [Value.without_nil, d.redact_nil] at hview

/-! ## Same values -/

namespace Value

theorem sameEntries_iff {entries others : List (Value × Value)} :
    sameEntries entries others = true ↔
      ∀ entry ∈ entries, ∃ other ∈ others,
        entry.1.same other.1 = true ∧ entry.2.same other.2 = true := by
  induction entries with
  | nil => simp [sameEntries]
  | cons entry entries ih =>
    obtain ⟨k, v⟩ := entry
    rw [sameEntries, Bool.and_eq_true, ih, List.forall_mem_cons, List.any_eq_true]
    simp only [Bool.and_eq_true]

theorem same_text_iff (a b : String) : (text a).same (text b) = true ↔ a = b := by
  rw [same, beq_iff_eq]

/-- Records are the same when they have as many fields, and each field of the first is one of the
second with the same value. -/
theorem same_record_iff {fields others : List (String × Value)} :
    (record fields).same (record others) = true ↔
      fields.length = others.length ∧
        ∀ field ∈ fields, ∃ v, (field.1, v) ∈ others ∧ field.2.same v = true := by
  unfold record
  rw [same, Bool.and_eq_true, sameEntries_iff, beq_iff_eq, List.length_map, List.length_map]
  refine and_congr_right fun _ => ?_
  rw [List.forall_mem_map]
  refine forall₂_congr fun field _ => ?_
  constructor
  · rintro ⟨_, hother, hname, hsame⟩
    obtain ⟨⟨name, v⟩, hmem, rfl⟩ := List.mem_map.1 hother
    obtain rfl := (same_text_iff _ _).1 hname
    exact ⟨v, hmem, hsame⟩
  · rintro ⟨v, hmem, hsame⟩
    exact ⟨_, List.mem_map_of_mem hmem, (same_text_iff _ _).2 rfl, hsame⟩

theorem sameItems_map_iff {α : Type} {f : α → Value}
    (hf : ∀ x y, (f x).same (f y) = true ↔ x = y) (xs ys : List α) :
    sameItems (xs.map f) (ys.map f) = true ↔ xs = ys := by
  induction xs generalizing ys with
  | nil => cases ys <;> simp [sameItems]
  | cons x xs ih =>
    cases ys with
    | nil => simp [sameItems]
    | cons y ys => simp [sameItems, hf, ih]

theorem same_sequence_map_iff {α : Type} {f : α → Value}
    (hf : ∀ x y, (f x).same (f y) = true ↔ x = y) (xs ys : List α) :
    (sequence (xs.map f)).same (sequence (ys.map f)) = true ↔ xs = ys := by
  rw [same, sameItems_map_iff hf]

theorem same_texts_iff (xs ys : List String) : (texts xs).same (texts ys) = true ↔ xs = ys :=
  same_sequence_map_iff same_text_iff xs ys

theorem get?_record (fields : List (String × Value)) (name : String) :
    (record fields).get? name = fields.lookup name := by
  unfold get? record untagged
  induction fields with
  | nil => rfl
  | cons field fields ih =>
    obtain ⟨key, v⟩ := field
    have hsame : (text key).same (text name) = (name == key) := by
      rw [same, Bool.beq_comm]
    simp only [List.map_cons, List.find?_cons, List.lookup_cons, hsame]
    cases name == key with
    | true => rfl
    | false => exact ih

end Value

/-! ## Faithfulness -/

theorem Column.same_toValue_iff (c c' : Column) : c.toValue.same c'.toValue = true ↔ c = c' := by
  obtain ⟨name, type, nullable⟩ := c
  obtain ⟨name', type', nullable'⟩ := c'
  unfold Column.toValue
  rw [Value.same_record_iff]
  simp [Value.same]

theorem ForeignKey.same_toValue_iff (k k' : ForeignKey) :
    k.toValue.same k'.toValue = true ↔ k = k' := by
  obtain ⟨name, sourceColumns, targetTable, targetColumns⟩ := k
  obtain ⟨name', sourceColumns', targetTable', targetColumns'⟩ := k'
  unfold ForeignKey.toValue
  rw [Value.same_record_iff]
  simp [Value.same, Value.same_texts_iff]

theorem Table.same_toValue_iff (t t' : Table) : t.toValue.same t'.toValue = true ↔ t = t' := by
  have hcolumns := Value.same_sequence_map_iff Column.same_toValue_iff t.columns t'.columns
  have hkeys := Value.same_sequence_map_iff ForeignKey.same_toValue_iff
  obtain ⟨name, columns, primaryKey, foreignKeys⟩ := t
  obtain ⟨name', columns', primaryKey', foreignKeys'⟩ := t'
  rw [Table.toValue_eq_record, Table.toValue_eq_record, Value.same_record_iff]
  cases primaryKey <;> cases primaryKey' <;> cases foreignKeys <;> cases foreignKeys' <;>
    simp [Table.fields, Value.same_text_iff, Value.same_texts_iff, hcolumns, hkeys]

theorem Document.same_toValue_iff (d d' : Document) :
    d.toValue.same d'.toValue = true ↔ d = d' := by
  obtain ⟨tables⟩ := d
  obtain ⟨tables'⟩ := d'
  unfold Document.toValue
  rw [Value.same_record_iff]
  simp [Value.same_sequence_map_iff Table.same_toValue_iff]

/-- **Nothing is lost in the interchange form.** It is read back as the document, no other document
has the same one, and a table has an entry for a list exactly when it declares the list, also when
the list is empty. -/
theorem Document.interchange_lossless (d : Document) :
    ofValue? d.toValue = some d ∧ (∀ d', d.toValue.same d'.toValue = true ↔ d = d') ∧
      ∀ t : Table, t.toValue.get? "primary_key" = t.primaryKey.map .texts ∧
        t.toValue.get? "foreign_keys" =
          t.foreignKeys.map fun keys => .sequence (keys.map ForeignKey.toValue) := by
  refine ⟨d.ofValue?_toValue, d.same_toValue_iff, fun t => ⟨?_, ?_⟩⟩
  · rw [t.toValue_eq_record, Value.get?_record, t.lookup_primaryKey]
  · rw [t.toValue_eq_record, Value.get?_record, t.lookup_foreignKeys]

end SchemaShaper

import SchemaShaper.Value.Omission
import SchemaShaper.Value.Record
import Mathlib.Data.List.Nodup

/-!
# Records without some of their fields

Omitting keys takes the fields with these names out of a record and omits the keys in the values of
the fields that are left (`without_record`), and a record whose names differ is read by looking its
fields up. So what is read from a record after an omission is what is read from the record, field by
field: a field with an omitted name is missing, and every other one holds its value without the keys
(`lookup_fieldsWithout`).
-/

namespace SchemaShaper

/-! ## Omitting keys in a record -/

namespace Value

/-- The fields that are left when keys are omitted, with what is left of their values. -/
def fieldsWithout (keys : List String) (fields : List (String × Value)) : List (String × Value) :=
  (fields.filter fun field => !keys.contains field.1).map fun field =>
    (field.1, field.2.without keys)

section Omission

variable {keys : List String} {fields fields' : List (String × Value)} {name : String}

theorem fieldsWithout_cons (keys : List String) (field : String × Value)
    (fields : List (String × Value)) :
    fieldsWithout keys (field :: fields) =
      if keys.contains field.1 then fieldsWithout keys fields
      else (field.1, field.2.without keys) :: fieldsWithout keys fields := by
  unfold fieldsWithout
  rw [List.filter_cons]
  cases keys.contains field.1 <;> rfl

theorem without_record (keys : List String) (fields : List (String × Value)) :
    (record fields).without keys = record (fieldsWithout keys fields) := by
  have hentries : entriesWithout keys (fields.map fun field => (text field.1, field.2)) =
      (fieldsWithout keys fields).map fun field => (text field.1, field.2) := by
    induction fields with
    | nil => rfl
    | cons field fields ih =>
      have homitted : isOmitted keys (text field.1) = keys.contains field.1 := rfl
      rw [List.map_cons, entriesWithout, homitted, ih, fieldsWithout_cons]
      cases keys.contains field.1 <;> rfl
  rw [record, without, hentries]
  rfl

theorem itemsWithout_eq_map (keys : List String) (items : List Value) :
    itemsWithout keys items = items.map (·.without keys) := by
  induction items with
  | nil => rfl
  | cons item items ih => rw [itemsWithout, ih, List.map_cons]

theorem without_sequence_map {α : Type} (keys : List String) (f : α → Value) (xs : List α) :
    (sequence (xs.map f)).without keys = sequence (xs.map fun x => (f x).without keys) := by
  rw [without, itemsWithout_eq_map, List.map_map]
  rfl

@[simp]
theorem without_texts (keys names : List String) : (texts names).without keys = texts names := by
  rw [texts, without_sequence_map]
  simp only [without]

theorem texts_injective : Function.Injective texts := fun _ _ h =>
  List.map_injective_iff.2 (fun _ _ h => text.inj h) (sequence.inj h)

theorem lookup_fieldsWithout (keys : List String) (name : String)
    (fields : List (String × Value)) :
    (fieldsWithout keys fields).lookup name =
      if keys.contains name then none else (fields.lookup name).map (·.without keys) := by
  induction fields with
  | nil => simp [fieldsWithout]
  | cons field fields ih =>
    obtain ⟨key, v⟩ := field
    rw [fieldsWithout_cons, apply_ite (List.lookup name), List.lookup_cons, List.lookup_cons, ih]
    by_cases hname : name = key
    · subst hname
      cases keys.contains name <;> simp
    · have hbeq : (name == key) = false := beq_false_of_ne hname
      cases keys.contains key <;> simp [hbeq]

/-- Records that are equal without the keys hold the same under every other name. -/
theorem lookup_eq_of_without_eq (h : (record fields).without keys = (record fields').without keys)
    (hname : name ∉ keys) :
    (fields.lookup name).map (·.without keys) = (fields'.lookup name).map (·.without keys) := by
  have hinjective : Function.Injective fun field : String × Value => (text field.1, field.2) := by
    rintro ⟨key, v⟩ ⟨key', v'⟩ heq
    cases heq
    rfl
  rw [without_record, without_record] at h
  have hfields := List.map_injective_iff.2 hinjective (mapping.inj h)
  have hlookup := congrArg (List.lookup name) hfields
  simpa [lookup_fieldsWithout, hname] using hlookup

/-- Nothing changes when no name and no value knows the keys. -/
theorem without_record_eq_self
    (h : ∀ field ∈ fields, field.1 ∉ keys ∧ field.2.without keys = field.2) :
    (record fields).without keys = record fields := by
  have hfilter : fields.filter (fun field => !keys.contains field.1) = fields :=
    List.filter_eq_self.2 fun field hfield => by simpa using (h field hfield).1
  have hmap : fields.map (fun field => (field.1, field.2.without keys)) = fields := by
    conv_rhs => rw [← List.map_id fields]
    exact List.map_congr_left fun field hfield => Prod.ext rfl (h field hfield).2
  rw [without_record, fieldsWithout, hfilter, hmap]

end Omission

end Value

/-! ## Reading fields -/

namespace Access

section Fields

variable {m : Type → Type} [Monad m] {α : Type} {a : Access m α} {name : String}
  {fields : List (String × α)}

theorem filter_name_eq (hnames : (fields.map (·.1)).Nodup) :
    fields.filter (·.1 == name) = (fields.lookup name).toList.map (name, ·) := by
  induction fields with
  | nil => rfl
  | cons field fields ih =>
    obtain ⟨key, v⟩ := field
    obtain ⟨hkey, hnames⟩ := List.nodup_cons.1 hnames
    by_cases h : key = name
    · subst h
      have hrest : fields.filter (·.1 == key) = [] := by
        refine List.filter_eq_nil_iff.2 fun field hfield heq => hkey ?_
        exact List.mem_map.2 ⟨field, hfield, beq_iff_eq.1 heq⟩
      simp [hrest]
    · have hbeq : (name == key) = false := beq_false_of_ne (Ne.symm h)
      rw [List.filter_cons_of_neg (by simpa using h), ih hnames, List.lookup_cons, hbeq]

theorem field?_eq_lookup (hnames : (fields.map (·.1)).Nodup) :
    a.field? name fields = pure (fields.lookup name) := by
  unfold field?
  rw [filter_name_eq hnames]
  cases fields.lookup name <;> rfl

end Fields

end Access

namespace Value

theorem nodup_fieldsWithout {fields : List (String × Value)} (keys : List String)
    (hnames : (fields.map (·.1)).Nodup) : ((fieldsWithout keys fields).map (·.1)).Nodup := by
  have hmap : (fieldsWithout keys fields).map (·.1) =
      (fields.filter fun field => !keys.contains field.1).map (·.1) := by
    rw [fieldsWithout, List.map_map]
    rfl
  rw [hmap]
  exact hnames.sublist (List.filter_sublist.map _)

/-- A field with an omitted name is missing; any other one holds its value without the keys. -/
theorem field?_fieldsWithout {fields : List (String × Value)} (keys : List String)
    (hnames : (fields.map (·.1)).Nodup) (name : String) :
    access.field? name (fieldsWithout keys fields) =
      some (if keys.contains name then none else (fields.lookup name).map (·.without keys)) := by
  rw [Access.field?_eq_lookup (nodup_fieldsWithout keys hnames), lookup_fieldsWithout]
  rfl

@[simp]
theorem entries_record (names : List String) (fields : List (String × Value)) :
    access.entries names (record fields) = some fields := by
  have htexts : textEntries? (fields.map fun field => (text field.1, field.2)) = some fields := by
    induction fields with
    | nil => rfl
    | cons field fields ih => simp [textEntries?, asText?, ih]
  exact htexts

@[simp]
theorem access_text (s : String) : access.text (text s) = some s := rfl

@[simp]
theorem access_flag (b : Bool) : access.flag (bool b) = some b := rfl

@[simp]
theorem access_present_sequence (items : List Value) :
    access.present? (sequence items) = some (some (sequence items)) := rfl

@[simp]
theorem access_present_texts (names : List String) :
    access.present? (texts names) = some (some (texts names)) := rfl

/-- A list is read when its items are. -/
theorem list_sequence_map {α β : Type} {f : α → Value} {read : Value → Option β} {g : α → β}
    (xs : List α) (h : ∀ x, read (f x) = some (g x)) :
    access.list read (sequence (xs.map f)) = some (xs.map g) := by
  have hitems : (xs.map f).mapM read = some (xs.map g) := by
    induction xs with
    | nil => rfl
    | cons x xs ih => simp [h, ih]
  exact hitems

theorem list_sequence_self {α : Type} {f : α → Value} {read : Value → Option α} (xs : List α)
    (h : ∀ x, read (f x) = some x) : access.list read (sequence (xs.map f)) = some xs := by
  have hlist : access.list read (sequence (xs.map f)) = some (xs.map id) := list_sequence_map xs h
  rwa [List.map_id] at hlist

@[simp]
theorem list_texts (names : List String) : access.list access.text (texts names) = some names :=
  list_sequence_self names fun _ => rfl

end Value

end SchemaShaper

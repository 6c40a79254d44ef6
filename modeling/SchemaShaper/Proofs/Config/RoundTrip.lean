import SchemaShaper.Config.Json
import SchemaShaper.Proofs.Json.RoundTrip
import SchemaShaper.Proofs.Value.Records

/-!
# Settings are read back from what is left of them

The JSON form of settings may lose any of its keys, and any of those of the diagram, and get keys
that settings do not know, in any order (`Json.Edited`). What is read from it are the settings, but
for the ones whose keys are gone: these have their defaults (`Config.withDefaults`).

Reading looks up every known name, and an edit leaves for it what stood there, or nothing if the
name was deleted (`Json.Edited.exists_kept`). So each setting is read by itself, first those of the
diagram and then all of them. On the way through a text nothing changes, as written JSON is read
back (`Json.parse?_pretty`).
-/

namespace SchemaShaper

/-! ## Fields in any order -/

namespace Access

variable {m : Type → Type} [Monad m] {α : Type} {a : Access m α} {name : String}
  {fields : List (String × α)}

theorem field?_of_perm {source? : Option α}
    (h : (fields.filter (·.1 == name)).Perm (source?.toList.map (name, ·))) :
    a.field? name fields = pure source? := by
  unfold field?
  cases source? with
  | none => rw [h.eq_nil]
  | some source => rw [h.eq_singleton]

end Access

/-! ## Edited objects -/

namespace Json

/-- The object `j'` is what an edit leaves of the object `j`: the fields with a name in `deleted`
are taken out, and fields with names that are not in `known` are put in. The order does not
count. -/
def Edited (known deleted : List String) (j j' : Json) : Prop :=
  ∃ fields added fields' : List (String × Json), j = record fields ∧ j' = record fields' ∧
    (∀ field ∈ added, field.1 ∉ known) ∧
    fields'.Perm (fields.filter (fun field => !deleted.contains field.1) ++ added)

/-- An object with another value under a name that it has. -/
def setMember (j : Json) (name : String) (value : Json) : Json :=
  match j with
  | object members =>
    object (members.map fun (k, v) => (k, if k == some name then value else v))
  | j => j

theorem namedMembers?_named (fields : List (String × Json)) :
    namedMembers? (named fields) = some fields := by
  induction fields with
  | nil => rfl
  | cons field fields ih =>
    have hstep : namedMembers? (named (field :: fields)) =
        (namedMembers? (named fields)).bind fun rest => some (field :: rest) := rfl
    rw [hstep, ih, Option.bind_some]

theorem record_injective : Function.Injective record := by
  intro fields fields' h
  have hmembers : named fields = named fields' := object.inj h
  have hfields := congrArg namedMembers? hmembers
  rwa [namedMembers?_named, namedMembers?_named, Option.some_inj] at hfields

@[simp]
theorem entries_record (names : List String) (fields : List (String × Json)) :
    access.entries names (record fields) = some fields :=
  namedMembers?_named fields

theorem text?_string (s : String) : text? (string s) = some s := rfl

theorem list_strings (names : List String) :
    access.list text? (array (names.map string)) = some names := by
  have hitems : (names.map string).mapM text? = some names := by
    induction names with
    | nil => rfl
    | cons name names ih => simp [string, text?, ih]
  exact hitems

section Edited

variable {known deleted : List String} {fields : List (String × Json)} {j : Json}

theorem edited_refl (known : List String) (fields : List (String × Json)) :
    (record fields).Edited known [] (record fields) :=
  ⟨fields, [], fields, rfl, rfl, fun _ h => absurd h List.not_mem_nil, by simp⟩

theorem filter_name_of_deleted {name : String} (hnames : (fields.map (·.1)).Nodup) :
    (fields.filter fun field => !deleted.contains field.1).filter (·.1 == name) =
      (if deleted.contains name then none else fields.lookup name).toList.map (name, ·) := by
  have hboth : ∀ field : String × Json, (field.1 == name && !deleted.contains field.1) =
      (field.1 == name && !deleted.contains name) := by
    intro field
    by_cases h : field.1 = name
    · rw [h]
    · rw [beq_false_of_ne h, Bool.false_and, Bool.false_and]
  simp only [List.filter_filter, hboth]
  cases deleted.contains name with
  | true => simp
  | false => simp [Access.filter_name_eq hnames]

/-- Under each known name the fields `fields'` hold what `fields` hold, unless the name was
deleted. -/
def Kept (known deleted : List String) (fields fields' : List (String × Json)) : Prop :=
  ∀ name ∈ known, access.field? name fields' =
    some (if deleted.contains name then none else fields.lookup name)

/-- What an edit leaves of a record is a record that keeps what stood under the known names. -/
theorem Edited.exists_kept (h : (record fields).Edited known deleted j)
    (hnames : (fields.map (·.1)).Nodup) :
    ∃ fields', j = record fields' ∧ Kept known deleted fields fields' := by
  obtain ⟨_, added, fields', hfields, rfl, hadded, hperm⟩ := h
  obtain rfl := record_injective hfields
  refine ⟨fields', rfl, fun name hname => ?_⟩
  have hadded : added.filter (·.1 == name) = [] :=
    List.filter_eq_nil_iff.2 fun field hfield heq =>
      hadded field hfield (beq_iff_eq.1 heq ▸ hname)
  have hname := hperm.filter (·.1 == name)
  rw [List.filter_append, hadded, List.append_nil, filter_name_of_deleted hnames] at hname
  exact Access.field?_of_perm hname

namespace Kept

variable {fields' : List (String × Json)} {α : Type} {read : Json → Option α}
  (h : Kept known deleted fields fields') (name : String) (hname : name ∈ known)
include h hname

/-- A setting that was deleted has its default, and any other one is what it was. -/
theorem defaulted {source : Json} {x : α} (default : α)
    (hlookup : fields.lookup name = some source) (hread : read source = some x) :
    access.defaulted name read default fields' =
      some (if deleted.contains name then default else x) := by
  unfold Access.defaulted
  rw [h name hname, hlookup]
  cases deleted.contains name with
  | true => rfl
  | false => exact hread

/-- In the same way, a setting that may be absent. -/
theorem optional {write : α → Json} {x? : Option α}
    (hlookup : fields.lookup name = x?.map write)
    (hpresent : ∀ x, access.present? (write x) = some (some (write x)))
    (hread : ∀ x, read (write x) = some x) :
    access.optional name read fields' = some (if deleted.contains name then none else x?) := by
  unfold Access.optional
  rw [h name hname, hlookup]
  cases deleted.contains name with
  | true => rfl
  | false =>
    cases x? with
    | none => rfl
    | some x => simp [hpresent, hread]

end Kept

end Edited

end Json

/-! ## Choices -/

@[simp]
theorem Direction.ofJson?_string (d : Direction) : ofJson? (.string d.name) = some d := by
  cases d <;> rfl

@[simp]
theorem Format.ofJson?_string (f : Format) : ofJson? (.string f.name) = some f := by
  cases f <;> rfl

/-! ## Settings of the diagram -/

namespace DiagramConfig

/-- The names of the diagram's settings. -/
def fieldNames : List String := ["direction", "output"]

/-- The fields that the diagram's settings are written as. -/
def fields (d : DiagramConfig) : List (String × Json) :=
  ("direction", .string d.direction.name) ::
    (d.output.map fun path => ("output", .string path)).toList

/-- The diagram's settings, with defaults for the ones whose names were deleted. -/
def withDefaults (deleted : List String) (d : DiagramConfig) : DiagramConfig :=
  let default : DiagramConfig := {}
  { direction := if deleted.contains "direction" then default.direction else d.direction
    output := if deleted.contains "output" then default.output else d.output }

variable {d : DiagramConfig} {deleted : List String} {j : Json}

theorem toJson_eq (d : DiagramConfig) : d.toJson = .record d.fields := by
  obtain ⟨direction, output⟩ := d
  cases output <;> rfl

theorem nodup_fields (d : DiagramConfig) : (d.fields.map (·.1)).Nodup := by
  obtain ⟨direction, output⟩ := d
  cases output <;> simp [fields]

theorem lookup_output (d : DiagramConfig) :
    d.fields.lookup "output" = d.output.map Json.string := by
  obtain ⟨direction, output⟩ := d
  cases output <;> rfl

theorem ofJson?_of_edited (h : d.toJson.Edited fieldNames deleted j) :
    ofJson? j = some (d.withDefaults deleted) := by
  rw [toJson_eq] at h
  obtain ⟨fields, rfl, hkept⟩ := h.exists_kept d.nodup_fields
  have hdirection := hkept.defaulted "direction" (by decide) .topDown rfl
    (Direction.ofJson?_string d.direction)
  have houtput := hkept.optional "output" (by decide) d.lookup_output (fun _ => rfl)
    Json.text?_string
  unfold ofJson?
  rw [Json.entries_record, Option.bind_eq_bind, Option.bind_some, hdirection, houtput]
  rfl

theorem writable_toJson (d : DiagramConfig) : d.toJson.Writable := by
  rw [toJson_eq]
  refine .record fun field hfield => ?_
  rcases List.mem_cons.1 hfield with rfl | hfield
  · exact .string _
  · obtain ⟨path, -, rfl⟩ := Option.map_eq_some_iff.1 (Option.mem_toList.1 hfield)
    exact .string path

end DiagramConfig

/-! ## Settings -/

namespace Config

/-- The fields that settings are written as, with the given form of the diagram's. -/
def fields (c : Config) (diagram : Json) : List (String × Json) :=
  let paths (names : List String) : Json := .array (names.map Json.string)
  [("schema", .string c.schema),
    ("transforms", paths c.transforms),
    ("foreignKeys", paths c.foreignKeys),
    ("omitTags", paths c.omitTags),
    ("output", .string c.output),
    ("outputFormat", .string c.outputFormat.name),
    ("diagram", diagram)]

/-- The settings, with defaults for the ones whose names were deleted, of all settings or of the
diagram's. -/
def withDefaults (deleted diagramDeleted : List String) (c : Config) : Config :=
  let default : Config := {}
  { schema := if deleted.contains "schema" then default.schema else c.schema
    transforms := if deleted.contains "transforms" then default.transforms else c.transforms
    foreignKeys := if deleted.contains "foreignKeys" then default.foreignKeys else c.foreignKeys
    omitTags := if deleted.contains "omitTags" then default.omitTags else c.omitTags
    output := if deleted.contains "output" then default.output else c.output
    outputFormat := if deleted.contains "outputFormat" then default.outputFormat else c.outputFormat
    diagram := if deleted.contains "diagram" then default.diagram
      else c.diagram.withDefaults diagramDeleted }

variable {c : Config} {deleted diagramDeleted : List String} {diagram j : Json}

theorem toJson_eq (c : Config) : c.toJson = .record (c.fields c.diagram.toJson) := rfl

theorem setMember_toJson (c : Config) (diagram : Json) :
    c.toJson.setMember "diagram" diagram = .record (c.fields diagram) := rfl

theorem nodup_fields (c : Config) (diagram : Json) : ((c.fields diagram).map (·.1)).Nodup := by
  have hnames : (c.fields diagram).map (·.1) = fieldNames := rfl
  rw [hnames]
  decide

theorem ofJson?_of_edited
    (hdiagram : c.diagram.toJson.Edited DiagramConfig.fieldNames diagramDeleted diagram)
    (h : (c.toJson.setMember "diagram" diagram).Edited fieldNames deleted j) :
    ofJson? j = some (c.withDefaults deleted diagramDeleted) := by
  rw [setMember_toJson] at h
  obtain ⟨fields, rfl, hkept⟩ := h.exists_kept (c.nodup_fields diagram)
  unfold ofJson?
  rw [Json.entries_record, Option.bind_eq_bind, Option.bind_some]
  dsimp only
  rw [hkept.defaulted "schema" (by decide) _ rfl (Json.text?_string _),
    hkept.defaulted "transforms" (by decide) _ rfl (Json.list_strings _),
    hkept.defaulted "foreignKeys" (by decide) _ rfl (Json.list_strings _),
    hkept.defaulted "omitTags" (by decide) _ rfl (Json.list_strings _),
    hkept.defaulted "output" (by decide) _ rfl (Json.text?_string _),
    hkept.defaulted "outputFormat" (by decide) _ rfl (Format.ofJson?_string _),
    hkept.defaulted "diagram" (by decide) _ rfl (DiagramConfig.ofJson?_of_edited hdiagram)]
  rfl

theorem writable_paths (names : List String) : (Json.array (names.map Json.string)).Writable := by
  refine .array fun v hv => ?_
  obtain ⟨name, -, rfl⟩ := List.mem_map.1 hv
  exact .string name

theorem writable_toJson (c : Config) : c.toJson.Writable := by
  have hdiagram : c.diagram.toJson.Writable := c.diagram.writable_toJson
  refine .record fun field hfield => ?_
  simp only [List.mem_cons, List.not_mem_nil, or_false] at hfield
  rcases hfield with rfl | rfl | rfl | rfl | rfl | rfl | rfl
  · exact .string _
  · exact writable_paths _
  · exact writable_paths _
  · exact writable_paths _
  · exact .string _
  · exact .string _
  · exact hdiagram

/-- **Settings are read back from what is left of them.** -/
theorem edited_reads_back (c : Config) :
    parse? c.text = some c ∧
      ∀ {deleted diagramDeleted : List String} {diagram j : Json},
        c.diagram.toJson.Edited DiagramConfig.fieldNames diagramDeleted diagram →
        (c.toJson.setMember "diagram" diagram).Edited fieldNames deleted j →
        ofJson? j = some (c.withDefaults deleted diagramDeleted) ∧
          (j.Writable → parse? j.pretty = some (c.withDefaults deleted diagramDeleted)) := by
  have hparse {j : Json} (h : j.Writable) : parse? j.pretty = ofJson? j := by
    rw [parse?, Json.parse?_pretty h, Option.bind_some]
  refine ⟨?_, fun hdiagram h => ?_⟩
  · have hdiagram : c.diagram.toJson.Edited DiagramConfig.fieldNames [] c.diagram.toJson := by
      rw [DiagramConfig.toJson_eq]
      exact Json.edited_refl _ _
    have h : (c.toJson.setMember "diagram" c.diagram.toJson).Edited fieldNames [] c.toJson := by
      rw [setMember_toJson, toJson_eq]
      exact Json.edited_refl _ _
    rw [text, hparse c.writable_toJson]
    exact ofJson?_of_edited hdiagram h
  · have hread := ofJson?_of_edited hdiagram h
    exact ⟨hread, fun hwritable => (hparse hwritable).trans hread⟩

/-- Settings that are all different from their defaults. -/
def reports : Config where
  schema := "db/schema.json"
  transforms := ["steps.yaml", "more steps.yaml"]
  foreignKeys := ["keys.txt"]
  omitTags := ["tags.txt"]
  output := "build/schema.json"
  outputFormat := .json
  diagram := { direction := .leftRight, output := some "build/er.mmd" }

/-- What is left of the diagram's settings without their path, behind a key of another program. -/
def reportsDiagram : Json :=
  .record ([("theme", .string "dark \"blue\"")] ++ [("direction", .string "LR")])

/-- What is left of the settings without three of them, behind keys of other programs. -/
def reportsLeft : Json :=
  .record ([("$schema", .string "relform.schema.json"), ("version", .number "1.5")] ++
    [("transforms", .array [.string "steps.yaml", .string "more steps.yaml"]),
      ("foreignKeys", .array [.string "keys.txt"]),
      ("output", .string "build/schema.json"),
      ("diagram", reportsDiagram)])

theorem writable_reportsLeft : reportsLeft.Writable := by
  have hwhole : Json.IsWhole ['1'] := .digits rfl (by decide) fun _ h => absurd h List.not_mem_nil
  have hfraction : Json.IsFraction ['.', '5'] :=
    .digits (List.cons_ne_nil _ _) (List.forall_mem_singleton.2 rfl)
  have hversion : (Json.number "1.5").Writable :=
    .number (.parts (Or.inl rfl) hwhole hfraction .absent)
  have hdiagram : reportsDiagram.Writable := by
    refine .record fun field hfield => ?_
    simp only [List.mem_append, List.mem_singleton] at hfield
    rcases hfield with rfl | rfl <;> exact .string _
  refine .record fun field hfield => ?_
  simp only [List.mem_append, List.mem_cons, List.not_mem_nil, or_false] at hfield
  rcases hfield with (rfl | rfl) | rfl | rfl | rfl | rfl
  · exact .string _
  · exact hversion
  · exact writable_paths ["steps.yaml", "more steps.yaml"]
  · exact writable_paths ["keys.txt"]
  · exact .string _
  · exact hdiagram

theorem reportsLeft_reads_back :
    reports.diagram.toJson.Edited DiagramConfig.fieldNames ["output"] reportsDiagram ∧
      (reports.toJson.setMember "diagram" reportsDiagram).Edited fieldNames
        ["schema", "omitTags", "outputFormat"] reportsLeft ∧
      parse? reportsLeft.pretty = some
        { transforms := ["steps.yaml", "more steps.yaml"]
          foreignKeys := ["keys.txt"]
          output := "build/schema.json"
          diagram := { direction := .leftRight } } := by
  have hdiagram : reports.diagram.toJson.Edited DiagramConfig.fieldNames ["output"]
      reportsDiagram := by
    refine ⟨_, _, _, DiagramConfig.toJson_eq _, rfl, ?_, List.perm_append_comm⟩
    decide
  have hleft : (reports.toJson.setMember "diagram" reportsDiagram).Edited fieldNames
      ["schema", "omitTags", "outputFormat"] reportsLeft := by
    refine ⟨_, _, _, setMember_toJson _ _, rfl, ?_, List.perm_append_comm⟩
    decide
  have hread := ((edited_reads_back reports).2 hdiagram hleft).2 writable_reportsLeft
  exact ⟨hdiagram, hleft, hread⟩

end Config

end SchemaShaper

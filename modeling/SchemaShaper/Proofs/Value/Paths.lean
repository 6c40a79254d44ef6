import SchemaShaper.Proofs.Value.RepeatedOmission

/-!
# What an omission leaves at each path

A path leads from a value to a node below it, through keys of mappings, positions in sequences and
under tags. An omission cuts off the paths with an omitted key on them and no others, and at the end
of every other path it leaves the node as it was but for the omitted keys (`at?_without_iff`). One
step is `step?_without_iff`: a key is looked up among the entries that are left, and as equal keys
are omitted together, it finds there what it found before or nothing.
-/

namespace SchemaShaper.Value

/-! ## Paths -/

/-- A step from a node to one below it. -/
inductive Step where
  | key (k : Value)
  | index (i : Nat)
  | underTag
  deriving Repr

/-- The node that a step leads to. -/
def step? : Value → Step → Option Value
  | mapping entries, .key k => (entries.find? fun entry => entry.1.same k).map (·.2)
  | sequence items, .index i => items[i]?
  | tagged _ v, .underTag => some v
  | _, _ => none

/-- The node at the end of a path. -/
def at? (v : Value) : List Step → Option Value
  | [] => some v
  | s :: path => (v.step? s).bind (·.at? path)

/-- The step goes through no key that is one of the texts. -/
def Step.Avoids (keys : List String) : Step → Prop
  | key k => ∀ s ∈ k.asText?, s ∉ keys
  | _ => True

/-- What a node is, whatever stands below it. -/
inductive Shape where
  | scalar (v : Value)
  | sequence (length : Nat)
  | mapping (keys : List Value)
  | tagged (tag : String)
  deriving Repr

/-- What the value is itself. -/
def shape : Value → Shape
  | sequence items => .sequence items.length
  | mapping entries => .mapping (entries.map (·.1))
  | tagged tag _ => .tagged tag
  | v => .scalar v

/-- The shape without the keys that are one of the texts. -/
def Shape.without (keys : List String) : Shape → Shape
  | mapping ks => .mapping (ks.filter fun k => k.asText?.all fun s => !keys.contains s)
  | s => s

/-! ## One step -/

section Omission

variable {keys : List String}

/-- Equal keys are the same text, or none is a text. -/
theorem asText?_eq_of_same {k k' : Value} (h : k.same k' = true) : k.asText? = k'.asText? := by
  induction k using induction_on_parts generalizing k' with
  | text s =>
    cases k' with
    | text s' =>
      rw [same, beq_iff_eq] at h
      rw [h]
    | _ => simp [same] at h
  | tagged tag v ih =>
    cases k' with
    | tagged tag' v' =>
      rw [same, Bool.and_eq_true] at h
      have hinner : v.asText? = v'.asText? := ih h.2
      exact hinner
    | _ => simp [same] at h
  | _ =>
    cases k' <;> simp [same] at h
    rfl

theorem isOmitted_eq_of_same {k k' : Value} (h : k.same k' = true) :
    isOmitted keys k = isOmitted keys k' := by
  unfold isOmitted
  rw [asText?_eq_of_same h]

theorem isOmitted_eq_false_iff {k : Value} :
    isOmitted keys k = false ↔ ∀ s ∈ k.asText?, s ∉ keys := by
  unfold isOmitted
  cases k.asText? with
  | none => simp
  | some s => simp

theorem find?_entriesWithout_of_omitted {k : Value} (hk : isOmitted keys k = true)
    (entries : List (Value × Value)) :
    (entriesWithout keys entries).find? (fun entry => entry.1.same k) = none := by
  rw [List.find?_eq_none]
  intro entry hentry hsame
  have hkey : entry.1 ∈ (entries.map (·.1)).filter (!isOmitted keys ·) := by
    rw [← keys_entriesWithout]
    exact List.mem_map_of_mem hentry
  have hkept := (List.mem_filter.1 hkey).2
  rw [isOmitted_eq_of_same hsame, hk] at hkept
  cases hkept

theorem find?_entriesWithout {k : Value} (hk : isOmitted keys k = false)
    (entries : List (Value × Value)) :
    ((entriesWithout keys entries).find? fun entry => entry.1.same k).map (·.2) =
      ((entries.find? fun entry => entry.1.same k).map (·.2)).map (·.without keys) := by
  induction entries with
  | nil => rfl
  | cons entry entries ih =>
    obtain ⟨key, v⟩ := entry
    rw [entriesWithout, List.find?_cons]
    cases hsame : key.same k with
    | true => simp [isOmitted_eq_of_same hsame, hk, hsame]
    | false =>
      cases isOmitted keys key with
      | true => simpa using ih
      | false => simpa [hsame] using ih

theorem shape_without (keys : List String) (v : Value) :
    (v.without keys).shape = v.shape.without keys := by
  have homitted : ∀ k : Value, (k.asText?.all fun s => !keys.contains s) = !isOmitted keys k := by
    intro k
    unfold isOmitted
    cases k.asText? <;> rfl
  cases v with
  | sequence items => simp [without, shape, Shape.without, itemsWithout_eq_map]
  | mapping entries =>
    simp only [without, shape, Shape.without, homitted, keys_entriesWithout]
  | _ => rfl

theorem step?_without_iff {v left : Value} {s : Step} :
    (v.without keys).step? s = some left ↔
      s.Avoids keys ∧ ∃ node, v.step? s = some node ∧ left = node.without keys := by
  cases v with
  | mapping entries =>
    cases s with
    | key k =>
      rw [without, step?, step?, Step.Avoids, ← isOmitted_eq_false_iff]
      cases hk : isOmitted keys k with
      | true => simp [find?_entriesWithout_of_omitted hk]
      | false =>
        rw [find?_entriesWithout hk, Option.map_eq_some_iff]
        simp [eq_comm]
    | index i => simp [without, step?]
    | underTag => simp [without, step?]
  | sequence items =>
    cases s with
    | index i =>
      rw [without, step?, step?, itemsWithout_eq_map, List.getElem?_map, Option.map_eq_some_iff]
      simp [Step.Avoids, eq_comm]
    | _ => simp [without, step?]
  | tagged tag v =>
    cases s with
    | underTag => simp [without, step?, Step.Avoids, eq_comm]
    | _ => simp [without, step?]
  | _ => simp [without, step?]

/-- **What an omission leaves at the end of a path**, and at the end of which. -/
theorem at?_without_iff {v left : Value} {path : List Step} :
    (v.without keys).at? path = some left ↔
      (∀ s ∈ path, s.Avoids keys) ∧ ∃ node, v.at? path = some node ∧ left = node.without keys := by
  induction path generalizing v with
  | nil => simp [at?, eq_comm]
  | cons s path ih =>
    simp only [at?, Option.bind_eq_some_iff, step?_without_iff, List.forall_mem_cons]
    constructor
    · rintro ⟨_, ⟨hs, node, hnode, rfl⟩, hleft⟩
      obtain ⟨hpath, last, hlast, rfl⟩ := ih.1 hleft
      exact ⟨⟨hs, hpath⟩, last, ⟨node, hnode, hlast⟩, rfl⟩
    · rintro ⟨⟨hs, hpath⟩, last, ⟨node, hnode, hlast⟩, rfl⟩
      exact ⟨node.without keys, ⟨hs, node, hnode, rfl⟩, ih.2 ⟨hpath, last, hlast, rfl⟩⟩

end Omission

/-- **What an omission leaves.** A path exists after the omission exactly if it existed before and
no key on it is one of the omitted texts, be it under tags. The node at its end is what it was: a
scalar is the same, a sequence as long as before, a tag keeps its name, and a mapping has its keys
in their order without the omitted ones. -/
theorem without_along_paths (keys : List String) (v : Value) (path : List Step) :
    ((∃ left, (v.without keys).at? path = some left) ↔
      (∃ node, v.at? path = some node) ∧ ∀ k, Step.key k ∈ path → ∀ s ∈ k.asText?, s ∉ keys) ∧
    ∀ node left, v.at? path = some node → (v.without keys).at? path = some left →
      left.shape = node.shape.without keys := by
  have havoids : (∀ s ∈ path, s.Avoids keys) ↔
      ∀ k, Step.key k ∈ path → ∀ s ∈ k.asText?, s ∉ keys := by
    constructor
    · exact fun h k hk => h (.key k) hk
    · intro h s hs
      cases s with
      | key k => exact h k hs
      | _ => trivial
  refine ⟨?_, fun node left hnode hleft => ?_⟩
  · simp only [at?_without_iff, ← havoids]
    constructor
    · rintro ⟨_, hpath, node, hnode, rfl⟩
      exact ⟨⟨node, hnode⟩, hpath⟩
    · rintro ⟨⟨node, hnode⟩, hpath⟩
      exact ⟨node.without keys, hpath, node, hnode, rfl⟩
  · obtain ⟨-, before, hbefore, rfl⟩ := at?_without_iff.1 hleft
    rw [hnode, Option.some.injEq] at hbefore
    rw [hbefore]
    exact shape_without keys before

/-- Where the list of `layered` holds a mapping. -/
def innerPath : List Step := [.underTag, .key (.bool true), .index 0]

theorem layered_along_paths :
    layered.at? innerPath =
      some (.mapping [(.text "secret", .null), (.number (.whole 7), .text "x")]) ∧
    (layered.without ["x", "secret"]).at? innerPath =
      some (.mapping [(.number (.whole 7), .text "x")]) ∧
    (mapping [(.number (.whole 7), .text "x")]).shape =
      (mapping [(.text "secret", .null), (.number (.whole 7), .text "x")]).shape.without
        ["x", "secret"] ∧
    ¬ ∃ left, (layered.without ["x", "secret"]).at?
      [.underTag, .key (.tagged "key" (.text "secret"))] = some left := by
  have hbefore : layered.at? innerPath =
      some (.mapping [(.text "secret", .null), (.number (.whole 7), .text "x")]) := rfl
  have hafter : (layered.without ["x", "secret"]).at? innerPath =
      some (.mapping [(.number (.whole 7), .text "x")]) := rfl
  refine ⟨hbefore, hafter, (without_along_paths _ _ _).2 _ _ hbefore hafter, fun hleft => ?_⟩
  have hkept := ((without_along_paths _ _ _).1.1 hleft).2 (.tagged "key" (.text "secret"))
    (by simp) "secret" rfl
  simp at hkept

end SchemaShaper.Value

import SchemaShaper.Proofs.Session.OmittedKeys
import SchemaShaper.Proofs.Value.Records

/-!
# Omitting keys again

Omitting keys from what an omission left is omitting all the keys at once (`Value.without_without`),
and an omission looks only at which keys it has to omit (`Value.without_congr`). So an omission done
twice is done once, two omissions commute, and a session that has registered keys call by call shows
what the omission of one key after the other leaves (`Session.view_omitKeys`).

An omission keeps a mapping as a list of entries and drops some of them. Putting the entries that
are left into a new mapping one after the other gives the same list in the same order, where the
keys of each mapping differ (`Value.rebuiltWithout_eq`): keys that were different still are.
-/

namespace SchemaShaper

namespace Value

/-- Induction on what a value is made of. The keys of a mapping are not descended into. -/
theorem induction_on_parts {motive : Value → Prop} (null : motive null)
    (bool : ∀ b, motive (bool b)) (number : ∀ n, motive (number n)) (text : ∀ s, motive (text s))
    (sequence : ∀ items, (∀ v ∈ items, motive v) → motive (sequence items))
    (mapping : ∀ entries, (∀ entry ∈ entries, motive entry.2) → motive (mapping entries))
    (tagged : ∀ tag v, motive v → motive (tagged tag v)) (v : Value) : motive v := by
  refine Value.rec (motive_1 := motive) (motive_2 := fun items => ∀ v ∈ items, motive v)
    (motive_3 := fun entries => ∀ entry ∈ entries, motive entry.2)
    (motive_4 := fun entry => motive entry.2) null bool number text sequence mapping tagged
    ?noItem ?item ?noEntry ?entry ?pair v
  case noItem => simp
  case item =>
    intro v items hv hitems
    exact List.forall_mem_cons.2 ⟨hv, hitems⟩
  case noEntry => simp
  case entry =>
    intro entry entries hentry hentries
    exact List.forall_mem_cons.2 ⟨hentry, hentries⟩
  case pair =>
    intro _ v _ hv
    exact hv

/-! ## Two omissions -/

section Omission

variable {keys others : List String}

theorem isOmitted_append (keys others : List String) (k : Value) :
    isOmitted (keys ++ others) k = (isOmitted keys k || isOmitted others k) := by
  unfold isOmitted
  cases k.asText? with
  | none => rfl
  | some s => simp

theorem isOmitted_congr (h : ∀ key, key ∈ keys ↔ key ∈ others) (k : Value) :
    isOmitted keys k = isOmitted others k := by
  unfold isOmitted
  cases k.asText? with
  | none => rfl
  | some s => simp [h]

theorem entriesWithout_eq_filterMap (keys : List String) (entries : List (Value × Value)) :
    entriesWithout keys entries = entries.filterMap fun entry =>
      if isOmitted keys entry.1 then none else some (entry.1, entry.2.without keys) := by
  induction entries with
  | nil => rfl
  | cons entry entries ih =>
    obtain ⟨k, v⟩ := entry
    rw [entriesWithout, List.filterMap_cons, ih]
    cases isOmitted keys k <;> rfl

theorem without_without (keys others : List String) (v : Value) :
    (v.without keys).without others = v.without (keys ++ others) := by
  induction v using induction_on_parts with
  | null | bool | number | text => rfl
  | sequence items ih =>
    simp only [without, itemsWithout_eq_map, List.map_map]
    congr 1
    exact List.map_congr_left ih
  | mapping entries ih =>
    simp only [without, entriesWithout_eq_filterMap, List.filterMap_filterMap]
    congr 1
    apply List.filterMap_congr
    intro entry hentry
    rw [isOmitted_append, ← ih entry hentry]
    cases isOmitted keys entry.1 <;> simp
  | tagged tag v ih => simp only [without, ih]

theorem without_congr (h : ∀ key, key ∈ keys ↔ key ∈ others) (v : Value) :
    v.without keys = v.without others := by
  induction v using induction_on_parts with
  | null | bool | number | text => rfl
  | sequence items ih =>
    simp only [without, itemsWithout_eq_map]
    congr 1
    exact List.map_congr_left ih
  | mapping entries ih =>
    simp only [without, entriesWithout_eq_filterMap]
    congr 1
    apply List.filterMap_congr
    intro entry hentry
    rw [isOmitted_congr h, ih entry hentry]
  | tagged tag v ih => simp only [without, ih]

theorem without_self (keys : List String) (v : Value) :
    (v.without keys).without keys = v.without keys := by
  rw [without_without]
  exact without_congr (by simp) v

theorem without_comm (keys others : List String) (v : Value) :
    (v.without keys).without others = (v.without others).without keys := by
  rw [without_without, without_without]
  exact without_congr (by simp [or_comm]) v

/-- One key after the other. -/
theorem foldl_without (keys others : List String) (v : Value) :
    others.foldl (fun v key => v.without [key]) (v.without keys) = v.without (keys ++ others) := by
  induction others generalizing keys with
  | nil => simp
  | cons key others ih =>
    rw [List.foldl_cons, without_without, ih]
    simp

end Omission

/-! ## Mappings built entry by entry -/

/-- In every mapping of the value, keys apart, no two keys are equal. -/
inductive DistinctKeys : Value → Prop
  | null : DistinctKeys null
  | bool (b : Bool) : DistinctKeys (bool b)
  | number (n : Number) : DistinctKeys (number n)
  | text (s : String) : DistinctKeys (text s)
  | sequence {items : List Value} (h : ∀ v ∈ items, DistinctKeys v) : DistinctKeys (sequence items)
  | mapping {entries : List (Value × Value)}
      (hkeys : entries.Pairwise fun entry later => entry.1.same later.1 = false)
      (h : ∀ entry ∈ entries, DistinctKeys entry.2) : DistinctKeys (mapping entries)
  | tagged {tag : String} {v : Value} (h : DistinctKeys v) : DistinctKeys (tagged tag v)

/-- The entries of the mapping into which the entries are put one after the other. -/
def collect (entries : List (Value × Value)) : List (Value × Value) :=
  entries.foldl (fun built entry => insert entry.1 entry.2 built) []

mutual

/-- `without`, where each mapping is built anew of the entries that are left. -/
def rebuiltWithout (keys : List String) : Value → Value
  | sequence items => sequence (itemsRebuilt keys items)
  | mapping entries => mapping (collect (entriesRebuilt keys entries))
  | tagged tag v => tagged tag (v.rebuiltWithout keys)
  | v => v

/-- `rebuiltWithout` on the items of a sequence. -/
def itemsRebuilt (keys : List String) : List Value → List Value
  | [] => []
  | v :: vs => v.rebuiltWithout keys :: itemsRebuilt keys vs

/-- The entries that are left, before they are put into a mapping. -/
def entriesRebuilt (keys : List String) : List (Value × Value) → List (Value × Value)
  | [] => []
  | (k, v) :: rest =>
    if isOmitted keys k then entriesRebuilt keys rest
    else (k, v.rebuiltWithout keys) :: entriesRebuilt keys rest

end

theorem insert_of_new {key value : Value} {entries : List (Value × Value)}
    (h : ∀ entry ∈ entries, entry.1.same key = false) :
    insert key value entries = entries ++ [(key, value)] := by
  induction entries with
  | nil => rfl
  | cons entry entries ih =>
    obtain ⟨hentry, hrest⟩ := List.forall_mem_cons.1 h
    rw [insert, if_neg (by simp [hentry]), ih hrest]
    rfl

theorem collect_eq_self {entries : List (Value × Value)}
    (h : entries.Pairwise fun entry later => entry.1.same later.1 = false) :
    collect entries = entries := by
  -- What is built so far stands in front of the entries that are still to come.
  have hbuilt : ∀ (rest built : List (Value × Value)),
      (built ++ rest).Pairwise (fun entry later => entry.1.same later.1 = false) →
      rest.foldl (fun built entry => insert entry.1 entry.2 built) built = built ++ rest := by
    intro rest
    induction rest with
    | nil =>
      intro built _
      simp
    | cons entry rest ih =>
      intro built hpair
      have hnew : ∀ old ∈ built, old.1.same entry.1 = false := by
        intro old hold
        exact (List.pairwise_append.1 hpair).2.2 old hold entry List.mem_cons_self
      rw [List.foldl_cons, insert_of_new hnew, ih]
      · simp
      · simpa using hpair
  exact hbuilt entries [] h

section Rebuilding

variable (keys : List String)

theorem keys_entriesWithout (entries : List (Value × Value)) :
    (entriesWithout keys entries).map (·.1) =
      (entries.map (·.1)).filter (!isOmitted keys ·) := by
  induction entries with
  | nil => rfl
  | cons entry entries ih =>
    obtain ⟨k, v⟩ := entry
    rw [entriesWithout, List.map_cons, List.filter_cons]
    cases isOmitted keys k with
    | true => exact ih
    | false => exact congrArg (k :: ·) ih

theorem pairwise_entriesWithout {entries : List (Value × Value)}
    (h : entries.Pairwise fun entry later => entry.1.same later.1 = false) :
    (entriesWithout keys entries).Pairwise fun entry later => entry.1.same later.1 = false := by
  have hkeys : (entries.map (·.1)).Pairwise fun k k' => k.same k' = false := List.pairwise_map.2 h
  have hleft : ((entriesWithout keys entries).map (·.1)).Sublist (entries.map (·.1)) := by
    rw [keys_entriesWithout]
    exact List.filter_sublist
  exact List.pairwise_map.1 (hkeys.sublist hleft)

theorem DistinctKeys.without {v : Value} (h : v.DistinctKeys) : (v.without keys).DistinctKeys := by
  induction h with
  | null => exact .null
  | bool b => exact .bool b
  | number n => exact .number n
  | text s => exact .text s
  | sequence _ ih =>
    rw [Value.without, itemsWithout_eq_map]
    exact .sequence (List.forall_mem_map.2 ih)
  | mapping hkeys _ ih =>
    rw [Value.without]
    refine .mapping (pairwise_entriesWithout keys hkeys) ?_
    intro entry hentry
    rw [entriesWithout_eq_filterMap, List.mem_filterMap] at hentry
    obtain ⟨old, hold, heq⟩ := hentry
    split at heq
    · cases heq
    · cases heq
      exact ih old hold
  | tagged _ ih => exact .tagged ih

theorem rebuiltWithout_eq {v : Value} (h : v.DistinctKeys) :
    v.rebuiltWithout keys = v.without keys := by
  induction h with
  | null | bool | number | text => rfl
  | @sequence items _ ih =>
    have hitems : itemsRebuilt keys items = itemsWithout keys items := by
      clear * - ih
      induction items with
      | nil => rfl
      | cons v items hrest =>
        obtain ⟨hv, hvs⟩ := List.forall_mem_cons.1 ih
        rw [itemsRebuilt, itemsWithout, hv, hrest hvs]
    rw [rebuiltWithout, hitems, Value.without]
  | @mapping entries hkeys _ ih =>
    have hentries : entriesRebuilt keys entries = entriesWithout keys entries := by
      clear * - ih
      induction entries with
      | nil => rfl
      | cons entry entries hrest =>
        obtain ⟨hv, hvs⟩ := List.forall_mem_cons.1 ih
        rw [entriesRebuilt, entriesWithout, hv, hrest hvs]
    rw [rebuiltWithout, hentries, collect_eq_self (pairwise_entriesWithout keys hkeys),
      Value.without]
  | tagged _ ih => rw [rebuiltWithout, ih, Value.without]

end Rebuilding

end Value

/-! ## Keys registered in a session -/

namespace Session

theorem view_omitKeys (entries : List String) (s : Session) :
    (s.omitKeys entries).view =
      (namedKeys entries).foldl (fun v key => v.without [key]) s.view := by
  unfold view omitKeys
  rw [Value.foldl_without]
  apply Value.without_congr
  intro key
  exact mem_foldl_omitKey

theorem view_foldl_omitKeys (calls : List (List String)) (s : Session) :
    (calls.foldl (fun s entries => s.omitKeys entries) s).view =
      (calls.flatMap namedKeys).foldl (fun v key => v.without [key]) s.view := by
  induction calls generalizing s with
  | nil => rfl
  | cons entries calls ih =>
    rw [List.foldl_cons, ih, view_omitKeys, List.flatMap_cons, List.foldl_append]

end Session

/-- **Omissions accumulate.** For every value, omitting one list of keys and then another is
omitting both, and only the set of omitted keys counts, so that repetition and order do not. Where
the keys of each mapping differ, they still do, and the mappings are those that the entries give
when they are put in one by one. A session that registered keys call by call shows what one omission
after the other leaves. -/
theorem Value.omissions_accumulate (v : Value) (keys others : List String) :
    (v.without keys).without others = v.without (keys ++ others) ∧
    ((∀ key, key ∈ keys ↔ key ∈ others) → v.without keys = v.without others) ∧
    (v.without keys).without keys = v.without keys ∧
    (v.without keys).without others = (v.without others).without keys ∧
    (v.DistinctKeys →
      (v.without keys).DistinctKeys ∧ v.rebuiltWithout keys = v.without keys) ∧
    ∀ (s : Session) (calls : List (List String)),
      (calls.foldl (fun s entries => s.omitKeys entries) s).view =
        (calls.flatMap namedKeys).foldl (fun v key => v.without [key]) s.view := by
  refine ⟨without_without keys others v, fun h => without_congr h v, without_self keys v,
    without_comm keys others v, fun h => ⟨h.without keys, rebuiltWithout_eq keys h⟩, ?_⟩
  intro s calls
  exact Session.view_foldl_omitKeys calls s

namespace Value

/-- A tagged mapping with a tagged key, a key that is a mapping, and another mapping in a list. -/
def layered : Value :=
  .tagged "Table" (.mapping [
    (.text "name", .text "secret"),
    (.tagged "key" (.text "secret"), .number (.whole 1)),
    (.bool true, .sequence [.mapping [(.text "secret", .null), (.number (.whole 7), .text "x")]]),
    (.mapping [(.text "secret", .null)], .null)])

/-- What is left of it: the key that is a mapping keeps its own entries. -/
def layeredWithoutSecret : Value :=
  .tagged "Table" (.mapping [
    (.text "name", .text "secret"),
    (.bool true, .sequence [.mapping [(.number (.whole 7), .text "x")]]),
    (.mapping [(.text "secret", .null)], .null)])

theorem layered_distinctKeys : layered.DistinctKeys := by
  have hinner : DistinctKeys
      (.mapping [(.text "secret", .null), (.number (.whole 7), .text "x")]) := by
    refine .mapping (by decide +kernel) ?_
    simp only [List.forall_mem_cons]
    exact ⟨.null, .text _, by simp⟩
  refine .tagged (.mapping (by decide +kernel) ?_)
  simp only [List.forall_mem_cons]
  exact ⟨.text _, .number _, .sequence (List.forall_mem_singleton.2 hinner), .null, by simp⟩

theorem layered_omissions :
    (∀ key, key ∈ ["secret", "type", "secret"] ↔ key ∈ ["type", "secret"]) ∧
    layered.DistinctKeys ∧
    layered.without ["secret", "type", "secret"] = layered.without ["type", "secret"] ∧
    layered.rebuiltWithout ["secret", "type", "secret"] =
      layered.without ["secret", "type", "secret"] ∧
    layered.without ["secret", "type", "secret"] = layeredWithoutSecret := by
  have hsame : ∀ key, key ∈ ["secret", "type", "secret"] ↔ key ∈ ["type", "secret"] := by
    intro key
    simp only [List.mem_cons, List.not_mem_nil, or_false]
    tauto
  obtain ⟨-, hset, -, -, hrebuilt, -⟩ :=
    omissions_accumulate layered ["secret", "type", "secret"] ["type", "secret"]
  exact ⟨hsame, layered_distinctKeys, hset hsame, (hrebuilt layered_distinctKeys).2, rfl⟩

end Value

end SchemaShaper

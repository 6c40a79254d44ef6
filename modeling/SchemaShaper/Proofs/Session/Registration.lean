import SchemaShaper.Proofs.Session.OmittedKeys
import SchemaShaper.Proofs.Session.Runs
import SchemaShaper.Proofs.Text.Cuts
import Mathlib.Data.List.DropRight

/-!
# Registered keys

After any run of a session the keys to leave out are those that the entries registered since the
last reset name, each once, in the order in which they first occur (`Session.omitted_run`). Edits
do not touch them, whether they fail or not. So it does not matter how entries are spread over
calls, and to register entries again changes nothing until the next reset
(`Session.run_registers`).
-/

namespace SchemaShaper

/-! ## Named keys -/

/-- A key that an entry can name: trimmed, not blank and no comment. -/
structure IsKey (key : String) : Prop where
  trimmed : Text.trimmed key = key
  ne_empty : key ≠ ""
  no_comment : key.toList.head? ≠ some '#'

theorem isSkipped_eq_false_iff {key : String} (h : Text.trimmed key = key) :
    isSkipped key = false ↔ IsKey key := by
  have htrim : Text.trim key.toList = key.toList := by
    have hchars := congrArg String.toList h
    rwa [Text.trimmed, String.toList_ofList] at hchars
  unfold isSkipped
  rw [htrim]
  cases hcs : key.toList with
  | nil =>
    have hempty : key = "" := String.toList_eq_nil_iff.1 hcs
    exact iff_of_false (by simp) fun hkey => hkey.ne_empty hempty
  | cons c cs =>
    have hne : key ≠ "" := by
      rintro rfl
      cases hcs
    constructor
    · intro hnot
      exact ⟨h, hne, by simpa [hcs] using hnot⟩
    · intro hkey
      simpa [hcs] using hkey.no_comment

theorem mem_namedKeys {entries : List String} {key : String} :
    key ∈ namedKeys entries ↔ (∃ entry ∈ entries, Text.trimmed entry = key) ∧ IsKey key := by
  unfold namedKeys
  rw [List.mem_filter, List.mem_map, Bool.not_eq_true']
  refine and_congr_right ?_
  rintro ⟨entry, -, rfl⟩
  exact isSkipped_eq_false_iff (Text.trimmed_trimmed entry)

/-- Erasing repetitions keeps the order in which things first occur. -/
theorem pairwise_idxOf_eraseDups (keys : List String) :
    keys.eraseDups.Pairwise fun a b => keys.idxOf a < keys.idxOf b := by
  induction keys using List.reverseRecOn with
  | nil => simp
  | append_singleton keys key ih =>
    have hkeep : ∀ {a : String}, a ∈ keys.eraseDups → (keys ++ [key]).idxOf a = keys.idxOf a :=
      fun ha => List.idxOf_append_of_mem (List.mem_eraseDups.1 ha)
    have hold : keys.eraseDups.Pairwise fun a b =>
        (keys ++ [key]).idxOf a < (keys ++ [key]).idxOf b := by
      refine ih.imp_of_mem fun ha hb hlt => ?_
      rwa [hkeep ha, hkeep hb]
    -- Behind the old keys there is the new one, unless it is an old one.
    rw [List.eraseDups_append]
    by_cases hmem : key ∈ keys
    · simpa [List.removeAll, hmem] using hold
    · have hnew : ([key].removeAll keys).eraseDups = [key] := by
        simp [List.removeAll, hmem, List.eraseDups_cons]
      rw [hnew]
      refine List.pairwise_append.2 ⟨hold, List.pairwise_singleton _ _, fun a ha b hb => ?_⟩
      rw [List.mem_singleton.1 hb, hkeep ha, List.idxOf_append_of_notMem hmem]
      exact Nat.lt_add_right _ (List.idxOf_lt_length_iff.2 (List.mem_eraseDups.1 ha))

namespace Session

/-! ## Calls -/

theorem omitKeys_append (entries more : List String) (s : Session) :
    s.omitKeys (entries ++ more) = (s.omitKeys entries).omitKeys more := by
  unfold omitKeys
  rw [List.foldl_append]

theorem run_calls (calls : List (List String)) (s : Session) :
    s.run (calls.map .omitKeys) = s.omitKeys calls.flatten := by
  induction calls generalizing s with
  | nil => rfl
  | cons entries calls ih =>
    rw [List.flatten_cons, omitKeys_append, ← ih]
    rfl

/-- Entries whose keys are all registered change nothing. -/
theorem omitKeys_eq_self {entries : List String} {s : Session}
    (h : ∀ key ∈ namedKeys entries, key ∈ s.omitted) : s.omitKeys entries = s := by
  have hnone : (namedKeys entries).filter (fun key => !s.omitted.contains key) = [] := by
    simpa [List.filter_eq_nil_iff] using h
  unfold omitKeys
  rw [foldl_omitKey, hnone, List.eraseDups_nil, List.append_nil]

/-! ## Runs -/

/-- The entries that an operation registers. -/
def Operation.omissions : Operation → List String
  | .omitKeys entries => entries
  | _ => []

/-- The entries registered by the operations behind the last reset. -/
def registered (operations : List Operation) : List String :=
  (operations.rtakeWhile (· != .reset)).flatMap Operation.omissions

theorem registered_concat_reset (operations : List Operation) :
    registered (operations ++ [.reset]) = [] := by
  unfold registered
  rw [List.rtakeWhile_concat_neg _ _ _ (by decide)]
  rfl

theorem registered_concat {operation : Operation} (h : operation ≠ .reset)
    (operations : List Operation) :
    registered (operations ++ [operation]) = registered operations ++ operation.omissions := by
  unfold registered
  rw [List.rtakeWhile_concat_pos _ _ _ (by simpa using h), List.flatMap_append,
    List.flatMap_singleton]

theorem keepWhole_omitted (s : Session) (a : Attempt) :
    (s.keepWhole a).session.omitted = s.omitted := by
  unfold keepWhole
  split <;> rfl

/-- What an operation does to the registered keys. -/
theorem perform_omitted {operation : Operation} (h : operation ≠ .reset) (s : Session) :
    (s.perform operation).session.omitted = operation.omissions.foldl omitKey s.omitted := by
  cases operation with
  | transformWhole entries => exact keepWhole_omitted s _
  | addKeysWhole entries => exact keepWhole_omitted s _
  | reset => exact absurd rfl h
  | _ => rfl

theorem run_concat (s : Session) (operations : List Operation) (operation : Operation) :
    s.run (operations ++ [operation]) = ((s.run operations).perform operation).session := by
  unfold run
  rw [List.foldl_append]
  rfl

theorem omitted_run_eq_foldl (base : Document) (operations : List Operation) :
    ((start base).run operations).omitted = (registered operations).foldl omitKey [] := by
  induction operations using List.reverseRecOn with
  | nil => rfl
  | append_singleton operations operation ih =>
    -- A reset forgets all that was registered before it; every other operation adds its entries.
    rw [run_concat]
    by_cases hreset : operation = .reset
    · rw [hreset, registered_concat_reset]
      rfl
    · rw [perform_omitted hreset, registered_concat hreset, List.foldl_append, ih]

/-- The registered keys are those that the entries since the last reset name, each once. -/
theorem omitted_run (base : Document) (operations : List Operation) :
    ((start base).run operations).omitted = (namedKeys (registered operations)).eraseDups :=
  (omitted_run_eq_foldl base operations).trans (foldl_omitKey_nil _)

/-- A key stays registered until a reset. -/
theorem mem_omitted_run {operations : List Operation} (h : .reset ∉ operations) {key : String}
    {s : Session} (hkey : key ∈ s.omitted) : key ∈ (s.run operations).omitted := by
  induction operations generalizing s with
  | nil => exact hkey
  | cons operation operations ih =>
    obtain ⟨hfirst, hrest⟩ := not_or.1 (mt List.mem_cons.2 h)
    refine ih hrest ?_
    rw [perform_omitted (Ne.symm hfirst), mem_foldl_omitKey]
    exact List.mem_append_left _ hkey

/-- What the operations of a run leave of the base and of the registered keys. -/
structure Registers (base : Document) (operations : List Operation) (s : Session) : Prop where
  base_eq : s.base = base
  omitted_eq : s.omitted = (namedKeys (registered operations)).eraseDups
  mem_omitted_iff : ∀ key, key ∈ s.omitted ↔
    (∃ entry ∈ registered operations, Text.trimmed entry = key) ∧ IsKey key
  in_first_order : s.omitted.Pairwise fun a b =>
    (namedKeys (registered operations)).idxOf a < (namedKeys (registered operations)).idxOf b
  nodup : s.omitted.Nodup

theorem registers_run (base : Document) (operations : List Operation) :
    Registers base operations ((start base).run operations) := by
  have homitted := omitted_run base operations
  have horder := pairwise_idxOf_eraseDups (namedKeys (registered operations))
  refine ⟨run_base _ _, homitted, fun key => ?_, ?_, ?_⟩
  · rw [homitted, List.mem_eraseDups, mem_namedKeys]
  · rwa [homitted]
  · rw [homitted]
    refine horder.imp ?_
    rintro a _ hlt rfl
    exact Nat.lt_irrefl _ hlt

/-- **What a session registers.** After every run the base is the one that the session began with,
and the keys to leave out are those of the entries since the last reset. How entries are spread over
calls does not matter, entries can be registered again without effect until a reset, and no other
operation touches the keys. -/
theorem run_registers (base : Document) (operations : List Operation) :
    Registers base operations ((start base).run operations) ∧
    ∀ s : Session,
      (∀ calls : List (List String), s.run (calls.map .omitKeys) = s.omitKeys calls.flatten) ∧
      (∀ entries later, .reset ∉ later →
        ((s.omitKeys entries).run later).omitKeys entries = (s.omitKeys entries).run later) ∧
      ∀ operation, (∀ entries, operation ≠ .omitKeys entries) → operation ≠ .reset →
        (s.perform operation).session.omitted = s.omitted := by
  refine ⟨registers_run base operations, fun s => ⟨fun calls => run_calls calls s, ?_, ?_⟩⟩
  · intro entries later hlater
    refine omitKeys_eq_self fun key hkey => mem_omitted_run hlater ?_
    exact mem_foldl_omitKey.2 (List.mem_append_right _ hkey)
  · intro operation hother hreset
    rw [perform_omitted hreset]
    cases operation with
    | omitKeys entries => exact absurd rfl (hother entries)
    | _ => rfl

end Session

end SchemaShaper

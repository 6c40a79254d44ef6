import SchemaShaper.Pipeline.Entries
import SchemaShaper.Proofs.Results

/-!
# What stands in a file of entries

A file of entries holds items: the lines of a plain file, or the items of the list in a file that
holds a value. Every item that is a text or null is one entry, so that the entry at a position is
what the item at that position writes; at the first other item the file is refused, with the
position of that item (`Entries.ofItems_eq_ok_iff`, `Entries.ofItems_eq_error_iff`).
-/

namespace SchemaShaper.Entries

/-- The entry that an item is; none when it is no text. -/
def entry? : Value → Option String
  | .text entry => some entry
  | .null => some ""
  | _ => none

/-- The items in the text of a file: its lines, or the list under the key of the kind. -/
def items (kind : EntryKind) (path text : String) : Except Failure (List Value) :=
  match value? path text with
  | none => .ok ((Text.linesOf text).map .text)
  | some (.error failure) => .error failure
  | some (.ok v) =>
    match v.get? kind.key with
    | none =>
      .error (.notice s!"{path} must contain '{kind.key}' key with a list of entries")
    | some (.sequence items) => .ok items
    | some _ => .error (.notice s!"'{kind.key}' in {path} must be a list")

section Items

variable {kind : EntryKind} {path : String} {position : Nat} {item : Value} {list : List Value}

theorem ofItems_cons_entry {entry : String} (h : entry? item = some entry) :
    ofItems kind path position (item :: list) =
      (ofItems kind path (position + 1) list).map (entry :: ·) := by
  cases item <;> cases h <;> rfl

theorem ofItems_cons_other (h : entry? item = none) :
    ofItems kind path position (item :: list) = .error (complaint kind path position item) := by
  cases item <;> first | rfl | cases h

theorem ofItems_eq_ok_iff {entries : List String} :
    ofItems kind path position list = .ok entries ↔
      List.Forall₂ (fun item entry => entry? item = some entry) list entries := by
  induction list generalizing position entries with
  | nil => simp [ofItems, eq_comm]
  | cons item list ih =>
    rw [List.forall₂_cons_left_iff]
    cases h : entry? item with
    | none => simp [ofItems_cons_other h]
    | some entry =>
      rw [ofItems_cons_entry h, map_eq_ok_iff]
      constructor
      · rintro ⟨rest, hrest, rfl⟩
        exact ⟨entry, rest, rfl, ih.1 hrest, rfl⟩
      · rintro ⟨_, rest, hentry, hrest, rfl⟩
        cases hentry
        exact ⟨rest, ih.2 hrest, rfl⟩

/-- A list is refused at its first item that is no entry. -/
theorem ofItems_eq_error_iff {e : Failure} :
    ofItems kind path position list = .error e ↔
      ∃ before item after, list = before ++ item :: after ∧
        (∀ i ∈ before, ∃ entry, entry? i = some entry) ∧ entry? item = none ∧
        e = complaint kind path (position + before.length) item := by
  induction list generalizing position with
  | nil => simp [ofItems]
  | cons first list ih =>
    cases h : entry? first with
    | none =>
      rw [ofItems_cons_other h]
      constructor
      · rintro ⟨⟩
        exact ⟨[], first, list, rfl, by simp, h, rfl⟩
      · rintro ⟨before, item, after, heq, hbefore, hitem, rfl⟩
        cases before with
        | nil =>
          obtain ⟨rfl, rfl⟩ := List.cons.inj heq
          rfl
        | cons b before =>
          obtain ⟨rfl, rfl⟩ := List.cons.inj heq
          obtain ⟨entry, hentry⟩ := hbefore _ List.mem_cons_self
          rw [h] at hentry
          cases hentry
    | some entry =>
      rw [ofItems_cons_entry h, map_eq_error_iff, ih]
      constructor
      · rintro ⟨before, item, after, rfl, hbefore, hitem, rfl⟩
        refine ⟨first :: before, item, after, rfl, ?_, hitem, ?_⟩
        · exact List.forall_mem_cons.2 ⟨⟨entry, h⟩, hbefore⟩
        · rw [List.length_cons, Nat.add_assoc, Nat.add_comm 1]
      · rintro ⟨before, item, after, heq, hbefore, hitem, rfl⟩
        cases before with
        | nil =>
          obtain ⟨rfl, rfl⟩ := List.cons.inj heq
          rw [h] at hitem
          cases hitem
        | cons b before =>
          obtain ⟨rfl, rfl⟩ := List.cons.inj heq
          refine ⟨before, item, after, rfl, (List.forall_mem_cons.1 hbefore).2, hitem, ?_⟩
          rw [List.length_cons, Nat.add_assoc, Nat.add_comm 1]

end Items

/-- The entries of a file are what its items write. -/
theorem parse_eq (kind : EntryKind) (path text : String) :
    parse kind path text = items kind path text >>= ofItems kind path 1 := by
  unfold parse items
  cases value? path text with
  | none =>
    refine (ofItems_eq_ok_iff.2 ?_).symm
    exact List.forall₂_map_left_iff.2 (List.forall₂_same.2 fun _ _ => rfl)
  | some result =>
    cases result with
    | error failure => rfl
    | ok v =>
      unfold ofValue
      dsimp only
      cases v.get? kind.key with
      | none => rfl
      | some list => cases list <;> rfl

end SchemaShaper.Entries

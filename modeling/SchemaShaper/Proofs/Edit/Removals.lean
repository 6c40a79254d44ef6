import SchemaShaper.Edit.Deletion
import SchemaShaper.Proofs.Index.Positions
import Mathlib.Algebra.Order.BigOperators.Group.List
import Mathlib.Data.Set.Card

/-!
# What a deletion statement removes

A deletion keeps a list of positions: strictly increasing, and the list of survivors is what stands
at them (`Removal`). `Statement.Removes` says by kind what a statement makes of a document. Deleting
tables is one removal from the list of tables. Deleting columns or foreign keys is one removal in
every table, with the positions and the length of that table's own list (`EachTable`), and says of
everything else in the table that it stays.

That applying a statement meets this is `Statement.removes_apply`. An index spec resolves to a set
of positions, and selecting looks up the same positions one by one, so the tables that an index
statement deletes are the selected ones (`Statement.apply_removes_designated`).
-/

namespace SchemaShaper

/-! ## Removing by position -/

/-- The elements of `xs` that `gone` holds of, seen with their positions, are removed: the others
are left, in their order and unchanged, and `removed` is the number of those that are not. -/
structure Removal {α : Type} (gone : Nat → α → Prop) (xs left : List α) (removed : Nat) :
    Prop where
  survivors : ∃ kept : List (Fin xs.length), kept.Pairwise (· < ·) ∧ left = kept.map xs.get ∧
    ∀ i, i ∈ kept ↔ ¬ gone i (xs.get i)
  count : removed = Set.ncard {i : Fin xs.length | gone i (xs.get i)}

section Positions

variable {α : Type}

/-- The positions of the elements that `keepAt` keeps, in order. -/
def keptPositions (keep : Nat → α → Bool) (xs : List α) : List (Fin xs.length) :=
  (List.finRange xs.length).filter fun i => keep i (xs.get i)

theorem zipIdx_eq_map_finRange (xs : List α) :
    xs.zipIdx = (List.finRange xs.length).map fun i => (xs.get i, i.val) := by
  refine List.ext_getElem (by simp) fun i h h' => ?_
  simp

theorem keepAt_eq_map (keep : Nat → α → Bool) (xs : List α) :
    keepAt keep xs = (keptPositions keep xs).map xs.get := by
  unfold keepAt keptPositions
  rw [zipIdx_eq_map_finRange, List.filter_map, List.map_map]
  rfl

theorem mem_keptPositions {keep : Nat → α → Bool} {xs : List α} {i : Fin xs.length} :
    i ∈ keptPositions keep xs ↔ keep i (xs.get i) = true := by
  simp [keptPositions]

theorem pairwise_keptPositions (keep : Nat → α → Bool) (xs : List α) :
    (keptPositions keep xs).Pairwise (· < ·) :=
  (List.pairwise_lt_finRange _).filter _

theorem removal_keepAt {gone : Nat → α → Prop} {keep : Nat → α → Bool} {xs : List α}
    (h : ∀ i : Fin xs.length, keep i (xs.get i) = true ↔ ¬ gone i (xs.get i)) :
    Removal gone xs (keepAt keep xs) (xs.length - (keepAt keep xs).length) where
  survivors := ⟨keptPositions keep xs, pairwise_keptPositions keep xs, keepAt_eq_map keep xs,
    fun i => mem_keptPositions.trans (h i)⟩
  count := by
    have hkept : {i : Fin xs.length | gone i (xs.get i)}ᶜ = (keptPositions keep xs).toFinset := by
      ext i
      rw [Set.mem_compl_iff, Set.mem_ofPred_eq, ← h, Finset.mem_coe, List.mem_toFinset,
        mem_keptPositions]
    have hnodup : (keptPositions keep xs).Nodup := (List.nodup_finRange _).filter _
    have hcompl := Set.ncard_add_ncard_compl {i : Fin xs.length | gone i (xs.get i)}
    rw [hkept, Set.ncard_coe_finset, List.toFinset_card_of_nodup hnodup, Nat.card_fin] at hcompl
    rw [keepAt_eq_map, List.length_map]
    omega

end Positions

/-! ## What a statement designates -/

/-- The target designates the element of this position and name in a list of `len` elements. -/
def Target.Designates (target : Target) (len position : Nat) (name : String) : Prop :=
  match target with
  | .pattern glob => glob.covers name = true
  | .index spec => position ∈ spec.resolve len

theorem Target.selects_iff {target : Target} {len position : Nat} {name : String} :
    target.selects len position name = true ↔ target.Designates len position name := by
  cases target with
  | pattern glob => exact Iff.rfl
  | index spec => exact List.contains_iff_mem

theorem Target.not_selects_iff {target : Target} {len position : Nat} {name : String} :
    (!target.selects len position name) = true ↔ ¬ target.Designates len position name := by
  rw [Bool.not_eq_true', ← Bool.not_eq_true, selects_iff]

/-- Deleting by a target keeps what the target does not designate. -/
theorem Target.removal_keepAt_selects {α : Type} (target : Target) (name : α → String)
    (xs : List α) :
    Removal (fun i x => target.Designates xs.length i (name x)) xs
      (keepAt (fun i x => !target.selects xs.length i (name x)) xs)
      (xs.length - (keepAt (fun i x => !target.selects xs.length i (name x)) xs).length) :=
  removal_keepAt fun _ => target.not_selects_iff

theorem TableChoice.includes_iff {tables : TableChoice} {name : String} :
    tables.includes name = true ↔ tables = .all ∨ tables = .named name := by
  cases tables with
  | all => simp [includes]
  | named other => simp [includes]

/-- The designated columns of a table are removed, if the table is one of the chosen. -/
structure Table.ColumnsRemoved (tables : TableChoice) (target : Target) (t left : Table)
    (removed : Nat) : Prop where
  chosen : tables = .all ∨ tables = .named t.name →
    Removal (fun i c => target.Designates t.columns.length i c.name) t.columns left.columns removed
  others : ¬ (tables = .all ∨ tables = .named t.name) → left = t ∧ removed = 0
  frame : left = { t with columns := left.columns }

/-- The designated foreign keys of a table are removed. -/
structure Table.KeysRemoved (target : Target) (t left : Table) (removed : Nat) : Prop where
  keys : Removal (fun i k => target.Designates t.keys.length i k.name) t.keys left.keys removed
  /-- A list that is emptied becomes absent. -/
  emptied : t.keys ≠ [] → left.keys = [] → left.foreignKeys = none
  /-- A list that is absent or empty stays so. -/
  untouched : t.keys = [] → left.foreignKeys = t.foreignKeys
  frame : left = { t with foreignKeys := left.foreignKeys }

/-- Every table is edited on its own, and the numbers add up. -/
inductive EachTable (R : Table → Table → Nat → Prop) : List Table → List Table → Nat → Prop
  | nil : EachTable R [] [] 0
  | cons {t left : Table} {ts lefts : List Table} {n total : Nat} (head : R t left n)
      (tail : EachTable R ts lefts total) : EachTable R (t :: ts) (left :: lefts) (n + total)

/-- The statement makes of the document `d` the document `left` by removing what it designates in
`d`, and `removed` is the number of removed elements. -/
def Statement.Removes (s : Statement) (d left : Document) (removed : Nat) : Prop :=
  match s with
  | deleteTables target =>
    Removal (fun i t => target.Designates d.tables.length i t.name) d.tables left.tables removed
  | deleteColumns tables target =>
    EachTable (Table.ColumnsRemoved tables target) d.tables left.tables removed
  | deleteKeys target => EachTable (Table.KeysRemoved target) d.tables left.tables removed

/-! ## One table -/

/-- What is left of a table when columns of the chosen tables are deleted. -/
def Table.deleteColumnsIn (tables : TableChoice) (target : Target) (t : Table) : Table :=
  if tables.includes t.name then t.deleteColumns target else t

theorem Table.columnsRemoved (tables : TableChoice) (target : Target) (t : Table) :
    t.ColumnsRemoved tables target (t.deleteColumnsIn tables target)
      (t.columns.length - (t.deleteColumnsIn tables target).columns.length) := by
  unfold deleteColumnsIn
  by_cases hchosen : tables.includes t.name = true
  · rw [if_pos hchosen]
    refine ⟨fun _ => target.removal_keepAt_selects _ t.columns, fun hnot => ?_, rfl⟩
    exact absurd (TableChoice.includes_iff.1 hchosen) hnot
  · rw [if_neg hchosen]
    refine ⟨fun hin => ?_, fun _ => ⟨rfl, Nat.sub_self _⟩, rfl⟩
    exact absurd (TableChoice.includes_iff.2 hin) hchosen

section KeepKeys

variable {keep : Nat → ForeignKey → Bool} {t : Table}

theorem Table.keepKeys_eq :
    t.keepKeys keep = { t with foreignKeys := (t.keepKeys keep).foreignKeys } := by
  unfold keepKeys
  cases t.foreignKeys <;> rfl

theorem Table.foreignKeys_keepKeys_of_emptied (hkeys : t.keys ≠ [])
    (hleft : (t.keepKeys keep).keys = []) : (t.keepKeys keep).foreignKeys = none := by
  rw [keys_keepKeys] at hleft
  unfold keepKeys
  cases hdeclared : t.foreignKeys with
  | none => simp [keys, hdeclared] at hkeys
  | some keys =>
    have heq : t.keys = keys := by rw [Table.keys, hdeclared, Option.getD_some]
    rw [heq] at hkeys hleft
    simp [hkeys, hleft]

theorem Table.foreignKeys_keepKeys_of_empty (hkeys : t.keys = []) :
    (t.keepKeys keep).foreignKeys = t.foreignKeys := by
  unfold keepKeys
  cases hdeclared : t.foreignKeys with
  | none => exact hdeclared
  | some keys =>
    have heq : keys = [] := by rw [← hkeys, Table.keys, hdeclared, Option.getD_some]
    subst heq
    rfl

end KeepKeys

theorem Table.keysRemoved (target : Target) (t : Table) :
    t.KeysRemoved target (t.deleteKeys target)
      (t.keys.length - (t.deleteKeys target).keys.length) where
  keys := by
    unfold deleteKeys
    rw [keys_keepKeys]
    exact target.removal_keepAt_selects _ t.keys
  emptied hkeys hleft := foreignKeys_keepKeys_of_emptied hkeys hleft
  untouched hkeys := foreignKeys_keepKeys_of_empty hkeys
  frame := keepKeys_eq

/-! ## All tables -/

section EachTable

variable {R : Table → Table → Nat → Prop} {f : Table → Table} {size : Table → Nat}

theorem EachTable.map (hR : ∀ t, R t (f t) (size t - size (f t))) (hle : ∀ t, size (f t) ≤ size t)
    (ts : List Table) :
    EachTable R ts (ts.map f) ((ts.map size).sum - ((ts.map f).map size).sum) := by
  induction ts with
  | nil => exact .nil
  | cons t ts ih =>
    have ht := hle t
    have hts : ((ts.map f).map size).sum ≤ (ts.map size).sum := by
      rw [List.map_map]
      exact List.sum_le_sum fun t _ => hle t
    -- The subtraction of sums is a sum of differences because no summand grows.
    have htotal : size t - size (f t) + ((ts.map size).sum - ((ts.map f).map size).sum) =
        size t + (ts.map size).sum - (size (f t) + ((ts.map f).map size).sum) := by omega
    have hcons := EachTable.cons (hR t) ih
    rw [htotal] at hcons
    exact hcons

end EachTable

theorem Statement.count_deleteColumns (tables : TableChoice) (target : Target) (d : Document) :
    (deleteColumns tables target).count d = (d.tables.map fun t => t.columns.length).sum :=
  List.length_flatMap

theorem Statement.count_deleteKeys (target : Target) (d : Document) :
    (deleteKeys target).count d = (d.tables.map fun t => t.keys.length).sum :=
  List.length_flatMap

theorem Table.columns_keepColumns (keep : Nat → Column → Bool) (t : Table) :
    (t.keepColumns keep).columns = keepAt keep t.columns := rfl

theorem Table.length_columns_deleteColumnsIn_le (tables : TableChoice) (target : Target)
    (t : Table) : (t.deleteColumnsIn tables target).columns.length ≤ t.columns.length := by
  unfold deleteColumnsIn deleteColumns
  split
  · rw [columns_keepColumns]
    exact (keepAt_sublist _ t.columns).length_le
  · exact Nat.le_refl _

theorem Table.length_keys_deleteKeys_le (target : Target) (t : Table) :
    (t.deleteKeys target).keys.length ≤ t.keys.length := by
  unfold deleteKeys
  rw [keys_keepKeys]
  exact (keepAt_sublist _ t.keys).length_le

/-! ## All statements -/

theorem Statement.removes_apply (s : Statement) (d : Document) :
    s.Removes d (s.apply d) (s.removed d) := by
  cases s with
  | deleteTables target => exact target.removal_keepAt_selects _ d.tables
  | deleteColumns tables target =>
    rw [removed, count_deleteColumns, count_deleteColumns]
    exact EachTable.map (Table.columnsRemoved tables target)
      (Table.length_columns_deleteColumnsIn_le tables target) d.tables
  | deleteKeys target =>
    rw [removed, count_deleteKeys, count_deleteKeys]
    exact EachTable.map (Table.keysRemoved target) (Table.length_keys_deleteKeys_le target) d.tables

/-- **A statement removes what it designates**, and what an index statement deletes of the tables is
what its spec selects of them. -/
theorem Statement.apply_removes_designated (d : Document) :
    (∀ s : Statement, s.Removes d (s.apply d) (s.removed d)) ∧
    ∀ spec : Index.Spec, ∃ kept selected : List (Fin d.tables.length),
      kept.Pairwise (· < ·) ∧
      ((deleteTables (.index spec)).apply d).tables = kept.map d.tables.get ∧
      spec.select d.tables = selected.map d.tables.get ∧
      ∀ i, i ∈ selected ↔ i ∉ kept := by
  refine ⟨fun s => s.removes_apply d, fun spec => ?_⟩
  obtain ⟨⟨kept, hordered, hleft, hkept⟩, -⟩ := (deleteTables (.index spec)).removes_apply d
  obtain ⟨selected, hselect, hpositions⟩ := spec.exists_select_eq d.tables
  refine ⟨kept, selected, hordered, hleft, hselect, fun i => ?_⟩
  have hselected : i ∈ selected ↔ i.val ∈ spec.positions d.tables.length := by
    rw [← hpositions, List.mem_map_of_injective Fin.val_injective]
  rw [hkept, not_not, hselected, ← Index.Spec.mem_resolve_iff]
  exact Iff.rfl

end SchemaShaper

import SchemaShaper.Edit.Deletion

/-!
# Deletions by name

A deletion whose target is a pattern looks at names only. What it leaves is given by a mask
(`Mask`): which tables stay, which columns of a table of a given name, and which foreign keys.
Pruning a document by one mask after another is pruning it by what both keep
(`Document.prune_prune`), also where a foreign key list is emptied: it becomes absent by the first
mask that empties it or by both at once, and stays declared only when it was empty from the start.

So a list of such statements prunes by the meet of their masks (`Statement.applyAll_eq_prune`), and
the meet knows neither the order nor the number of its parts
(`Statement.pattern_deletions_ignore_order_and_repetition`).
-/

namespace SchemaShaper

/-! ## Masks -/

/-- What stays of a document, by name: its tables, the columns of a table, the foreign keys. -/
@[ext]
structure Mask where
  table : String → Bool
  column : String → String → Bool
  key : String → Bool

namespace Mask

/-- The mask that keeps everything. -/
def full : Mask := ⟨fun _ => true, fun _ _ => true, fun _ => true⟩

/-- The mask that drops tables only. -/
def onTables (keep : String → Bool) : Mask := ⟨keep, fun _ _ => true, fun _ => true⟩

/-- The mask that drops columns only. -/
def onColumns (keep : String → String → Bool) : Mask := ⟨fun _ => true, keep, fun _ => true⟩

/-- The mask that drops foreign keys only. -/
def onKeys (keep : String → Bool) : Mask := ⟨fun _ => true, fun _ _ => true, keep⟩

/-- The mask that keeps what both masks keep. -/
def meet (m n : Mask) : Mask where
  table name := m.table name && n.table name
  column table name := m.column table name && n.column table name
  key name := m.key name && n.key name

/-- The mask that keeps what all masks of a list keep. -/
def meetAll (masks : List Mask) : Mask where
  table name := masks.all (·.table name)
  column table name := masks.all (·.column table name)
  key name := masks.all (·.key name)

theorem meetAll_nil : meetAll [] = full := rfl

theorem meetAll_cons (m : Mask) (masks : List Mask) :
    meetAll (m :: masks) = m.meet (meetAll masks) := rfl

theorem all_eq_of_subset {α : Type} {xs ys : List α} (h : xs ⊆ ys) (h' : ys ⊆ xs) (p : α → Bool) :
    xs.all p = ys.all p := by
  rw [Bool.eq_iff_iff, List.all_eq_true, List.all_eq_true]
  constructor
  · intro hp x hx
    exact hp x (h' hx)
  · intro hp x hx
    exact hp x (h hx)

/-- The meet of a list is the meet of its members, whatever their order and number. -/
theorem meetAll_eq_of_subset {masks masks' : List Mask} (h : masks ⊆ masks')
    (h' : masks' ⊆ masks) : meetAll masks = meetAll masks' := by
  ext
  · exact all_eq_of_subset h h' _
  · exact all_eq_of_subset h h' _
  · exact all_eq_of_subset h h' _

end Mask

/-! ## Pruning -/

/-- Keep the columns and the foreign keys of the mask. -/
def Table.prune (m : Mask) (t : Table) : Table :=
  (t.keepColumns fun _ c => m.column t.name c.name).keepKeys fun _ k => m.key k.name

/-- Keep the tables of the mask, and prune them. -/
def Document.prune (m : Mask) (d : Document) : Document :=
  ⟨(d.tables.filter fun t => m.table t.name).map (Table.prune m)⟩

theorem Table.name_prune (m : Mask) (t : Table) : (t.prune m).name = t.name :=
  Table.name_keepKeys _ _

theorem Table.keepColumns_keepKeys (p : Nat → Column → Bool) (q : Nat → ForeignKey → Bool)
    (t : Table) : (t.keepKeys q).keepColumns p = (t.keepColumns p).keepKeys q := by
  obtain ⟨name, columns, primaryKey, keys⟩ := t
  cases keys with
  | none => rfl
  | some keys => rfl

theorem Table.keepColumns_keepColumns (p q : Column → Bool) (t : Table) :
    (t.keepColumns fun _ c => p c).keepColumns (fun _ c => q c) =
      t.keepColumns fun _ c => p c && q c := by
  unfold keepColumns
  simp only [keepAt_eq_filter, List.filter_filter, Bool.and_comm]

/-- Which of two deletions empties the list of foreign keys does not matter. -/
theorem Table.keepKeys_keepKeys (p q : ForeignKey → Bool) (t : Table) :
    (t.keepKeys fun _ k => p k).keepKeys (fun _ k => q k) =
      t.keepKeys fun _ k => p k && q k := by
  obtain ⟨name, columns, primaryKey, keys⟩ := t
  cases keys with
  | none => rfl
  | some keys =>
    have hboth : keys.filter (fun k => p k && q k) = (keys.filter p).filter q := by
      rw [List.filter_filter]
      simp only [Bool.and_comm]
    simp only [keepKeys, keepAt_eq_filter, hboth]
    -- A list that is empty from the start stays; one that the first test empties is already absent.
    by_cases hempty : keys = []
    · subst hempty
      rfl
    · by_cases hfirst : keys.filter p = []
      · simp [hfirst, hempty]
      · simp [hfirst, hempty]

theorem Table.prune_prune (m n : Mask) (t : Table) : (t.prune m).prune n = t.prune (m.meet n) := by
  rw [prune, name_prune]
  unfold prune
  rw [keepColumns_keepKeys, keepKeys_keepKeys, keepColumns_keepColumns]
  rfl

/-- **Pruning twice is pruning by the meet.** -/
theorem Document.prune_prune (m n : Mask) (d : Document) :
    (d.prune m).prune n = d.prune (m.meet n) := by
  -- The second test of a table is on its name, which the first pruning keeps.
  have hname : ((fun t : Table => n.table t.name) ∘ Table.prune m) = fun t => n.table t.name := by
    funext t
    exact congrArg n.table (t.name_prune m)
  have hprune : Table.prune n ∘ Table.prune m = Table.prune (m.meet n) := by
    funext t
    exact t.prune_prune m n
  unfold prune
  rw [List.filter_map, List.map_map, hname, hprune, List.filter_filter]
  simp only [Mask.meet, Bool.and_comm]

/-! ## Masks of one kind -/

theorem keepAt_all {α : Type} (xs : List α) : keepAt (fun _ _ => true) xs = xs := by
  rw [keepAt_eq_filter]
  exact List.filter_eq_self.2 fun _ _ => rfl

theorem Table.keepColumns_all (t : Table) : t.keepColumns (fun _ _ => true) = t := by
  unfold keepColumns
  rw [keepAt_all]

theorem Table.keepKeys_eq_self {keep : ForeignKey → Bool} {t : Table}
    (h : ∀ k ∈ t.keys, keep k = true) : (t.keepKeys fun _ k => keep k) = t := by
  obtain ⟨name, columns, primaryKey, keys⟩ := t
  cases keys with
  | none => rfl
  | some keys =>
    have hkept : keepAt (fun _ k => keep k) keys = keys := by
      rw [keepAt_eq_filter, List.filter_eq_self]
      exact h
    simp [keepKeys, hkept]

theorem Table.keepKeys_all (t : Table) : t.keepKeys (fun _ _ => true) = t :=
  keepKeys_eq_self fun _ _ => rfl

theorem Table.prune_columns (keep : String → String → Bool) (t : Table) :
    t.prune (.onColumns keep) = t.keepColumns fun _ c => keep t.name c.name :=
  Table.keepKeys_all _

theorem Table.prune_keys (keep : String → Bool) (t : Table) :
    t.prune (.onKeys keep) = t.keepKeys fun _ k => keep k.name :=
  congrArg (Table.keepKeys fun _ k => keep k.name) t.keepColumns_all

theorem Document.prune_tables (keep : String → Bool) (d : Document) :
    d.prune (.onTables keep) = d.keepTables fun _ t => keep t.name := by
  have hprune : Table.prune (.onTables keep) = id :=
    funext fun t => (t.prune_keys fun _ => true).trans t.keepKeys_all
  unfold prune keepTables
  rw [hprune, List.map_id, keepAt_eq_filter]
  rfl

theorem Document.prune_full (d : Document) : d.prune .full = d :=
  (d.prune_tables fun _ => true).trans (congrArg Document.mk (keepAt_all d.tables))

theorem Document.prune_eq_map {m : Mask} (hm : ∀ name, m.table name = true) (d : Document) :
    d.prune m = ⟨d.tables.map (Table.prune m)⟩ := by
  have htables : (d.tables.filter fun t => m.table t.name) = d.tables :=
    List.filter_eq_self.2 fun t _ => hm t.name
  rw [prune, htables]

/-! ## Statements as masks -/

/-- Does the target select by name? -/
def Target.isPattern : Target → Bool
  | pattern _ => true
  | index _ => false

/-- Does the target leave elements of this name alone? An index target does not look at names. -/
def Target.spares : Target → String → Bool
  | pattern glob, name => !glob.covers name
  | index _, _ => true

namespace Statement

/-- What the statement selects by. -/
def target : Statement → Target
  | deleteTables target | deleteColumns _ target | deleteKeys target => target

/-- What a statement with a pattern keeps. -/
def mask : Statement → Mask
  | deleteTables target => .onTables target.spares
  | deleteColumns tables target =>
    .onColumns fun table name => !tables.includes table || target.spares name
  | deleteKeys target => .onKeys target.spares

theorem apply_eq_prune {s : Statement} (h : s.target.isPattern = true) (d : Document) :
    s.apply d = d.prune s.mask := by
  cases s with
  | deleteTables target =>
    cases target with
    | index => cases h
    | pattern glob => exact (d.prune_tables fun name => !glob.covers name).symm
  | deleteColumns tables target =>
    cases target with
    | index => cases h
    | pattern glob =>
      rw [d.prune_eq_map fun _ => rfl]
      refine congrArg Document.mk (List.map_congr_left fun t _ => ?_)
      rw [mask, t.prune_columns]
      cases hchosen : tables.includes t.name with
      | true => rfl
      | false => exact t.keepColumns_all.symm
  | deleteKeys target =>
    cases target with
    | index => cases h
    | pattern glob =>
      rw [d.prune_eq_map fun _ => rfl]
      refine congrArg Document.mk (List.map_congr_left fun t _ => ?_)
      exact (t.prune_keys fun name => !glob.covers name).symm

theorem applyAll_eq_prune {statements : List Statement}
    (h : ∀ s ∈ statements, s.target.isPattern = true) (d : Document) :
    applyAll statements d = d.prune (.meetAll (statements.map mask)) := by
  induction statements generalizing d with
  | nil => rw [List.map_nil, Mask.meetAll_nil, d.prune_full, applyAll, List.foldl_nil]
  | cons s statements ih =>
    have htail : ∀ s ∈ statements, s.target.isPattern = true :=
      fun s hs => h s (List.mem_cons_of_mem _ hs)
    calc applyAll (s :: statements) d
        = applyAll statements (s.apply d) := rfl
      _ = (d.prune s.mask).prune (.meetAll (statements.map mask)) := by
          rw [apply_eq_prune (h s List.mem_cons_self), ih htail]
      _ = d.prune (.meetAll ((s :: statements).map mask)) := by
          rw [d.prune_prune, List.map_cons, Mask.meetAll_cons]

/-- Lists of the same statements, in any order and any number, do the same. -/
theorem applyAll_eq_of_subset {statements others : List Statement}
    (h : ∀ s ∈ statements, s.target.isPattern = true) (hsub : statements ⊆ others)
    (hsup : others ⊆ statements) (d : Document) : applyAll others d = applyAll statements d := by
  have hothers : ∀ s ∈ others, s.target.isPattern = true := fun s hs => h s (hsup hs)
  rw [applyAll_eq_prune h, applyAll_eq_prune hothers,
    Mask.meetAll_eq_of_subset (List.map_subset mask hsup) (List.map_subset mask hsub)]

/-- **Order and repetition do not matter.** Deletions by pattern give the same document in every
order, and when any of them are repeated at any places. -/
theorem pattern_deletions_ignore_order_and_repetition {statements : List Statement}
    (h : ∀ s ∈ statements, s.target.isPattern = true) (d : Document) :
    (∀ reordered, reordered.Perm statements →
      applyAll reordered d = applyAll statements d) ∧
    ∀ repeated, statements.Sublist repeated → repeated ⊆ statements →
      applyAll repeated d = applyAll statements d := by
  constructor
  · intro reordered hperm
    exact applyAll_eq_of_subset h hperm.symm.subset hperm.subset d
  · intro repeated hsub hsup
    exact applyAll_eq_of_subset h hsub.subset hsup d

/-- Two patterns that together empty a key list, with other deletions between them. -/
def emptyingDeletions : List Statement :=
  [deleteKeys (.pattern (.ofString "*_a")), deleteColumns .all (.pattern (.ofString "tmp?")),
    deleteTables (.pattern (.ofString "old_*")),
    deleteColumns (.named "users") (.pattern (.ofString "nam?")),
    deleteKeys (.pattern (.ofString "*_b"))]

/-- A table with two foreign keys, one that declares an empty list, and one with neither. -/
def threeTables : Document :=
  ⟨[⟨"orders", [⟨"id", "INTEGER", false⟩, ⟨"tmp1", "INTEGER", true⟩], none,
      some [⟨"fk_a", ["id"], "users", ["id"]⟩, ⟨"fk_b", ["id"], "users", ["id"]⟩]⟩,
    ⟨"users", [⟨"id", "INTEGER", false⟩, ⟨"name", "TEXT", false⟩], some ["id"], some []⟩,
    ⟨"old_users", [], none, none⟩]⟩

/-- Whichever pattern comes last, and however often, the emptied key list becomes absent and the one
that was declared empty stays. -/
theorem emptyingDeletions_reversed_and_repeated :
    (∀ s ∈ emptyingDeletions, s.target.isPattern = true) ∧
    applyAll emptyingDeletions threeTables =
      ⟨[⟨"orders", [⟨"id", "INTEGER", false⟩], none, none⟩,
        ⟨"users", [⟨"id", "INTEGER", false⟩], some ["id"], some []⟩]⟩ ∧
    applyAll emptyingDeletions.reverse threeTables = applyAll emptyingDeletions threeTables ∧
    applyAll (emptyingDeletions ++ emptyingDeletions) threeTables =
      applyAll emptyingDeletions threeTables := by
  have hpattern : ∀ s ∈ emptyingDeletions, s.target.isPattern = true := by decide
  have h := pattern_deletions_ignore_order_and_repetition hpattern threeTables
  refine ⟨hpattern, by cbv, h.1 _ (List.reverse_perm _), h.2 _ (List.sublist_append_left _ _) ?_⟩
  exact List.append_subset.2 ⟨List.Subset.refl _, List.Subset.refl _⟩

end Statement

end SchemaShaper

import SchemaShaper.Edit.Deletion
import SchemaShaper.Edit.Injection
import Mathlib.Data.List.Forall2
import Mathlib.Data.List.NodupEquivFin

/-!
# Descent of documents under edits

A table descends from another when edits may have made it of that one (`Table.Descends`): it has
the same name and primary key, its columns are some of the columns in their order, and its foreign
keys are some of the keys in their order followed by added ones. A document descends from another
when its tables descend, in order, from some of the tables (`Document.Descends`).

Descent is reflexive and transitive, and every single edit leaves a document that descends from the
one before (`Statement.apply_descends`, `Document.addKeyEntry_descends`). So a whole history of
edits is covered by transitivity alone. A document that descends from another sends the positions of
its tables to positions of that one, in strictly increasing order
(`Document.Descends.exists_origin`).
-/

namespace SchemaShaper

/-- The table may have been made of `origin` by edits, where `added` says which foreign keys may
have been added to a table of a name. A key list is declared empty only if it was so before. -/
structure Table.Descends (added : String → ForeignKey → Prop) (t origin : Table) : Prop where
  name_eq : t.name = origin.name
  primaryKey_eq : t.primaryKey = origin.primaryKey
  columns_sublist : t.columns.Sublist origin.columns
  keys_eq_append : ∃ kept new, t.keys = kept ++ new ∧ kept.Sublist origin.keys ∧
    ∀ k ∈ new, added t.name k
  declared_empty : t.foreignKeys = some [] → origin.foreignKeys = some []

/-- The tables descend, in order, from some of the tables of `origin`. -/
def Document.Descends (added : String → ForeignKey → Prop) (d origin : Document) : Prop :=
  List.SublistForall₂ (Table.Descends added) d.tables origin.tables

variable {added : String → ForeignKey → Prop}

/-! ## Descent is a preorder -/

theorem Table.Descends.refl (t : Table) : t.Descends added t :=
  ⟨rfl, rfl, List.Sublist.refl _,
    ⟨t.keys, [], (List.append_nil _).symm, List.Sublist.refl _, by simp⟩, id⟩

theorem Table.Descends.trans {t u v : Table} (h₁ : t.Descends added u) (h₂ : u.Descends added v) :
    t.Descends added v := by
  obtain ⟨kept₁, new₁, hk₁, hs₁, ha₁⟩ := h₁.keys_eq_append
  obtain ⟨kept₂, new₂, hk₂, hs₂, ha₂⟩ := h₂.keys_eq_append
  rw [hk₂] at hs₁
  obtain ⟨kept, new, rfl, hkept, hnew⟩ := List.sublist_append_iff.1 hs₁
  refine ⟨h₁.name_eq.trans h₂.name_eq, h₁.primaryKey_eq.trans h₂.primaryKey_eq,
    h₁.columns_sublist.trans h₂.columns_sublist, ⟨kept, new ++ new₁, ?_, hkept.trans hs₂, ?_⟩,
    fun h => h₂.declared_empty (h₁.declared_empty h)⟩
  · rw [hk₁, List.append_assoc]
  · intro k hk
    rcases List.mem_append.1 hk with hk | hk
    · rw [h₁.name_eq]
      exact ha₂ k (hnew.subset hk)
    · exact ha₁ k hk

instance : Std.Refl (Table.Descends added) := ⟨Table.Descends.refl⟩

instance : IsTrans Table (Table.Descends added) := ⟨fun _ _ _ => Table.Descends.trans⟩

theorem Document.Descends.refl (d : Document) : d.Descends added d :=
  List.SublistForall₂.is_refl.refl d.tables

theorem Document.Descends.trans {d₁ d₂ d₃ : Document} (h₁ : d₁.Descends added d₂)
    (h₂ : d₂.Descends added d₃) : d₁.Descends added d₃ :=
  List.SublistForall₂.is_trans.trans _ _ _ h₁ h₂

theorem Table.Descends.mono {added' : String → ForeignKey → Prop}
    (hadded : ∀ n k, added n k → added' n k) {t origin : Table} (h : t.Descends added origin) :
    t.Descends added' origin := by
  obtain ⟨kept, new, hkeys, hkept, hnew⟩ := h.keys_eq_append
  exact ⟨h.name_eq, h.primaryKey_eq, h.columns_sublist,
    ⟨kept, new, hkeys, hkept, fun k hk => hadded _ k (hnew k hk)⟩, h.declared_empty⟩

theorem Document.Descends.mono {added' : String → ForeignKey → Prop}
    (hadded : ∀ n k, added n k → added' n k) {d origin : Document} (h : d.Descends added origin) :
    d.Descends added' origin := by
  obtain ⟨origins, hdescend, hsub⟩ := List.sublistForall₂_iff.1 h
  exact List.sublistForall₂_iff.2 ⟨origins, hdescend.imp fun _ _ => .mono hadded, hsub⟩

/-! ## Positions -/

/-- Each table descends from the one at a position of its own, and later ones from later ones. -/
theorem Document.Descends.exists_origin {d origin : Document} (h : d.Descends added origin) :
    ∃ position : Fin d.tables.length → Fin origin.tables.length, StrictMono position ∧
      ∀ i, (d.tables.get i).Descends added (origin.tables.get (position i)) := by
  obtain ⟨origins, hdescend, hsub⟩ := List.sublistForall₂_iff.1 h
  obtain ⟨hlength, hget⟩ := List.forall₂_iff_get.1 hdescend
  obtain ⟨embed, hembed⟩ := List.sublist_iff_exists_fin_orderEmbedding_get_eq.1 hsub
  refine ⟨fun i => embed (i.cast hlength), fun i j hij => ?_, fun i => ?_⟩
  · exact embed.strictMono hij
  · rw [← hembed]
    exact hget i i.isLt (hlength ▸ i.isLt)

theorem Document.Descends.exists_of_mem {d origin : Document} (h : d.Descends added origin)
    {t : Table} (ht : t ∈ d.tables) : ∃ u ∈ origin.tables, t.Descends added u := by
  obtain ⟨position, -, hdescend⟩ := h.exists_origin
  obtain ⟨i, rfl⟩ := List.get_of_mem ht
  exact ⟨_, List.get_mem _ _, hdescend i⟩

/-! ## Deletions -/

theorem Table.keepColumns_descends (keep : Nat → Column → Bool) (t : Table) :
    (t.keepColumns keep).Descends added t :=
  ⟨rfl, rfl, keepAt_sublist keep t.columns,
    ⟨t.keys, [], (List.append_nil _).symm, List.Sublist.refl _, by simp⟩, id⟩

/-- A deletion that empties a key list makes it absent. -/
theorem Table.declared_empty_of_keepKeys {keep : Nat → ForeignKey → Bool} {t : Table}
    (h : (t.keepKeys keep).foreignKeys = some []) : t.foreignKeys = some [] := by
  unfold Table.keepKeys at h
  cases hk : t.foreignKeys with
  | none => simp [hk] at h
  | some keys =>
    simp only [hk] at h
    split at h
    · cases h
    · next hne =>
      rw [Option.some.injEq] at h
      simpa [h] using hne

theorem Table.keepKeys_descends (keep : Nat → ForeignKey → Bool) (t : Table) :
    (t.keepKeys keep).Descends added t where
  name_eq := t.name_keepKeys keep
  primaryKey_eq := t.primaryKey_keepKeys keep
  columns_sublist := by rw [t.columns_keepKeys keep]
  keys_eq_append := ⟨keepAt keep t.keys, [], by simp, keepAt_sublist keep t.keys, by simp⟩
  declared_empty := Table.declared_empty_of_keepKeys

/-- Editing every table on its own. -/
theorem Document.map_descends {f : Table → Table} (hf : ∀ t, (f t).Descends added t)
    (d : Document) : Document.Descends added ⟨d.tables.map f⟩ d :=
  List.sublistForall₂_iff.2
    ⟨d.tables, List.forall₂_map_left_iff.2 (List.forall₂_same.2 fun t _ => hf t),
      List.Sublist.refl _⟩

theorem Document.keepTables_descends (keep : Nat → Table → Bool) (d : Document) :
    (d.keepTables keep).Descends added d :=
  (keepAt_sublist keep d.tables).sublistForall₂

/-- What a deletion statement leaves descends from what was there. -/
theorem Statement.apply_descends (s : Statement) (d : Document) : (s.apply d).Descends added d := by
  cases s with
  | deleteTables target => exact d.keepTables_descends _
  | deleteColumns tables target =>
    refine d.map_descends fun t => ?_
    split
    · exact t.keepColumns_descends _
    · exact .refl t
  | deleteKeys target => exact d.map_descends fun t => t.keepKeys_descends _

theorem Document.deleteEntry_descends {entry : String} {d d' : Document}
    (h : d.deleteEntry entry = .ok d') : d'.Descends added d := by
  obtain ⟨s, -, rfl⟩ := Document.deleteEntry_eq_ok_iff.1 h
  exact s.apply_descends d

/-! ## Injections -/

theorem Table.pushKey_descends {t : Table} {key : ForeignKey} (h : added t.name key) :
    (t.pushKey key).Descends added t where
  name_eq := rfl
  primaryKey_eq := rfl
  columns_sublist := List.Sublist.refl _
  keys_eq_append := ⟨t.keys, [key], rfl, List.Sublist.refl _, by simpa [Table.pushKey] using h⟩
  declared_empty := by simp [Table.pushKey]

/-- Editing the first table of a name. -/
theorem Document.modifyTable_descends {name : String} {f : Table → Table}
    (hf : ∀ t, t.name = name → (f t).Descends added t) (d : Document) :
    (d.modifyTable name f).Descends added d := by
  have hgo : ∀ ts : List Table,
      List.SublistForall₂ (Table.Descends added) (Document.modifyTable.go name f ts) ts := by
    intro ts
    induction ts with
    | nil => exact .nil
    | cons t ts ih =>
      rw [Document.modifyTable.go]
      split
      · next h => exact .cons (hf t (beq_iff_eq.1 h)) (List.SublistForall₂.is_refl.refl ts)
      · exact .cons (.refl t) ih
  exact hgo d.tables

theorem Document.addKey_descends {s : KeySpec} {d d' : Document} {name : String}
    (hadded : added s.sourceTable (s.key name)) (h : d.addKey s = .ok (d', name)) :
    d'.Descends added d := by
  obtain ⟨_, -, -, rfl⟩ := Document.addKey_eq_ok_iff.1 h
  refine d.modifyTable_descends fun t ht => Table.pushKey_descends ?_
  rwa [ht]

/-- What an injected key leaves descends from what was there, when its spec may be added under a
name generated for its source table. -/
theorem Document.addKeyEntry_descends {entry : String} {d d' : Document}
    (hadded : ∀ s t, KeySpec.parse entry = .ok s → t.name = s.sourceTable →
      added s.sourceTable (s.key (s.nameIn t)))
    (h : d.addKeyEntry entry = .ok d') : d'.Descends added d := by
  obtain ⟨s, name, hs, hd⟩ := Document.addKeyEntry_eq_ok_iff.1 h
  obtain ⟨t, ht, hname, -⟩ := Document.addKey_eq_ok_iff.1 hd
  exact Document.addKey_descends (hname ▸ hadded s t hs (Document.name_of_table? ht)) hd

end SchemaShaper

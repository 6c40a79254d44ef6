import SchemaShaper.Proofs.Edit.Additions
import SchemaShaper.Proofs.Edit.KeyNames

/-!
# Batches of added keys in another order

The name of a new key depends on what was added before it, but only through the numbers in use
behind its own stem (`KeyName.next_congr`). A name determines its stem, so keys with different stems
do not take each other's numbers, and keys with one stem take the same numbers in either order
(`KeySpec.extend_swap`). Hence a batch adds the same names and the same ends to each table in every
order of its entries (`Document.addKeys_reordered`), though which of two keys with one stem gets
which number may change.
-/

namespace SchemaShaper

/-- The tables differ at most in the order of their foreign keys, and in which of them has which
name. -/
structure Table.SameKeys (t u : Table) : Prop where
  name_eq : t.name = u.name
  columns_eq : t.columns = u.columns
  primaryKey_eq : t.primaryKey = u.primaryKey
  keyNames_perm : t.keyNames.Perm u.keyNames
  ends_perm : (t.keys.map ForeignKey.ends).Perm (u.keys.map ForeignKey.ends)

namespace Table.SameKeys

theorem refl (t : Table) : t.SameKeys t := ⟨rfl, rfl, rfl, .refl _, .refl _⟩

theorem trans {t u v : Table} (h₁ : t.SameKeys u) (h₂ : u.SameKeys v) : t.SameKeys v :=
  ⟨h₁.name_eq.trans h₂.name_eq, h₁.columns_eq.trans h₂.columns_eq,
    h₁.primaryKey_eq.trans h₂.primaryKey_eq, h₁.keyNames_perm.trans h₂.keyNames_perm,
    h₁.ends_perm.trans h₂.ends_perm⟩

end Table.SameKeys

/-! ## One table -/

namespace KeySpec

/-- The part of its name that the key of the spec shares with keys of the same ends. -/
def stem (s : KeySpec) : String := KeyName.stem s.sourceTable s.targetTable s.sourceColumns

theorem name_extend (s : KeySpec) (t : Table) : (s.extend t).name = t.name := rfl

theorem columns_extend (s : KeySpec) (t : Table) : (s.extend t).columns = t.columns := rfl

theorem primaryKey_extend (s : KeySpec) (t : Table) : (s.extend t).primaryKey = t.primaryKey := rfl

theorem keyNames_extend (s : KeySpec) (t : Table) :
    (s.extend t).keyNames = t.keyNames ++ [s.nameIn t] :=
  t.keyNames_pushKey (s.key (s.nameIn t))

theorem ends_extend (s : KeySpec) (t : Table) :
    (s.extend t).keys.map ForeignKey.ends = t.keys.map ForeignKey.ends ++ [s.ends] := by
  rw [extend, Table.keys_pushKey, List.map_append]
  rfl

theorem nameIn_of_stem_eq {a b : KeySpec} (h : a.stem = b.stem) (t : Table) :
    a.nameIn t = b.nameIn t :=
  KeyName.next_of_stem_eq h t.keyNames

theorem nameIn_congr {t u : Table} (h : t.SameKeys u) (s : KeySpec) : s.nameIn t = s.nameIn u :=
  KeyName.next_congr fun _ => h.keyNames_perm.mem_iff

/-- A key with another stem does not take a number of this one. -/
theorem nameIn_extend {a b : KeySpec} (h : a.stem ≠ b.stem) (t : Table) :
    b.nameIn (a.extend t) = b.nameIn t := by
  refine KeyName.next_congr fun n => ?_
  rw [keyNames_extend, List.mem_append, List.mem_singleton]
  refine or_iff_left fun heq => h ?_
  obtain ⟨m, -, -, hname, -, -⟩ :=
    KeyName.next_spec a.sourceTable a.targetTable a.sourceColumns t.keyNames
  exact (KeyName.stem_eq_of_numbered_eq (heq.trans hname)).symm

theorem extend_congr {t u : Table} (h : t.SameKeys u) (s : KeySpec) :
    (s.extend t).SameKeys (s.extend u) := by
  refine ⟨h.name_eq, h.columns_eq, h.primaryKey_eq, ?_, ?_⟩
  · rw [keyNames_extend, keyNames_extend, nameIn_congr h]
    exact h.keyNames_perm.append_right _
  · rw [ends_extend, ends_extend]
    exact h.ends_perm.append_right _

/-- **Two specs in either order.** -/
theorem extend_swap (a b : KeySpec) (t : Table) :
    (b.extend (a.extend t)).SameKeys (a.extend (b.extend t)) := by
  refine ⟨by simp only [name_extend], by simp only [columns_extend],
    by simp only [primaryKey_extend], ?_, ?_⟩
  · rw [keyNames_extend, keyNames_extend, keyNames_extend, keyNames_extend]
    by_cases hstem : a.stem = b.stem
    · -- The names are then the same, one by one.
      have hfirst : a.nameIn t = b.nameIn t := nameIn_of_stem_eq hstem t
      have hsecond : b.nameIn (a.extend t) = a.nameIn (b.extend t) := by
        rw [nameIn_of_stem_eq hstem]
        refine KeyName.next_congr fun n => ?_
        rw [keyNames_extend, keyNames_extend, hfirst]
      rw [hfirst, hsecond]
    · rw [nameIn_extend hstem, nameIn_extend (Ne.symm hstem), List.append_assoc, List.append_assoc]
      exact List.perm_append_comm.append_left _
  · rw [ends_extend, ends_extend, ends_extend, ends_extend, List.append_assoc, List.append_assoc]
    exact List.perm_append_comm.append_left _

end KeySpec

namespace Table

theorem addSpecs_congr {t u : Table} (h : t.SameKeys u) (specs : List KeySpec) :
    (t.addSpecs specs).SameKeys (u.addSpecs specs) := by
  induction specs generalizing t u with
  | nil => exact h
  | cons s specs ih => exact ih (KeySpec.extend_congr h s)

theorem addSpecs_perm {specs reordered : List KeySpec} (h : reordered.Perm specs) (t : Table) :
    (t.addSpecs reordered).SameKeys (t.addSpecs specs) := by
  induction h generalizing t with
  | nil => exact .refl t
  | cons s _ ih => exact ih (s.extend t)
  | swap a b specs => exact addSpecs_congr (KeySpec.extend_swap b a t) specs
  | trans _ _ ih₁ ih₂ => exact (ih₁ t).trans (ih₂ t)

end Table

/-! ## Documents -/

namespace Document

theorem specsAt_perm {specs reordered : List KeySpec} (h : reordered.Perm specs) (d : Document)
    (i : Nat) (name : String) : (d.specsAt i name reordered).Perm (d.specsAt i name specs) := by
  unfold specsAt
  split
  · exact .refl _
  · exact h.filter _

theorem addSpecs_perm {specs reordered : List KeySpec} (h : reordered.Perm specs) (d : Document) :
    List.Forall₂ Table.SameKeys (d.addSpecs reordered).tables (d.addSpecs specs).tables := by
  have htable : ∀ specs i (hi : i < (d.addSpecs specs).tables.length) (hd : i < d.tables.length),
      (d.addSpecs specs).tables[i] =
        d.tables[i].addSpecs (d.specsAt i d.tables[i].name specs) := by
    intro specs i hi hd
    have hi' := d.getElem?_addSpecs specs i
    rwa [List.getElem?_eq_getElem hi, List.getElem?_eq_getElem hd, Option.map_some,
      Option.some.injEq] at hi'
  refine List.forall₂_iff_get.2
    ⟨by rw [length_addSpecs, length_addSpecs], fun i hreordered hspecs => ?_⟩
  have hd : i < d.tables.length := d.length_addSpecs specs ▸ hspecs
  rw [List.get_eq_getElem, List.get_eq_getElem, htable reordered i hreordered hd,
    htable specs i hspecs hd]
  exact Table.addSpecs_perm (specsAt_perm h d i _) _

/-- **The order of a batch does not matter.** A batch that succeeds does so in every order of its
entries, and each table gains the same names and the same ends. -/
theorem addKeys_reordered {entries reordered : List String} {d : Document}
    (h : (d.addKeys entries).failure = none) (hperm : reordered.Perm entries) :
    (d.addKeys reordered).failure = none ∧ List.Forall₂ Table.SameKeys
      (d.addKeys reordered).document.tables (d.addKeys entries).document.tables := by
  have haccepts := failure_addKeys_eq_none_iff.1 h
  have hreordered : (d.addKeys reordered).failure = none :=
    failure_addKeys_eq_none_iff.2 fun entry hentry => haccepts entry (hperm.mem_iff.1 hentry)
  obtain ⟨specs, hr, hleft⟩ := exists_specs_of_success h
  obtain ⟨specs', hr', hleft'⟩ := exists_specs_of_success hreordered
  refine ⟨hreordered, ?_⟩
  rw [hleft, hleft']
  exact addSpecs_perm (hr.perm hr' hperm) d

/-- Two tables, one of them with a key written by hand under the second number of a stem. -/
def secondNumberTaken : Document :=
  ⟨[⟨"a", [⟨"d", "INTEGER", false⟩, ⟨"c_d", "INTEGER", false⟩], none,
      some [⟨"fk_a_b_c_d_2", ["d"], "b", ["k"]⟩]⟩,
    ⟨"b", [⟨"k", "INTEGER", false⟩], none, none⟩]⟩

/-- Different ends that share this stem, and a key of the other table. -/
def stemSharers : List String :=
  ["a|d|-->|b_c|k", "# the same stem", "a|c_d|-->|b|k", "b|k|-->|a|d"]

theorem stemSharers_reversed :
    (secondNumberTaken.addKeys stemSharers).failure = none ∧
    stemSharers.reverse.Perm stemSharers ∧
    (secondNumberTaken.addKeys stemSharers).document.tables.map
        (·.keys.map fun k => (k.name, k.sourceColumns)) =
      [[("fk_a_b_c_d_2", ["d"]), ("fk_a_b_c_d_1", ["d"]), ("fk_a_b_c_d_3", ["c_d"])],
        [("fk_b_a_k_1", ["k"])]] ∧
    (secondNumberTaken.addKeys stemSharers.reverse).document.tables.map
        (·.keys.map fun k => (k.name, k.sourceColumns)) =
      [[("fk_a_b_c_d_2", ["d"]), ("fk_a_b_c_d_1", ["c_d"]), ("fk_a_b_c_d_3", ["d"])],
        [("fk_b_a_k_1", ["k"])]] ∧
    (secondNumberTaken.addKeys stemSharers.reverse).failure = none ∧
    List.Forall₂ Table.SameKeys (secondNumberTaken.addKeys stemSharers.reverse).document.tables
      (secondNumberTaken.addKeys stemSharers).document.tables := by
  have hsuccess : (secondNumberTaken.addKeys stemSharers).failure = none := by decide +kernel
  have hperm : stemSharers.reverse.Perm stemSharers := List.reverse_perm _
  exact ⟨hsuccess, hperm, by decide +kernel, by decide +kernel, addKeys_reordered hsuccess hperm⟩

end Document

end SchemaShaper

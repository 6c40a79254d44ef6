import SchemaShaper.Proofs.Edit.Additions
import SchemaShaper.Proofs.Edit.KeyNames
import SchemaShaper.Proofs.Edit.Pruning
import SchemaShaper.Proofs.Edit.Removals
import SchemaShaper.Proofs.Edit.StatementTexts
import SchemaShaper.Proofs.Glob.Language

/-!
# Undoing an addition

The name that a new foreign key gets can be deleted again by a statement with this name as its
pattern (`Document.addKey_undone_by_name`).

* The statement reads back whatever the tables and columns are called, since a generated name begins
  with a letter and ends with a digit (`KeyName.bare_numbered`).
* A name without wildcards is a pattern for itself alone, so that the statement deletes the keys of
  this name (`Table.deleteKeys_named`). In its own table the new key is the only one.
* A table that had no key is left without one. The addition declared its list, and the deletion
  makes the emptied list absent (`Table.keepKeys_pushKey`).
-/

namespace SchemaShaper

/-! ## The statement -/

theorem KeyName.bare_numbered (source target : String) (columns : List String) (n : Nat) :
    Text.Bare (numbered source target columns n).toList := by
  have hdigit : ∀ c ∈ Decimal.digits n, Text.isBlank c = false :=
    fun c hc => Text.isBlank_of_isDigit (Decimal.isDigit_of_mem_digits hc)
  have hdigits : Text.Bare (Decimal.digits n) :=
    ⟨fun c hc => hdigit c (List.mem_of_mem_head? hc),
      fun c hc => hdigit c (List.mem_of_mem_getLast? hc)⟩
  have hname : (numbered source target columns n).toList = "fk_".toList ++
      ((source ++ "_" ++ target ++ "_" ++ Text.joinWith "_" columns ++ "_").toList ++
        Decimal.digits n) := by
    rw [toList_numbered, stem]
    simp [String.toList_append]
  rw [hname]
  exact Text.bare_append (by decide) (by decide) hdigits (Decimal.digits_ne_nil n)

theorem KeySpec.parse_deletion (s : KeySpec) (t : Table) :
    Statement.parse ("del fk pattern:" ++ s.nameIn t) =
      .ok (.deleteKeys (.pattern (.ofString (s.nameIn t)))) := by
  obtain ⟨n, -, -, hname, -⟩ :=
    KeyName.next_spec s.sourceTable s.targetTable s.sourceColumns t.keyNames
  have hreadable : (Statement.deleteKeys (.pattern (.ofString (s.nameIn t)))).Readable := by
    unfold nameIn
    rw [hname]
    refine .pattern ?_ (KeyName.bare_numbered _ _ _ n)
    rw [KeyName.toList_numbered]
    simp
  have hdisplay : (Statement.deleteKeys (.pattern (.ofString (s.nameIn t)))).display =
      "del fk pattern:" ++ s.nameIn t := by
    rw [Statement.display, Target.display, Glob.ofString, ← String.append_assoc]
    rfl
  rw [← hdisplay]
  exact Statement.parse_display hreadable

/-! ## One table -/

/-- The table, where a list of foreign keys that is declared empty becomes absent. -/
def Table.undeclared (t : Table) : Table :=
  if t.foreignKeys = some [] then { t with foreignKeys := none } else t

theorem Table.keys_undeclared (t : Table) : t.undeclared.keys = t.keys := by
  unfold undeclared
  split
  · next hempty => simp [keys, hempty]
  · rfl

theorem Table.keepKeys_pushKey {keep : ForeignKey → Bool} {t : Table} {key : ForeignKey}
    (hold : ∀ k ∈ t.keys, keep k = true) (hnew : keep key = false) :
    ((t.pushKey key).keepKeys fun _ k => keep k) = t.undeclared := by
  have hkept : keepAt (fun _ k => keep k) (t.keys ++ [key]) = t.keys := by
    rw [keepAt_eq_filter, List.filter_append, List.filter_eq_self.2 hold]
    simp [hnew]
  have hleft : ((t.pushKey key).keepKeys fun _ k => keep k) =
      { t with foreignKeys := if t.keys = [] then none else some t.keys } := by
    simp [keepKeys, pushKey, hkept]
  rw [hleft]
  clear hold hkept hleft
  obtain ⟨name, columns, primaryKey, keys⟩ := t
  cases keys with
  | none => rfl
  | some keys =>
    cases keys with
    | nil => rfl
    | cons k keys => simp [Table.keys, Table.undeclared]

theorem Table.name_bne_of_not_mem {name : String} {t : Table} (h : name ∉ t.keyNames) :
    ∀ k ∈ t.keys, (k.name != name) = true := by
  intro k hk
  rw [bne_iff_ne]
  rintro rfl
  exact h (List.mem_map_of_mem hk)

section Named

variable {name : String} (hplain : Glob.Plain name.toList)

include hplain

theorem Table.deleteKeys_named (t : Table) :
    t.deleteKeys (.pattern (.ofString name)) = t.keepKeys fun _ k => k.name != name := by
  have htest : ∀ k : ForeignKey, (!(Glob.ofString name).covers k.name) = (k.name != name) := by
    intro k
    rw [Bool.eq_iff_iff, Bool.not_eq_true', ← Bool.not_eq_true, hplain.covers_iff, bne_iff_ne]
  unfold deleteKeys
  simp only [Target.selects, htest]

theorem Table.deleteKeys_named_of_not_mem {t : Table} (h : name ∉ t.keyNames) :
    t.deleteKeys (.pattern (.ofString name)) = t := by
  rw [deleteKeys_named hplain]
  exact keepKeys_eq_self (name_bne_of_not_mem h)

theorem Table.deleteKeys_named_pushKey {t : Table} {key : ForeignKey} (h : name ∉ t.keyNames)
    (hkey : key.name = name) :
    (t.pushKey key).deleteKeys (.pattern (.ofString name)) = t.undeclared := by
  rw [deleteKeys_named hplain]
  apply keepKeys_pushKey (name_bne_of_not_mem h)
  rw [hkey, bne_self_eq_false]

end Named

/-! ## The document -/

namespace KeySpec

variable {s : KeySpec} {front back : List Table} {t : Table}
  (hplain : Glob.Plain (s.nameIn t).toList) (hothers : ∀ u ∈ front ++ back, s.nameIn t ∉ u.keyNames)

include hplain hothers

theorem apply_deletion :
    (Statement.deleteKeys (.pattern (.ofString (s.nameIn t)))).apply
      ⟨front ++ s.extend t :: back⟩ = ⟨front ++ t.undeclared :: back⟩ := by
  have hspared : ∀ ts : List Table, (∀ u ∈ ts, s.nameIn t ∉ u.keyNames) →
      ts.map (·.deleteKeys (.pattern (.ofString (s.nameIn t)))) = ts := by
    intro ts hts
    refine (List.map_congr_left fun u hu => ?_).trans (List.map_id ts)
    exact Table.deleteKeys_named_of_not_mem hplain (hts u hu)
  obtain ⟨hfront, hback⟩ := List.forall_mem_append.1 hothers
  rw [Statement.apply, extend, List.map_append, List.map_cons, hspared front hfront,
    hspared back hback, Table.deleteKeys_named_pushKey hplain (s.nameIn_not_mem t) rfl]

theorem removed_deletion :
    (Statement.deleteKeys (.pattern (.ofString (s.nameIn t)))).removed
      ⟨front ++ s.extend t :: back⟩ = 1 := by
  rw [Statement.removed, apply_deletion hplain hothers, Statement.count_deleteKeys,
    Statement.count_deleteKeys]
  simp only [List.map_append, List.map_cons, List.sum_append, List.sum_cons,
    Table.keys_undeclared, extend, Table.keys_pushKey, List.length_append, List.length_singleton]
  omega

end KeySpec

/-- **An addition is undone by deleting the generated name.** Whatever the document and the spec,
the key is added when the source table is there. When the new name is plain and no other table has a
key of that name, the statement that deletes it is read, removes one key and leaves the document
from before the addition, except that a list of foreign keys that the source table declared empty
becomes absent. -/
theorem Document.addKey_undone_by_name (d : Document) (s : KeySpec) :
    (s.sourceTable ∈ d.tableNames → ∃ front t back d' name,
      d.FirstAt s.sourceTable front t back ∧ d.addKey s = .ok (d', name)) ∧
    ∀ front t back d' name, d.FirstAt s.sourceTable front t back → d.addKey s = .ok (d', name) →
      Glob.Plain name.toList → (∀ u ∈ front ++ back, name ∉ u.keyNames) →
      ∃ statement, Statement.parse ("del fk pattern:" ++ name) = .ok statement ∧
        statement.removed d' = 1 ∧
        (t.foreignKeys ≠ some [] → statement.apply d' = d) ∧
        (t.foreignKeys = some [] →
          statement.apply d' = ⟨front ++ { t with foreignKeys := none } :: back⟩) := by
  constructor
  · intro hsource
    obtain ⟨t, ht⟩ := mem_tableNames_iff.1 hsource
    obtain ⟨front, back, hfirst⟩ := table?_eq_some_iff_firstAt.1 ht
    exact ⟨front, t, back, _, _, hfirst, hfirst.addKey_eq⟩
  · intro front t back d' name hfirst hadd hplain hothers
    rw [hfirst.addKey_eq] at hadd
    cases hadd
    refine ⟨_, s.parse_deletion t, KeySpec.removed_deletion hplain hothers, ?_, ?_⟩
    · intro hdeclared
      rw [KeySpec.apply_deletion hplain hothers, Table.undeclared, if_neg hdeclared,
        ← hfirst.tables_eq]
    · intro hempty
      rw [KeySpec.apply_deletion hplain hothers, Table.undeclared, if_pos hempty]

/-- A table with a blank and a bracket in its name, where the first number is taken. -/
def oddTable : Table :=
  ⟨"a] b", [⟨"x y", "INTEGER", true⟩], none,
    some [⟨"fk_a] b_c!_x y_1", ["x y"], "c!", ["id"]⟩, ⟨"fk_a] b_c!_x y_", [], "c!", []⟩]⟩

/-- A table that declares an empty list of foreign keys. -/
def emptyListed : Table := ⟨"c!", [⟨"id", "INTEGER", false⟩], some ["id"], some []⟩

/-- A table with the name and a key of the first one. -/
def repeatedTable : Table := ⟨"a] b", [], none, some [⟨"fk_a] b_c!_x y_1", [], "c!", []⟩]⟩

def oddNames : Document := ⟨[oddTable, emptyListed, repeatedTable]⟩

def oddSpec : KeySpec := ⟨"a] b", ["x y"], "c!", ["id"]⟩

def selfSpec : KeySpec := ⟨"c!", ["id"], "c!", ["id"]⟩

/-- The second number of a name that another table has with the first one, and a table that gets its
first key. -/
theorem oddNames_undone :
    (oddNames.FirstAt "a] b" [] oddTable [emptyListed, repeatedTable] ∧
      ∃ d', oddNames.addKey oddSpec = .ok (d', "fk_a] b_c!_x y_2") ∧
        ∃ statement, Statement.parse ("del fk pattern:" ++ "fk_a] b_c!_x y_2") = .ok statement ∧
          statement.removed d' = 1 ∧ statement.apply d' = oddNames) ∧
    oddNames.FirstAt "c!" [oddTable] emptyListed [repeatedTable] ∧
      ∃ d', oddNames.addKey selfSpec = .ok (d', "fk_c!_c!_id_1") ∧
        ∃ statement, Statement.parse ("del fk pattern:" ++ "fk_c!_c!_id_1") = .ok statement ∧
          statement.removed d' = 1 ∧
          statement.apply d' = ⟨[oddTable, ⟨"c!", emptyListed.columns, some ["id"], none⟩,
            repeatedTable]⟩ := by
  constructor
  · have hfirst : oddNames.FirstAt "a] b" [] oddTable [emptyListed, repeatedTable] :=
      ⟨rfl, rfl, by simp⟩
    have hname : oddSpec.nameIn oddTable = "fk_a] b_c!_x y_2" := by decide +kernel
    have hadd := Document.FirstAt.addKey_eq (s := oddSpec) hfirst
    rw [hname] at hadd
    obtain ⟨statement, hparse, hremoved, hsame, -⟩ := (oddNames.addKey_undone_by_name oddSpec).2
      _ _ _ _ _ hfirst hadd (by decide) (by decide)
    exact ⟨hfirst, _, hadd, statement, hparse, hremoved, hsame (by decide)⟩
  · have hfirst : oddNames.FirstAt "c!" [oddTable] emptyListed [repeatedTable] :=
      ⟨rfl, rfl, by decide⟩
    have hname : selfSpec.nameIn emptyListed = "fk_c!_c!_id_1" := by decide +kernel
    have hadd := Document.FirstAt.addKey_eq (s := selfSpec) hfirst
    rw [hname] at hadd
    obtain ⟨statement, hparse, hremoved, -, hempty⟩ := (oddNames.addKey_undone_by_name selfSpec).2
      _ _ _ _ _ hfirst hadd (by decide) (by decide)
    exact ⟨hfirst, _, hadd, statement, hparse, hremoved, hempty rfl⟩

end SchemaShaper

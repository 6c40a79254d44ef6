import SchemaShaper.Document.Finding
import SchemaShaper.Proofs.Edit.Additions
import SchemaShaper.Proofs.Edit.KeyNames
import SchemaShaper.Proofs.Edit.Removals
import Mathlib.Data.List.Flatten

/-!
# Findings when foreign keys come and go

What the check says of one foreign key depends on the key and on the document without any keys
(`Document.checkKey_congr`), and what it says of names and primary keys does not depend on keys at
all. So documents that differ in their keys only have the same findings about the keys they share,
and in the same places.

Deleting keys leaves, in every table, some of its keys in order (`Table.FewerKeys`), so that the
findings after it are some of those before it, in order (`Document.check_sublist`). Adding a key
puts its findings behind those of the table it goes to (`Document.FirstAt.check_eq`).
-/

namespace SchemaShaper

/-! ## Documents without their keys -/

/-- The table without foreign keys. -/
def Table.keyless (t : Table) : Table := { t with foreignKeys := none }

/-- The document without foreign keys. -/
def Document.keyless (d : Document) : Document := ⟨d.tables.map Table.keyless⟩

/-- The tables differ in their foreign keys only, and the first has, in order, some of those of the
second. -/
structure Table.FewerKeys (t origin : Table) : Prop where
  keyless_eq : t.keyless = origin.keyless
  keys_sublist : t.keys.Sublist origin.keys

theorem Table.FewerKeys.refl (t : Table) : t.FewerKeys t := ⟨rfl, List.Sublist.refl _⟩

theorem Table.fewerKeys_deleteKeys (target : Target) (t : Table) :
    (t.deleteKeys target).FewerKeys t := by
  unfold deleteKeys
  constructor
  · rw [keepKeys_eq]
    rfl
  · rw [keys_keepKeys]
    exact keepAt_sublist _ t.keys

namespace Document

theorem table?_keyless (d : Document) (name : String) :
    d.keyless.table? name = (d.table? name).map Table.keyless := by
  unfold table? keyless
  rw [List.find?_map]
  rfl

theorem checkKey_keyless (d : Document) (t : Table) (k : ForeignKey) :
    d.keyless.checkKey t.keyless k = d.checkKey t k := by
  unfold checkKey
  rw [table?_keyless]
  cases d.table? k.targetTable <;> rfl

theorem keyless_eq_of_forall₂ {d d' : Document}
    (h : List.Forall₂ Table.FewerKeys d.tables d'.tables) : d.keyless = d'.keyless := by
  unfold keyless
  congr 1
  rw [← List.forall₂_eq_eq_eq, List.forall₂_map_left_iff, List.forall₂_map_right_iff]
  exact h.imp fun _ _ ht => ht.keyless_eq

section Keyless

variable {d d' : Document} (hd : d.keyless = d'.keyless)

include hd

theorem checkKey_congr {t t' : Table} (ht : t.keyless = t'.keyless) (k : ForeignKey) :
    d.checkKey t k = d'.checkKey t' k := by
  rw [← checkKey_keyless, hd, ht, checkKey_keyless]

/-! ## Fewer keys -/

theorem checkTable_sublist {t origin : Table} (h : t.FewerKeys origin) :
    (d.checkTable t).Sublist (d'.checkTable origin) := by
  have hprimary :
      (t.unknownColumns t.primaryColumns).map (Finding.unknownPrimaryColumn t.name) =
        (origin.unknownColumns origin.primaryColumns).map
          (Finding.unknownPrimaryColumn origin.name) :=
    (congrArg (fun t : Table =>
      (t.unknownColumns t.primaryColumns).map (Finding.unknownPrimaryColumn t.name)) h.keyless_eq :)
  have hkey : d.checkKey t = d'.checkKey origin :=
    funext fun k => checkKey_congr hd h.keyless_eq k
  unfold checkTable
  rw [hprimary, hkey]
  exact (h.keys_sublist.flatMap _).append_left _

theorem checkFrom_sublist {ts origins : List Table} (h : List.Forall₂ Table.FewerKeys ts origins)
    (seen : List String) : (d.checkFrom seen ts).Sublist (d'.checkFrom seen origins) := by
  induction h generalizing seen with
  | nil => exact List.Sublist.refl _
  | @cons t origin ts origins ht _ ih =>
    have hname : t.name = origin.name := (congrArg Table.name ht.keyless_eq :)
    rw [checkFrom, checkFrom, hname]
    exact ((List.Sublist.refl _).append (checkTable_sublist hd ht)).append (ih _)

/-- The check of a list of tables does not see the keys of the document around it. -/
theorem checkFrom_congr (seen : List String) (ts : List Table) :
    d.checkFrom seen ts = d'.checkFrom seen ts := by
  have hrefl : List.Forall₂ Table.FewerKeys ts ts := List.forall₂_same.2 fun t _ => .refl t
  exact (checkFrom_sublist hd hrefl seen).antisymm (checkFrom_sublist hd.symm hrefl seen)

end Keyless

theorem check_sublist {d d' : Document} (h : List.Forall₂ Table.FewerKeys d.tables d'.tables) :
    d.check.Sublist d'.check :=
  checkFrom_sublist (keyless_eq_of_forall₂ h) h []

/-! ## One more key -/

theorem checkFrom_append (d : Document) (seen : List String) (xs ys : List Table) :
    d.checkFrom seen (xs ++ ys) =
      d.checkFrom seen xs ++ d.checkFrom ((xs.map (·.name)).reverse ++ seen) ys := by
  induction xs generalizing seen with
  | nil => rfl
  | cons x xs ih => simp [checkFrom, ih]

theorem checkTable_pushKey (d : Document) (t : Table) (k : ForeignKey) :
    d.checkTable (t.pushKey k) = d.checkTable t ++ d.checkKey t k := by
  have hkey : d.checkKey (t.pushKey k) = d.checkKey t := funext fun k' => checkKey_congr rfl rfl k'
  unfold checkTable
  rw [Table.keys_pushKey, List.flatMap_append, hkey, List.flatMap_singleton, ← List.append_assoc]
  rfl

theorem FirstAt.check_eq {d : Document} {name : String} {front back : List Table} {t : Table}
    (h : d.FirstAt name front t back) (k : ForeignKey) :
    ∃ before after, d.check = before ++ after ∧
      (⟨front ++ t.pushKey k :: back⟩ : Document).check = before ++ d.checkKey t k ++ after := by
  have hkeyless : (⟨front ++ t.pushKey k :: back⟩ : Document).keyless = d.keyless := by
    simp only [keyless, h.tables_eq, List.map_append, List.map_cons]
    rfl
  let seen := (front.map (·.name)).reverse ++ []
  refine ⟨d.checkFrom [] front ++ ((if seen.contains t.name then [.duplicateTable t.name] else [])
    ++ d.checkTable t), d.checkFrom (t.name :: seen) back, ?_, ?_⟩
  · unfold check
    rw [h.tables_eq, checkFrom_append, checkFrom, ← List.append_assoc]
  · unfold check
    rw [checkFrom_congr hkeyless, checkFrom_append, checkFrom, checkTable_pushKey]
    simp only [List.append_assoc]
    rfl

end Document

/-- The warnings that a key made from the spec can give under this name. -/
inductive KeySpec.Warns (s : KeySpec) (name : String) : Finding → Prop
  | sourceColumn {c : String} (hc : c ∈ s.sourceColumns) :
      s.Warns name (.unknownSourceColumn s.sourceTable name c)
  | target : s.Warns name (.danglingKey s.sourceTable name s.targetTable)
  | targetColumn {c : String} (hc : c ∈ s.targetColumns) :
      s.Warns name (.unknownTargetColumn s.sourceTable name s.targetTable c)

theorem KeySpec.Warns.isError_eq {s : KeySpec} {name : String} {f : Finding}
    (h : s.Warns name f) : f.isError = false := by
  cases h <;> rfl

theorem KeySpec.warns_of_mem_checkKey {s : KeySpec} {d : Document} {t : Table} {name : String}
    {f : Finding} (hs : s.sourceColumns.length = s.targetColumns.length)
    (ht : t.name = s.sourceTable) (hf : f ∈ d.checkKey t (s.key name)) : s.Warns name f := by
  have hbalanced : (s.key name).isBalanced = true := beq_iff_eq.2 hs
  unfold Document.checkKey at hf
  rw [if_pos hbalanced, List.nil_append, ht, List.mem_append] at hf
  rcases hf with hf | hf
  · obtain ⟨c, hc, rfl⟩ := List.mem_map.1 hf
    exact .sourceColumn (List.mem_of_mem_filter hc)
  · cases htarget : d.table? (s.key name).targetTable with
    | none =>
      rw [htarget] at hf
      obtain rfl := List.mem_singleton.1 hf
      exact .target
    | some first =>
      rw [htarget] at hf
      obtain ⟨c, hc, rfl⟩ := List.mem_map.1 hf
      exact .targetColumn (List.mem_of_mem_filter hc)

/-- **Foreign keys bring and take their own findings only.** The findings after a deletion of keys
are some of those before it, in order. Adding a key leaves every finding, in its order, and what it
inserts are warnings about the source table and the new key. -/
theorem Document.check_follows_keys (d : Document) :
    (∀ target, ((Statement.deleteKeys target).apply d).check.Sublist d.check) ∧
    ∀ line s d' name, KeySpec.parse line = .ok s → d.addKey s = .ok (d', name) →
      (∀ t, d.table? s.sourceTable = some t → name ∉ t.keyNames) ∧
      ∃ before new after, d.check = before ++ after ∧ d'.check = before ++ new ++ after ∧
        ∀ f ∈ new, f.isError = false ∧ s.Warns name f := by
  constructor
  · intro target
    apply check_sublist
    rw [Statement.apply, List.forall₂_map_left_iff]
    exact List.forall₂_same.2 fun t _ => t.fewerKeys_deleteKeys target
  · intro line s d' name hparse hadd
    obtain ⟨front, t, back, hfirst, rfl, rfl⟩ := exists_firstAt_of_addKey hadd
    obtain ⟨before, after, hbefore, hafter⟩ := hfirst.check_eq (s.key (s.nameIn t))
    constructor
    · intro t' ht'
      cases ht'.symm.trans (table?_eq_some_iff_firstAt.2 ⟨front, back, hfirst⟩)
      exact s.nameIn_not_mem t
    · refine ⟨before, _, after, hbefore, hafter, ?_⟩
      intro f hf
      have hwarns := KeySpec.warns_of_mem_checkKey (KeySpec.lengths_eq_of_parse hparse)
        hfirst.name_eq hf
      exact ⟨hwarns.isError_eq, hwarns⟩

/-- Two tables of one name, a key with unknown columns and a target that is missing, and a key that
is called as the next key of another table will be. -/
def looseKeys : Document :=
  ⟨[⟨"orders", [⟨"id", "INTEGER", false⟩], some ["id", "code"],
      some [⟨"fk_a", ["uid"], "users", ["id"]⟩, ⟨"fk_b", ["id"], "old", ["x", "y"]⟩]⟩,
    ⟨"users", [⟨"id", "INTEGER", false⟩], none,
      some [⟨"fk_orders_users_uid_1", ["nick"], "users", ["id"]⟩]⟩,
    ⟨"orders", [⟨"uid", "INTEGER", true⟩], none, some []⟩]⟩

def looseSpec : KeySpec := ⟨"orders", ["uid"], "users", ["name"]⟩

/-- Deleting the first key of every table takes a finding of each of the first two tables. The new
key stands in the first table of its source name, which has no column `uid`. -/
theorem looseKeys_check_follows_keys :
    ((Statement.deleteKeys (.index ⟨[.single 0]⟩)).apply looseKeys).check.Sublist looseKeys.check ∧
    ((Statement.deleteKeys (.index ⟨[.single 0]⟩)).apply looseKeys).check =
      [.unknownPrimaryColumn "orders" "code", .keyArity "orders" "fk_b" 1 2,
        .danglingKey "orders" "fk_b" "old", .duplicateTable "orders"] ∧
    KeySpec.parse "orders|uid |-->| users | name" = .ok looseSpec ∧
    looseKeys.addKey looseSpec = .ok (looseKeys.addSpec looseSpec, "fk_orders_users_uid_1") ∧
    (∃ before new after, looseKeys.check = before ++ after ∧
      (looseKeys.addSpec looseSpec).check = before ++ new ++ after ∧
      ∀ f ∈ new, f.isError = false ∧ looseSpec.Warns "fk_orders_users_uid_1" f) ∧
    (looseKeys.addSpec looseSpec).check =
      [.unknownPrimaryColumn "orders" "code", .unknownSourceColumn "orders" "fk_a" "uid",
        .keyArity "orders" "fk_b" 1 2, .danglingKey "orders" "fk_b" "old",
        .unknownSourceColumn "orders" "fk_orders_users_uid_1" "uid",
        .unknownTargetColumn "orders" "fk_orders_users_uid_1" "users" "name",
        .unknownSourceColumn "users" "fk_orders_users_uid_1" "nick", .duplicateTable "orders"] := by
  obtain ⟨hdeletion, haddition⟩ := looseKeys.check_follows_keys
  have hparse : KeySpec.parse "orders|uid |-->| users | name" = .ok looseSpec := rfl
  have hadd : looseKeys.addKey looseSpec =
      .ok (looseKeys.addSpec looseSpec, "fk_orders_users_uid_1") := by decide +kernel
  obtain ⟨-, hinserted⟩ := haddition _ _ _ _ hparse hadd
  exact ⟨hdeletion _, by decide +kernel, hparse, hadd, hinserted, by decide +kernel⟩

end SchemaShaper

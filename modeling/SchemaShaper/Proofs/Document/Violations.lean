import SchemaShaper.Proofs.Document.Comparison
import SchemaShaper.Proofs.Document.Errors
import Mathlib.Data.Finset.Card
import Mathlib.Data.List.Forall2

/-!
# The violations that findings report

A finding is about a place in the document: a table, a column of a primary key, a foreign key or a
column of one, by position (`Document.Place`). `Document.Breaks` says which places break a rule of
the document model, and the finding that such a place gives. It names the table and the key that
stand at the place.

The findings of a document are those of its violations, one for each (`Document.lists_check`). This
is put together along the loops of the check: a piece of it lists the violations of a region, and
pieces behind one another list those of both regions (`Lists.append`, `Lists.flatMap`). What makes a
document sound, and what gives it an error, is read off the violations alone.
-/

namespace SchemaShaper

/-- A place in a document, by positions in its lists. -/
inductive Document.Place where
  | name (table : Nat)
  | primaryColumn (table column : Nat)
  | pairing (table key : Nat)
  | sourceColumn (table key column : Nat)
  | target (table key : Nat)
  | targetColumn (table key column : Nat)
  deriving DecidableEq, Repr

namespace Document.Place

/-- The position of the table that the place is in. -/
def tableAt : Place → Nat
  | name i | primaryColumn i _ | pairing i _ | sourceColumn i _ _ | target i _
  | targetColumn i _ _ => i

/-- The position of the foreign key that the place is in. -/
def keyAt? : Place → Option Nat
  | name _ | primaryColumn .. => none
  | pairing _ j | sourceColumn _ j _ | target _ j | targetColumn _ j _ => some j

end Document.Place

/-- The place breaks a rule, which the finding reports. A target column is looked for in the first
table of the name. -/
inductive Document.Breaks (d : Document) : Place → Finding → Prop
  | repeatedName {i : Nat} {t : Table} (ht : d.tables[i]? = some t)
      (hrepeated : t.name ∈ d.tableNames.take i) : d.Breaks (.name i) (.duplicateTable t.name)
  | primaryColumn {i j : Nat} {t : Table} {c : String} (ht : d.tables[i]? = some t)
      (hc : t.primaryColumns[j]? = some c) (hunknown : c ∉ t.columnNames) :
      d.Breaks (.primaryColumn i j) (.unknownPrimaryColumn t.name c)
  | pairing {i j : Nat} {t : Table} {k : ForeignKey} (ht : d.tables[i]? = some t)
      (hk : t.keys[j]? = some k) (hlengths : k.sourceColumns.length ≠ k.targetColumns.length) :
      d.Breaks (.pairing i j)
        (.keyArity t.name k.name k.sourceColumns.length k.targetColumns.length)
  | sourceColumn {i j l : Nat} {t : Table} {k : ForeignKey} {c : String}
      (ht : d.tables[i]? = some t) (hk : t.keys[j]? = some k) (hc : k.sourceColumns[l]? = some c)
      (hunknown : c ∉ t.columnNames) :
      d.Breaks (.sourceColumn i j l) (.unknownSourceColumn t.name k.name c)
  | target {i j : Nat} {t : Table} {k : ForeignKey} (ht : d.tables[i]? = some t)
      (hk : t.keys[j]? = some k) (hmissing : k.targetTable ∉ d.tableNames) :
      d.Breaks (.target i j) (.danglingKey t.name k.name k.targetTable)
  | targetColumn {i j l : Nat} {t first : Table} {k : ForeignKey} {c : String}
      (ht : d.tables[i]? = some t) (hk : t.keys[j]? = some k)
      (hfirst : d.table? k.targetTable = some first) (hc : k.targetColumns[l]? = some c)
      (hunknown : c ∉ first.columnNames) :
      d.Breaks (.targetColumn i j l) (.unknownTargetColumn t.name k.name k.targetTable c)

/-! ## Listing the violations of a region -/

/-- The findings are those of the violations in the region, one for each. -/
def Document.Lists (d : Document) (region : Place → Prop) (findings : List Finding) : Prop :=
  ∃ places : List Place, places.Nodup ∧ (∀ p, p ∈ places ↔ region p ∧ ∃ f, d.Breaks p f) ∧
    List.Forall₂ d.Breaks places findings

namespace Document.Lists

variable {d : Document} {region other : Place → Prop} {xs ys : List Finding}

theorem congr (h : ∀ p f, d.Breaks p f → (region p ↔ other p)) (hx : d.Lists region xs) :
    d.Lists other xs := by
  obtain ⟨places, hnodup, hmem, hall⟩ := hx
  refine ⟨places, hnodup, ?_, hall⟩
  intro p
  rw [hmem]
  constructor
  · rintro ⟨hp, f, hf⟩
    exact ⟨(h p f hf).1 hp, f, hf⟩
  · rintro ⟨hp, f, hf⟩
    exact ⟨(h p f hf).2 hp, f, hf⟩

theorem nil (h : ∀ p f, region p → ¬ d.Breaks p f) : d.Lists region [] := by
  refine ⟨[], List.nodup_nil, ?_, .nil⟩
  intro p
  simp only [List.not_mem_nil, false_iff]
  rintro ⟨hp, f, hf⟩
  exact h p f hp hf

/-- The finding of one place, if it is a violation. -/
theorem single {p : Place} {f : Finding} {c : Bool}
    (h : ∀ g, d.Breaks p g ↔ c = true ∧ g = f) : d.Lists (· = p) (if c then [f] else []) := by
  cases c with
  | false =>
    apply nil
    rintro q g rfl hg
    exact absurd ((h g).1 hg).1 Bool.false_ne_true
  | true =>
    have hf : d.Breaks p f := (h f).2 ⟨rfl, rfl⟩
    refine ⟨[p], List.nodup_singleton p, ?_, .cons hf .nil⟩
    intro q
    rw [List.mem_singleton]
    constructor
    · rintro rfl
      exact ⟨rfl, f, hf⟩
    · exact fun hq => hq.1

theorem append (hx : d.Lists region xs) (hy : d.Lists other ys)
    (hdisjoint : ∀ p, region p → ¬ other p) :
    d.Lists (fun p => region p ∨ other p) (xs ++ ys) := by
  obtain ⟨places, hnodup, hmem, hall⟩ := hx
  obtain ⟨places', hnodup', hmem', hall'⟩ := hy
  refine ⟨places ++ places', ?_, ?_, List.rel_append hall hall'⟩
  · apply hnodup.append hnodup'
    intro p hp hp'
    exact hdisjoint p ((hmem p).1 hp).1 ((hmem' p).1 hp').1
  · intro p
    rw [List.mem_append, hmem, hmem', or_and_right]

/-- A loop over the elements of a list, where each has a region of its own. -/
theorem flatMap {α : Type} {regionAt : Nat → Place → Prop} {g : α → List Finding} {xs : List α}
    (h : ∀ i x, xs[i]? = some x → d.Lists (regionAt i) (g x))
    (hdisjoint : ∀ i j p, regionAt i p → regionAt j p → i = j) :
    d.Lists (fun p => ∃ i, i < xs.length ∧ regionAt i p) (xs.flatMap g) := by
  induction xs generalizing regionAt with
  | nil =>
    apply nil
    rintro p f ⟨i, hi, -⟩
    exact absurd hi (Nat.not_lt_zero i)
  | cons x xs ih =>
    have hfirst : d.Lists (regionAt 0) (g x) := h 0 x rfl
    have hrest := @ih (fun i => regionAt (i + 1)) (fun i y hy => h (i + 1) y hy) (by
      intro i j p hi hj
      have := hdisjoint (i + 1) (j + 1) p hi hj
      omega)
    rw [List.flatMap_cons]
    refine (hfirst.append hrest ?_).congr ?_
    · rintro p hp ⟨i, -, hi⟩
      have := hdisjoint 0 (i + 1) p hp hi
      omega
    · intro p f _
      rw [List.length_cons, Nat.exists_lt_succ_left]

/-- A loop that reports the elements that fail a test. -/
theorem filter {α : Type} {place : Nat → Place} {finding : α → Finding} {test : α → Bool}
    {xs : List α} (hplace : Function.Injective place)
    (h : ∀ i x, xs[i]? = some x → ∀ g, d.Breaks (place i) g ↔ test x = true ∧ g = finding x) :
    d.Lists (fun p => ∃ i, i < xs.length ∧ p = place i) ((xs.filter test).map finding) := by
  have hflat : (xs.filter test).map finding =
      xs.flatMap fun x => if test x then [finding x] else [] := by
    clear h
    induction xs with
    | nil => rfl
    | cons x xs ih =>
      rw [List.filter_cons, List.flatMap_cons, ← ih]
      split <;> rfl
  rw [hflat]
  apply flatMap
  · intro i x hx
    exact single (h i x hx)
  · rintro i j p rfl hj
    exact hplace hj

end Document.Lists

/-! ## The violations at one place -/

theorem Table.not_hasColumn_iff {t : Table} {name : String} :
    (!t.hasColumn name) = true ↔ name ∉ t.columnNames := by
  rw [Bool.not_eq_true', ← Bool.not_eq_true, hasColumn_iff]

section Places

variable {d : Document} {i j l : Nat} {t : Table} {k : ForeignKey} {c : String} {f : Finding}
  (ht : d.tables[i]? = some t)

include ht

theorem Document.breaks_name_iff : d.Breaks (.name i) f ↔
    t.name ∈ d.tableNames.take i ∧ f = .duplicateTable t.name := by
  constructor
  · intro h
    cases h with
    | repeatedName ht' hrepeated =>
      cases ht.symm.trans ht'
      exact ⟨hrepeated, rfl⟩
  · rintro ⟨hrepeated, rfl⟩
    exact .repeatedName ht hrepeated

theorem Document.breaks_primaryColumn_iff (hc : t.primaryColumns[j]? = some c) :
    d.Breaks (.primaryColumn i j) f ↔
      c ∉ t.columnNames ∧ f = .unknownPrimaryColumn t.name c := by
  constructor
  · intro h
    cases h with
    | primaryColumn ht' hc' hunknown =>
      cases ht.symm.trans ht'
      cases hc.symm.trans hc'
      exact ⟨hunknown, rfl⟩
  · rintro ⟨hunknown, rfl⟩
    exact .primaryColumn ht hc hunknown

variable (hk : t.keys[j]? = some k)

include hk

theorem Document.breaks_pairing_iff : d.Breaks (.pairing i j) f ↔
    k.sourceColumns.length ≠ k.targetColumns.length ∧
      f = .keyArity t.name k.name k.sourceColumns.length k.targetColumns.length := by
  constructor
  · intro h
    cases h with
    | pairing ht' hk' hlengths =>
      cases ht.symm.trans ht'
      cases hk.symm.trans hk'
      exact ⟨hlengths, rfl⟩
  · rintro ⟨hlengths, rfl⟩
    exact .pairing ht hk hlengths

theorem Document.breaks_sourceColumn_iff (hc : k.sourceColumns[l]? = some c) :
    d.Breaks (.sourceColumn i j l) f ↔
      c ∉ t.columnNames ∧ f = .unknownSourceColumn t.name k.name c := by
  constructor
  · intro h
    cases h with
    | sourceColumn ht' hk' hc' hunknown =>
      cases ht.symm.trans ht'
      cases hk.symm.trans hk'
      cases hc.symm.trans hc'
      exact ⟨hunknown, rfl⟩
  · rintro ⟨hunknown, rfl⟩
    exact .sourceColumn ht hk hc hunknown

theorem Document.breaks_target_iff : d.Breaks (.target i j) f ↔
    k.targetTable ∉ d.tableNames ∧ f = .danglingKey t.name k.name k.targetTable := by
  constructor
  · intro h
    cases h with
    | target ht' hk' hmissing =>
      cases ht.symm.trans ht'
      cases hk.symm.trans hk'
      exact ⟨hmissing, rfl⟩
  · rintro ⟨hmissing, rfl⟩
    exact .target ht hk hmissing

theorem Document.breaks_targetColumn_iff {first : Table}
    (hfirst : d.table? k.targetTable = some first) (hc : k.targetColumns[l]? = some c) :
    d.Breaks (.targetColumn i j l) f ↔
      c ∉ first.columnNames ∧ f = .unknownTargetColumn t.name k.name k.targetTable c := by
  constructor
  · intro h
    cases h with
    | targetColumn ht' hk' hfirst' hc' hunknown =>
      cases ht.symm.trans ht'
      cases hk.symm.trans hk'
      cases hfirst.symm.trans hfirst'
      cases hc.symm.trans hc'
      exact ⟨hunknown, rfl⟩
  · rintro ⟨hunknown, rfl⟩
    exact .targetColumn ht hk hfirst hc hunknown

/-! ## The loops of the check -/

theorem Document.lists_pairing : d.Lists (· = .pairing i j) (if k.isBalanced then []
    else [.keyArity t.name k.name k.sourceColumns.length k.targetColumns.length]) := by
  have hflip : (if k.isBalanced then []
      else [Finding.keyArity t.name k.name k.sourceColumns.length k.targetColumns.length]) =
      if !k.isBalanced then
        [.keyArity t.name k.name k.sourceColumns.length k.targetColumns.length] else [] := by
    cases k.isBalanced <;> rfl
  rw [hflip]
  apply Lists.single
  intro g
  rw [breaks_pairing_iff ht hk]
  simp [ForeignKey.isBalanced]

theorem Document.lists_sources : d.Lists
    (fun p => ∃ l, l < k.sourceColumns.length ∧ p = .sourceColumn i j l)
    ((t.unknownColumns k.sourceColumns).map (.unknownSourceColumn t.name k.name)) := by
  apply Lists.filter
  · intro l l' h
    cases h
    rfl
  · intro l c hc g
    rw [breaks_sourceColumn_iff ht hk hc, Table.not_hasColumn_iff]

/-- A key whose target table is missing has one violation there; otherwise they are those of the
target columns. -/
theorem Document.lists_target : d.Lists
    (fun p => p = .target i j ∨ ∃ l, l < k.targetColumns.length ∧ p = .targetColumn i j l)
    (match d.table? k.targetTable with
      | none => [.danglingKey t.name k.name k.targetTable]
      | some first => (first.unknownColumns k.targetColumns).map
          (.unknownTargetColumn t.name k.name k.targetTable)) := by
  cases hfirst : d.table? k.targetTable with
  | none =>
    have hmissing : k.targetTable ∉ d.tableNames := table?_eq_none_iff.1 hfirst
    have hone : d.Lists (· = .target i j) (if true then
        [.danglingKey t.name k.name k.targetTable] else []) := by
      apply Lists.single
      intro g
      rw [breaks_target_iff ht hk]
      simp [hmissing]
    refine hone.congr ?_
    intro p g hg
    constructor
    · exact Or.inl
    · rintro (hp | ⟨l, -, rfl⟩)
      · exact hp
      · cases hg with
        | targetColumn ht' hk' hfirst' =>
          cases ht.symm.trans ht'
          cases hk.symm.trans hk'
          cases hfirst.symm.trans hfirst'
  | some first =>
    have hcolumns : d.Lists (fun p => ∃ l, l < k.targetColumns.length ∧ p = .targetColumn i j l)
        ((first.unknownColumns k.targetColumns).map
          (.unknownTargetColumn t.name k.name k.targetTable)) := by
      apply Lists.filter
      · intro l l' h
        cases h
        rfl
      · intro l c hc g
        rw [breaks_targetColumn_iff ht hk hfirst hc, Table.not_hasColumn_iff]
    refine hcolumns.congr ?_
    intro p g hg
    constructor
    · exact Or.inr
    · rintro (rfl | hp)
      · exact absurd (mem_tableNames_iff.2 ⟨first, hfirst⟩) ((breaks_target_iff ht hk).1 hg).1
      · exact hp

theorem Document.lists_checkKey :
    d.Lists (fun p => p.tableAt = i ∧ p.keyAt? = some j) (d.checkKey t k) := by
  have hsources := (lists_pairing ht hk).append (lists_sources ht hk) (by
    rintro p rfl ⟨l, -, hp⟩
    cases hp)
  have hall := hsources.append (lists_target ht hk) (by
    rintro p (rfl | ⟨l, -, rfl⟩) (hp | ⟨l', -, hp⟩) <;> cases hp)
  refine hall.congr ?_
  intro p g hg
  constructor
  · rintro ((rfl | ⟨l, -, rfl⟩) | rfl | ⟨l, -, rfl⟩) <;> exact ⟨rfl, rfl⟩
  · rintro ⟨rfl, hkey⟩
    cases hg with
    | repeatedName | primaryColumn => cases hkey
    | pairing =>
      cases hkey
      exact Or.inl (Or.inl rfl)
    | sourceColumn ht' hk' hc =>
      cases hkey
      cases ht.symm.trans ht'
      cases hk.symm.trans hk'
      exact Or.inl (Or.inr ⟨_, (List.getElem?_eq_some_iff.1 hc).1, rfl⟩)
    | target =>
      cases hkey
      exact Or.inr (Or.inl rfl)
    | targetColumn ht' hk' _ hc =>
      cases hkey
      cases ht.symm.trans ht'
      cases hk.symm.trans hk'
      exact Or.inr (Or.inr ⟨_, (List.getElem?_eq_some_iff.1 hc).1, rfl⟩)

end Places

namespace Document

variable {d : Document}

theorem lists_checkTable {i : Nat} {t : Table} (ht : d.tables[i]? = some t) :
    d.Lists (fun p => p.tableAt = i ∧ p ≠ .name i) (d.checkTable t) := by
  have hprimary : d.Lists (fun p => ∃ j, j < t.primaryColumns.length ∧ p = .primaryColumn i j)
      ((t.unknownColumns t.primaryColumns).map (.unknownPrimaryColumn t.name)) := by
    apply Lists.filter
    · intro j j' h
      cases h
      rfl
    · intro j c hc g
      rw [breaks_primaryColumn_iff ht hc, Table.not_hasColumn_iff]
  have hkeys : d.Lists
      (fun p => ∃ j, j < t.keys.length ∧ p.tableAt = i ∧ p.keyAt? = some j)
      (t.keys.flatMap (d.checkKey t)) := by
    apply Lists.flatMap
    · intro j k hk
      exact lists_checkKey ht hk
    · intro j j' p hj hj'
      exact Option.some.inj (hj.2.symm.trans hj'.2)
  have hall := hprimary.append hkeys (by
    rintro p ⟨j, -, rfl⟩ ⟨j', -, -, hkey⟩
    cases hkey)
  refine hall.congr ?_
  intro p g hg
  constructor
  · rintro (⟨j, -, rfl⟩ | ⟨j, -, hp, hkey⟩)
    · exact ⟨rfl, Place.noConfusion⟩
    · refine ⟨hp, ?_⟩
      rintro rfl
      cases hkey
  · rintro ⟨rfl, hname⟩
    cases hg with
    | repeatedName => exact absurd rfl hname
    | primaryColumn ht' hc =>
      cases ht.symm.trans ht'
      exact Or.inl ⟨_, (List.getElem?_eq_some_iff.1 hc).1, rfl⟩
    | pairing ht' hk | sourceColumn ht' hk | target ht' hk | targetColumn ht' hk =>
      cases ht.symm.trans ht'
      exact Or.inr ⟨_, (List.getElem?_eq_some_iff.1 hk).1, rfl, rfl⟩

theorem Breaks.tableAt_lt {p : Place} {f : Finding} (h : d.Breaks p f) :
    p.tableAt < d.tables.length := by
  cases h with
  | repeatedName ht | primaryColumn ht | pairing ht | sourceColumn ht | target ht
  | targetColumn ht => exact (List.getElem?_eq_some_iff.1 ht).1

/-- The names seen are those of the tables in front. -/
theorem lists_checkFrom {seen : List String} {front back : List Table}
    (hsplit : d.tables = front ++ back) (hseen : ∀ name, name ∈ seen ↔ name ∈ front.map (·.name)) :
    d.Lists (fun p => front.length ≤ p.tableAt) (d.checkFrom seen back) := by
  induction back generalizing seen front with
  | nil =>
    apply Lists.nil
    intro p f hp hf
    have hlt := hf.tableAt_lt
    rw [hsplit, List.append_nil] at hlt
    omega
  | cons t back ih =>
    have ht : d.tables[front.length]? = some t := by simp [hsplit]
    have htake : d.tableNames.take front.length = front.map (·.name) := by
      simp [tableNames, hsplit]
    have hname : d.Lists (· = .name front.length)
        (if seen.contains t.name then [.duplicateTable t.name] else []) := by
      apply Lists.single
      intro g
      rw [breaks_name_iff ht, htake, List.contains_iff_mem, hseen]
    have hrest : d.Lists (fun p => (front ++ [t]).length ≤ p.tableAt)
        (d.checkFrom (t.name :: seen) back) := by
      apply ih
      · simp [hsplit]
      · intro name
        simp [hseen, or_comm]
    have htable := hname.append (lists_checkTable ht) (by
      rintro p rfl ⟨-, hp⟩
      exact hp rfl)
    have hall := htable.append hrest (by
      rintro p (rfl | ⟨hp, -⟩) hlater
      · exact absurd hlater (by simp [Place.tableAt])
      · exact absurd hlater (by simp [hp]))
    rw [checkFrom]
    refine hall.congr ?_
    intro p f _
    rw [List.length_append, List.length_singleton]
    constructor
    · rintro ((rfl | ⟨hp, -⟩) | hp)
      · exact Nat.le_refl _
      · omega
      · omega
    · intro hp
      by_cases hat : p = .name front.length
      · exact Or.inl (Or.inl hat)
      · by_cases hhere : p.tableAt = front.length
        · exact Or.inl (Or.inr ⟨hhere, hat⟩)
        · exact Or.inr (by omega)

theorem lists_check (d : Document) : d.Lists (fun _ => True) d.check := by
  have hall : d.Lists (fun p => ([] : List Table).length ≤ p.tableAt) (d.checkFrom [] d.tables) :=
    lists_checkFrom rfl (by simp)
  refine hall.congr ?_
  intro p f _
  simp

/-- What stands at a place decides what is reported there. -/
theorem Breaks.finding_eq {p : Place} {f g : Finding} (hf : d.Breaks p f) (hg : d.Breaks p g) :
    g = f := by
  cases hf with
  | repeatedName ht => exact ((breaks_name_iff ht).1 hg).2
  | primaryColumn ht hc => exact ((breaks_primaryColumn_iff ht hc).1 hg).2
  | pairing ht hk => exact ((breaks_pairing_iff ht hk).1 hg).2
  | sourceColumn ht hk hc => exact ((breaks_sourceColumn_iff ht hk hc).1 hg).2
  | target ht hk => exact ((breaks_target_iff ht hk).1 hg).2
  | targetColumn ht hk hfirst hc => exact ((breaks_targetColumn_iff ht hk hfirst hc).1 hg).2

theorem mem_check_iff {f : Finding} : f ∈ d.check ↔ ∃ p, d.Breaks p f := by
  obtain ⟨places, -, hmem, hall⟩ := d.lists_check
  obtain ⟨hlength, hget⟩ := List.forall₂_iff_get.1 hall
  constructor
  · intro hf
    obtain ⟨n, hn, rfl⟩ := List.getElem_of_mem hf
    exact ⟨places[n], hget n (by omega) hn⟩
  · rintro ⟨p, hp⟩
    obtain ⟨n, hn, rfl⟩ := List.getElem_of_mem ((hmem p).2 ⟨trivial, f, hp⟩)
    rw [(hget n hn (by omega)).finding_eq hp]
    exact List.getElem_mem _

/-! ## Sound documents -/

/-- Table names differ, and every column and table that is referred to is there. -/
structure Sound (d : Document) : Prop where
  names : d.tableNames.Nodup
  primary : ∀ t ∈ d.tables, ∀ c ∈ t.primaryColumns, c ∈ t.columnNames
  paired : ∀ t ∈ d.tables, ∀ k ∈ t.keys, k.sourceColumns.length = k.targetColumns.length
  sources : ∀ t ∈ d.tables, ∀ k ∈ t.keys, ∀ c ∈ k.sourceColumns, c ∈ t.columnNames
  targets : ∀ t ∈ d.tables, ∀ k ∈ t.keys, ∃ first, d.table? k.targetTable = some first ∧
    ∀ c ∈ k.targetColumns, c ∈ first.columnNames

theorem nodup_tableNames_iff : d.tableNames.Nodup ↔
    ∀ (i : Nat) (t : Table), d.tables[i]? = some t → t.name ∉ d.tableNames.take i := by
  have hname : ∀ (i : Nat) (t : Table), d.tables[i]? = some t → d.tableNames[i]? = some t.name := by
    intro i t ht
    rw [tableNames, List.getElem?_map, ht]
    rfl
  rw [List.nodup_iff_getElem?_ne_getElem?]
  constructor
  · intro hne i t ht hmem
    obtain ⟨j, hj, heq⟩ := List.mem_take_iff_getElem.1 hmem
    have hi : i < d.tableNames.length := (List.getElem?_eq_some_iff.1 (hname i t ht)).1
    apply hne j i (by omega) hi
    rw [hname i t ht, List.getElem?_eq_getElem (by omega), heq]
  · intro hnot i j hij hj heq
    have hlength : d.tableNames.length = d.tables.length := List.length_map _
    have ht : d.tables[j]? = some d.tables[j] := List.getElem?_eq_getElem (by omega)
    apply hnot j _ ht
    rw [hname j _ ht] at heq
    exact List.mem_take_iff_getElem.2 ⟨i, by omega, (List.getElem?_eq_some_iff.1 heq).2⟩

theorem sound_iff : d.Sound ↔ ∀ p f, ¬ d.Breaks p f := by
  constructor
  · intro h p f hf
    cases hf with
    | repeatedName ht hrepeated => exact nodup_tableNames_iff.1 h.names _ _ ht hrepeated
    | primaryColumn ht hc hunknown =>
      exact hunknown (h.primary _ (List.mem_of_getElem? ht) _ (List.mem_of_getElem? hc))
    | pairing ht hk hlengths =>
      exact hlengths (h.paired _ (List.mem_of_getElem? ht) _ (List.mem_of_getElem? hk))
    | sourceColumn ht hk hc hunknown =>
      exact hunknown (h.sources _ (List.mem_of_getElem? ht) _ (List.mem_of_getElem? hk) _
        (List.mem_of_getElem? hc))
    | target ht hk hmissing =>
      obtain ⟨first, hfirst, -⟩ :=
        h.targets _ (List.mem_of_getElem? ht) _ (List.mem_of_getElem? hk)
      exact hmissing (mem_tableNames_iff.2 ⟨first, hfirst⟩)
    | targetColumn ht hk hfirst hc hunknown =>
      obtain ⟨first, hfirst', hcolumns⟩ :=
        h.targets _ (List.mem_of_getElem? ht) _ (List.mem_of_getElem? hk)
      cases hfirst.symm.trans hfirst'
      exact hunknown (hcolumns _ (List.mem_of_getElem? hc))
  · intro h
    refine ⟨nodup_tableNames_iff.2 ?_, ?_, ?_, ?_, ?_⟩
    · intro i t ht hrepeated
      exact h _ _ (.repeatedName ht hrepeated)
    · intro t ht c hc
      obtain ⟨i, hi⟩ := List.mem_iff_getElem?.1 ht
      obtain ⟨j, hj⟩ := List.mem_iff_getElem?.1 hc
      by_contra hunknown
      exact h _ _ (.primaryColumn hi hj hunknown)
    · intro t ht k hk
      obtain ⟨i, hi⟩ := List.mem_iff_getElem?.1 ht
      obtain ⟨j, hj⟩ := List.mem_iff_getElem?.1 hk
      by_contra hlengths
      exact h _ _ (.pairing hi hj hlengths)
    · intro t ht k hk c hc
      obtain ⟨i, hi⟩ := List.mem_iff_getElem?.1 ht
      obtain ⟨j, hj⟩ := List.mem_iff_getElem?.1 hk
      obtain ⟨l, hl⟩ := List.mem_iff_getElem?.1 hc
      by_contra hunknown
      exact h _ _ (.sourceColumn hi hj hl hunknown)
    · intro t ht k hk
      obtain ⟨i, hi⟩ := List.mem_iff_getElem?.1 ht
      obtain ⟨j, hj⟩ := List.mem_iff_getElem?.1 hk
      have htarget : k.targetTable ∈ d.tableNames := by
        by_contra hmissing
        exact h _ _ (.target hi hj hmissing)
      obtain ⟨first, hfirst⟩ := mem_tableNames_iff.1 htarget
      refine ⟨first, hfirst, ?_⟩
      intro c hc
      obtain ⟨l, hl⟩ := List.mem_iff_getElem?.1 hc
      by_contra hunknown
      exact h _ _ (.targetColumn hi hj hfirst hl hunknown)

theorem check_eq_nil_iff : d.check = [] ↔ d.Sound := by
  rw [sound_iff, List.eq_nil_iff_forall_not_mem]
  simp only [mem_check_iff, not_exists]
  exact forall_comm

/-! ## Errors -/

theorem exists_error_iff : (∃ f ∈ d.check, f.isError = true) ↔
    ¬ d.tableNames.Nodup ∨
      ∃ t ∈ d.tables, ∃ k ∈ t.keys, k.sourceColumns.length ≠ k.targetColumns.length := by
  constructor
  · rintro ⟨f, hf, herror⟩
    obtain ⟨p, hp⟩ := mem_check_iff.1 hf
    cases hp with
    | repeatedName ht hrepeated =>
      exact Or.inl fun hnodup => nodup_tableNames_iff.1 hnodup _ _ ht hrepeated
    | pairing ht hk hlengths =>
      exact Or.inr ⟨_, List.mem_of_getElem? ht, _, List.mem_of_getElem? hk, hlengths⟩
    | primaryColumn | sourceColumn | target | targetColumn => cases herror
  · rintro (hrepeated | ⟨t, ht, k, hk, hlengths⟩)
    · rw [nodup_tableNames_iff] at hrepeated
      push Not at hrepeated
      obtain ⟨i, t, ht, hmem⟩ := hrepeated
      exact ⟨_, mem_check_iff.2 ⟨_, .repeatedName ht hmem⟩, rfl⟩
    · obtain ⟨i, hi⟩ := List.mem_iff_getElem?.1 ht
      obtain ⟨j, hj⟩ := List.mem_iff_getElem?.1 hk
      exact ⟨_, mem_check_iff.2 ⟨_, .pairing hi hj hlengths⟩, rfl⟩

end Document

/-- Does the finding report a repeated table name? -/
def Finding.isDuplicateTable : Finding → Bool
  | duplicateTable _ => true
  | _ => false

theorem Table.countP_isDuplicateTable_errors (seen : List String) (t : Table) :
    (t.errors seen).countP Finding.isDuplicateTable = if t.name ∈ seen then 1 else 0 := by
  have harities : ((t.keys.filter (!·.isBalanced)).map fun k => Finding.keyArity t.name k.name
      k.sourceColumns.length k.targetColumns.length).countP Finding.isDuplicateTable = 0 := by
    rw [List.countP_map, List.countP_eq_zero]
    simp [Finding.isDuplicateTable]
  unfold errors
  rw [List.countP_append, harities, Nat.add_zero]
  by_cases hmem : t.name ∈ seen <;> simp [hmem, Finding.isDuplicateTable]

/-- Of the tables, those with a name that was not seen are the first of their names. -/
theorem countP_isDuplicateTable_errorsFrom (seen : List String) (ts : List Table) :
    (errorsFrom seen ts).countP Finding.isDuplicateTable +
      ((ts.map (·.name)).toFinset \ seen.toFinset).card = ts.length := by
  induction ts generalizing seen with
  | nil => simp [errorsFrom]
  | cons t ts ih =>
    have hrest := ih (t.name :: seen)
    rw [List.toFinset_cons] at hrest
    rw [errorsFrom, List.countP_append, t.countP_isDuplicateTable_errors, List.map_cons,
      List.toFinset_cons, List.length_cons]
    by_cases hmem : t.name ∈ seen
    · have hseen : t.name ∈ seen.toFinset := List.mem_toFinset.2 hmem
      rw [Finset.insert_eq_of_mem hseen] at hrest
      rw [if_pos hmem, Finset.insert_sdiff_of_mem _ hseen]
      omega
    · have hseen : t.name ∉ seen.toFinset := fun h => hmem (List.mem_toFinset.1 h)
      have hnew : insert t.name (ts.map (·.name)).toFinset \ seen.toFinset =
          insert t.name ((ts.map (·.name)).toFinset \ insert t.name seen.toFinset) := by
        ext name
        simp only [Finset.mem_sdiff, Finset.mem_insert]
        by_cases hname : name = t.name
        · subst hname
          simp [hseen]
        · simp [hname]
      rw [if_neg hmem, hnew, Finset.card_insert_of_notMem (by simp)]
      omega

theorem Document.countP_isDuplicateTable_check (d : Document) :
    d.check.countP Finding.isDuplicateTable + d.tableNames.toFinset.card = d.tables.length := by
  have herrors : d.check.countP Finding.isDuplicateTable =
      d.errors.countP Finding.isDuplicateTable := by
    unfold errors
    rw [List.countP_filter]
    apply List.countP_congr
    intro f _
    cases f <;> simp [Finding.isDuplicateTable, Finding.isError]
  have hcount := countP_isDuplicateTable_errorsFrom [] d.tables
  rw [herrors, d.errors_eq]
  simpa [tableNames] using hcount

/-- **The findings of a document are its violations.** There is none exactly when the document is
sound, and one is an error exactly when a table name repeats or a foreign key is not balanced.
Repeated names are reported for all but the first of each name. Each violation is listed once, in a
finding that names the table and the key that stand at its place, and nothing else is listed. -/
theorem Document.check_lists_violations (d : Document) :
    (d.check = [] ↔ d.Sound) ∧
    ((∃ f ∈ d.check, f.isError = true) ↔
      ¬ d.tableNames.Nodup ∨
        ∃ t ∈ d.tables, ∃ k ∈ t.keys, k.sourceColumns.length ≠ k.targetColumns.length) ∧
    d.check.countP Finding.isDuplicateTable = d.tables.length - d.tableNames.toFinset.card ∧
    ∃ places : List Place, places.Nodup ∧ (∀ p, p ∈ places ↔ ∃ f, d.Breaks p f) ∧
      List.Forall₂ d.Breaks places d.check := by
  refine ⟨check_eq_nil_iff, exists_error_iff, ?_, ?_⟩
  · have hcount := d.countP_isDuplicateTable_check
    omega
  · obtain ⟨places, hnodup, hmem, hall⟩ := d.lists_check
    refine ⟨places, hnodup, ?_, hall⟩
    intro p
    rw [hmem, true_and]

end SchemaShaper

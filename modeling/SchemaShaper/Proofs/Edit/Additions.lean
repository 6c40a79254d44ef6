import SchemaShaper.Edit.Injection
import SchemaShaper.Proofs.Edit.Batches

/-!
# Batches of added keys

A batch of foreign keys changes the document that its later entries are checked against, but never
the names of the tables. So whether an entry is accepted is a matter of the document before the
batch (`Document.passes_addKeyEntry_iff`), and what a batch leaves is that document with some specs
added (`Document.addSpecs`).

Specs are added to the tables one by one: each of them goes to the first table of its source name
(`Document.FirstAt.addKey_eq`), which gains one key at its end for each of its specs, in order
(`Document.getElem?_addSpecs`, `Table.gains_addSpecs`). `Document.addKeys_adds` puts this together
for every list of entries.
-/

namespace SchemaShaper

/-! ## Adding specs -/

/-- The table with the key of the spec at its end, under the next name. -/
def KeySpec.extend (s : KeySpec) (t : Table) : Table := t.pushKey (s.key (s.nameIn t))

/-- The table with the keys of the specs at its end, in order. -/
def Table.addSpecs (t : Table) (specs : List KeySpec) : Table :=
  specs.foldl (fun t s => s.extend t) t

/-- The document with the key of the spec in the first table of its source name. -/
def Document.addSpec (d : Document) (s : KeySpec) : Document := d.modifyTable s.sourceTable s.extend

/-- The document with the keys of the specs, added in order. -/
def Document.addSpecs (d : Document) (specs : List KeySpec) : Document := specs.foldl addSpec d

namespace Document

section ModifyTable

variable {name : String} {f : Table → Table}

/-- Only the first table of the name changes. -/
theorem getElem?_modifyTable (d : Document) (i : Nat) :
    (d.modifyTable name f).tables[i]? = d.tables[i]?.map fun t =>
      if t.name = name ∧ name ∉ d.tableNames.take i then f t else t := by
  have hgo : ∀ (ts : List Table) (i : Nat), (modifyTable.go name f ts)[i]? = ts[i]?.map fun t =>
      if t.name = name ∧ name ∉ (ts.map (·.name)).take i then f t else t := by
    intro ts
    induction ts with
    | nil => exact fun _ => rfl
    | cons first ts ih =>
      intro i
      rw [modifyTable.go]
      by_cases hname : first.name = name
      · rw [if_pos (beq_iff_eq.2 hname)]
        cases i with
        | zero => simp [hname]
        | succ i => simp [hname]
      · rw [if_neg (by simpa using hname)]
        cases i with
        | zero => simp [hname]
        | succ i => simp [ih, Ne.symm hname]
  exact hgo d.tables i

theorem tableNames_modifyTable (h : ∀ t, (f t).name = t.name) (d : Document) :
    (d.modifyTable name f).tableNames = d.tableNames := by
  refine List.ext_getElem? fun i => ?_
  unfold tableNames
  rw [List.getElem?_map, List.getElem?_map, getElem?_modifyTable, Option.map_map]
  refine Option.map_congr fun t _ => ?_
  dsimp only [Function.comp]
  split
  · exact h t
  · rfl

end ModifyTable

/-- The table `t` is the first of the name in the document, between `front` and `back`. -/
structure FirstAt (d : Document) (name : String) (front : List Table) (t : Table)
    (back : List Table) : Prop where
  tables_eq : d.tables = front ++ t :: back
  name_eq : t.name = name
  unnamed_before : ∀ u ∈ front, u.name ≠ name

section FirstAt

variable {d : Document} {name : String} {front back : List Table} {t : Table}

theorem table?_eq_some_iff_firstAt :
    d.table? name = some t ↔ ∃ front back, d.FirstAt name front t back := by
  unfold table?
  rw [List.find?_eq_some_iff_append]
  simp only [beq_iff_eq, Bool.not_eq_true', beq_eq_false_iff_ne]
  constructor
  · rintro ⟨hname, front, back, htables, hfront⟩
    exact ⟨front, back, htables, hname, hfront⟩
  · rintro ⟨front, back, htables, hname, hfront⟩
    exact ⟨hname, front, back, htables, hfront⟩

theorem FirstAt.modifyTable_eq (h : d.FirstAt name front t back) (f : Table → Table) :
    d.modifyTable name f = ⟨front ++ f t :: back⟩ := by
  obtain ⟨htables, rfl, hfront⟩ := h
  unfold modifyTable
  rw [htables]
  congr 1
  clear htables
  induction front with
  | nil => simp [modifyTable.go]
  | cons u front ih =>
    obtain ⟨hu, hrest⟩ := List.forall_mem_cons.1 hfront
    rw [List.cons_append, modifyTable.go, if_neg (by simpa using hu), ih hrest]
    rfl

/-- The key goes to the end of the first table of the source name, under its next name. -/
theorem FirstAt.addKey_eq {s : KeySpec} (h : d.FirstAt s.sourceTable front t back) :
    d.addKey s = .ok (⟨front ++ s.extend t :: back⟩, s.nameIn t) := by
  have ht : d.table? s.sourceTable = some t := table?_eq_some_iff_firstAt.2 ⟨front, back, h⟩
  refine addKey_eq_ok_iff.2 ⟨t, ht, rfl, ?_⟩
  rw [h.modifyTable_eq]
  rfl

theorem exists_firstAt_of_addKey {s : KeySpec} {d' : Document} (h : d.addKey s = .ok (d', name)) :
    ∃ front t back, d.FirstAt s.sourceTable front t back ∧
      d' = ⟨front ++ s.extend t :: back⟩ ∧ name = s.nameIn t := by
  obtain ⟨t, ht, -⟩ := addKey_eq_ok_iff.1 h
  obtain ⟨front, back, hfirst⟩ := table?_eq_some_iff_firstAt.1 ht
  have hadd := h.symm.trans hfirst.addKey_eq
  simp only [Except.ok.injEq, Prod.mk.injEq] at hadd
  exact ⟨front, t, back, hfirst, hadd.1, hadd.2⟩

end FirstAt

theorem tableNames_addSpec (d : Document) (s : KeySpec) : (d.addSpec s).tableNames = d.tableNames :=
  tableNames_modifyTable (f := s.extend) (fun _ => rfl) d

/-! ## Accepted and refused entries -/

/-- The entry writes a spec whose source table is in the document. -/
def Accepts (d : Document) (entry : String) : Prop :=
  ∃ s, KeySpec.parse entry = .ok s ∧ s.sourceTable ∈ d.tableNames

/-- Why an entry cannot be added: it writes no spec, or its source table is missing, which is
reported with the entry as it was written. -/
inductive Refuses (d : Document) (entry : String) : EditError → Prop
  | unreadable {cause : EditError} (h : KeySpec.parse entry = .error cause) : Refuses d entry cause
  | missing {s : KeySpec} (h : KeySpec.parse entry = .ok s) (hs : s.sourceTable ∉ d.tableNames) :
      Refuses d entry (.sourceTableNotFound s.sourceTable (Text.trimmed entry))

section Entry

variable {entry : String} {d d' : Document} {cause : EditError}

theorem Accepts.not_refuses (h : d.Accepts entry) : ¬ d.Refuses entry cause := by
  obtain ⟨s, hs, hmem⟩ := h
  intro hrefuses
  cases hrefuses with
  | unreadable h =>
    rw [hs] at h
    cases h
  | missing h hnot =>
    rw [hs] at h
    cases h
    exact hnot hmem

theorem refuses_congr (h : d'.tableNames = d.tableNames) :
    d'.Refuses entry cause ↔ d.Refuses entry cause := by
  constructor
  · rintro (h' | ⟨h', hnot⟩)
    · exact .unreadable h'
    · exact .missing h' (h ▸ hnot)
  · rintro (h' | ⟨h', hnot⟩)
    · exact .unreadable h'
    · exact .missing h' (h ▸ hnot)

theorem addKeyEntry_of_mem {s : KeySpec} (hs : KeySpec.parse entry = .ok s)
    (hmem : s.sourceTable ∈ d.tableNames) : d.addKeyEntry entry = .ok (d.addSpec s) := by
  obtain ⟨t, ht⟩ := mem_tableNames_iff.1 hmem
  obtain ⟨front, back, hfirst⟩ := table?_eq_some_iff_firstAt.1 ht
  refine addKeyEntry_eq_ok_iff.2 ⟨s, s.nameIn t, hs, ?_⟩
  rw [hfirst.addKey_eq, addSpec, hfirst.modifyTable_eq]

theorem addKeyEntry_of_refuses (h : d.Refuses entry cause) :
    d.addKeyEntry entry = .error cause := by
  unfold addKeyEntry
  cases h with
  | unreadable h => rw [h]
  | @missing s h hnot =>
    have hnone : d.table? s.sourceTable = none := by
      rw [← Option.not_isSome_iff_eq_none, Option.isSome_iff_exists, ← mem_tableNames_iff]
      exact hnot
    rw [h]
    dsimp only
    unfold addKey
    rw [hnone]
    rfl

variable (entry d) in
theorem accepts_or_refuses : d.Accepts entry ∨ ∃ cause, d.Refuses entry cause := by
  cases h : KeySpec.parse entry with
  | error cause => exact Or.inr ⟨cause, .unreadable h⟩
  | ok s =>
    by_cases hmem : s.sourceTable ∈ d.tableNames
    · exact Or.inl ⟨s, h, hmem⟩
    · exact Or.inr ⟨_, .missing h hmem⟩

theorem addKeyEntry_eq_ok_iff_addSpec : d.addKeyEntry entry = .ok d' ↔
    ∃ s, KeySpec.parse entry = .ok s ∧ s.sourceTable ∈ d.tableNames ∧ d.addSpec s = d' := by
  constructor
  · intro hadd
    rcases accepts_or_refuses entry d with ⟨s, hs, hmem⟩ | ⟨cause, hrefuses⟩
    · rw [addKeyEntry_of_mem hs hmem, Except.ok.injEq] at hadd
      exact ⟨s, hs, hmem, hadd⟩
    · rw [addKeyEntry_of_refuses hrefuses] at hadd
      cases hadd
  · rintro ⟨s, hs, hmem, rfl⟩
    exact addKeyEntry_of_mem hs hmem

theorem addKeyEntry_eq_error_iff : d.addKeyEntry entry = .error cause ↔ d.Refuses entry cause := by
  constructor
  · intro hadd
    rcases accepts_or_refuses entry d with ⟨s, hs, hmem⟩ | ⟨cause', hrefuses⟩
    · rw [addKeyEntry_of_mem hs hmem] at hadd
      cases hadd
    · rw [addKeyEntry_of_refuses hrefuses, Except.error.injEq] at hadd
      rwa [← hadd]
  · exact addKeyEntry_of_refuses

end Entry

/-- Entries that pass are those that write specs whose source tables are there from the start. -/
theorem passes_addKeyEntry_iff {entries : List String} {d d' : Document} :
    Passes addKeyEntry entries d d' ↔
      ∃ specs, ReadsAs KeySpec.parse entries specs ∧
        (∀ s ∈ specs, s.sourceTable ∈ d.tableNames) ∧ d' = d.addSpecs specs := by
  have hstep : ∀ (entry : String) (d d' : Document), d.addKeyEntry entry = .ok d' ↔
      ∃ s, KeySpec.parse entry = .ok s ∧ s.sourceTable ∈ d.tableNames ∧ d.addSpec s = d' :=
    fun _ _ _ => addKeyEntry_eq_ok_iff_addSpec
  have hallowed : ∀ (s other : KeySpec) (d : Document),
      s.sourceTable ∈ (d.addSpec other).tableNames ↔ s.sourceTable ∈ d.tableNames := by
    intro s other d
    rw [tableNames_addSpec]
  exact passes_iff_readsAs hstep hallowed

end Document

/-! ## What specs add -/

/-- What a key joins: its columns, and the target table with its columns. -/
def ForeignKey.ends (k : ForeignKey) : List String × String × List String :=
  (k.sourceColumns, k.targetTable, k.targetColumns)

/-- What the key of a spec joins. -/
def KeySpec.ends (s : KeySpec) : List String × String × List String :=
  (s.sourceColumns, s.targetTable, s.targetColumns)

/-- The table `t'` is `t` with one balanced key at its end for each of the specs, in order. -/
structure Table.Gains (specs : List KeySpec) (t t' : Table) : Prop where
  name_eq : t'.name = t.name
  columns_eq : t'.columns = t.columns
  primaryKey_eq : t'.primaryKey = t.primaryKey
  keys_eq_append : ∃ new, t'.keys = t.keys ++ new ∧
    new.map ForeignKey.ends = specs.map KeySpec.ends ∧ ∀ k ∈ new, k.isBalanced = true
  foreignKeys_eq : t'.foreignKeys = if specs = [] then t.foreignKeys else some t'.keys

/-- The document `d'` is `d` with the specs in the first tables of their source names. -/
structure Document.Gains (specs : List KeySpec) (d d' : Document) : Prop where
  length_eq : d'.tables.length = d.tables.length
  first : ∀ i t t', d.tables[i]? = some t → d'.tables[i]? = some t' →
    t.name ∉ d.tableNames.take i → t.Gains (specs.filter (·.sourceTable == t.name)) t'
  later : ∀ i t t', d.tables[i]? = some t → d'.tables[i]? = some t' →
    t.name ∈ d.tableNames.take i → t' = t

theorem Table.gains_addSpecs {specs : List KeySpec}
    (h : ∀ s ∈ specs, s.sourceColumns.length = s.targetColumns.length) (t : Table) :
    t.Gains specs (t.addSpecs specs) := by
  induction specs generalizing t with
  | nil => exact ⟨rfl, rfl, rfl, ⟨[], (List.append_nil _).symm, rfl, by simp⟩, rfl⟩
  | cons s specs ih =>
    obtain ⟨hs, hspecs⟩ := List.forall_mem_cons.1 h
    have hrest : (s.extend t).Gains specs (t.addSpecs (s :: specs)) := ih hspecs (s.extend t)
    obtain ⟨new, hkeys, hends, hbalanced⟩ := hrest.keys_eq_append
    have hnew : (s.key (s.nameIn t)).isBalanced = true := beq_iff_eq.2 hs
    refine ⟨hrest.name_eq, hrest.columns_eq, hrest.primaryKey_eq,
      ⟨s.key (s.nameIn t) :: new, ?_, ?_, List.forall_mem_cons.2 ⟨hnew, hbalanced⟩⟩, ?_⟩
    · rw [hkeys, KeySpec.extend, keys_pushKey, List.append_assoc]
      rfl
    · rw [List.map_cons, hends]
      rfl
    · rw [if_neg (List.cons_ne_nil _ _), hrest.foreignKeys_eq]
      split
      · next hnil =>
        subst hnil
        rfl
      · rfl

namespace Document

/-- The specs that the table at position `i` gains, when it has this name: those that name it, if it
is the first of its name. -/
def specsAt (d : Document) (i : Nat) (name : String) (specs : List KeySpec) : List KeySpec :=
  if name ∈ d.tableNames.take i then [] else specs.filter (·.sourceTable == name)

/-- The table that a spec goes to gains its key before those of the specs behind it. -/
theorem addSpecs_specsAt_cons (d : Document) (i : Nat) (t : Table) (s : KeySpec)
    (specs : List KeySpec) :
    t.addSpecs (d.specsAt i t.name (s :: specs)) =
      (if t.name = s.sourceTable ∧ s.sourceTable ∉ d.tableNames.take i then s.extend t
        else t).addSpecs (d.specsAt i t.name specs) := by
  unfold specsAt
  by_cases hlater : t.name ∈ d.tableNames.take i
  · have hnot : ¬ (t.name = s.sourceTable ∧ s.sourceTable ∉ d.tableNames.take i) := by
      rintro ⟨hname, hfirst⟩
      exact hfirst (hname ▸ hlater)
    rw [if_pos hlater, if_pos hlater, if_neg hnot]
  · rw [if_neg hlater, if_neg hlater]
    by_cases hname : t.name = s.sourceTable
    · rw [if_pos ⟨hname, hname ▸ hlater⟩, List.filter_cons_of_pos (by simp [hname])]
      rfl
    · rw [if_neg fun h => hname h.1, List.filter_cons_of_neg (by simpa using Ne.symm hname)]

theorem getElem?_addSpecs (d : Document) (specs : List KeySpec) (i : Nat) :
    (d.addSpecs specs).tables[i]? =
      d.tables[i]?.map fun t => t.addSpecs (d.specsAt i t.name specs) := by
  induction specs generalizing d with
  | nil =>
    have hnone : ∀ t : Table, t.addSpecs (d.specsAt i t.name []) = t := by
      intro t
      unfold specsAt
      split <;> rfl
    simp only [hnone, Option.map_id']
    rfl
  | cons s specs ih =>
    have hstep : (d.addSpecs (s :: specs)).tables[i]? =
        ((d.addSpec s).addSpecs specs).tables[i]? := rfl
    have hsame : ∀ name, (d.addSpec s).specsAt i name specs = d.specsAt i name specs := by
      intro name
      unfold specsAt
      rw [tableNames_addSpec]
    rw [hstep, ih, addSpec, getElem?_modifyTable, Option.map_map, ← addSpec]
    refine Option.map_congr fun t _ => ?_
    rw [addSpecs_specsAt_cons, Function.comp, hsame]
    split <;> rfl

theorem tableNames_addSpecs (d : Document) (specs : List KeySpec) :
    (d.addSpecs specs).tableNames = d.tableNames := by
  induction specs generalizing d with
  | nil => rfl
  | cons s specs ih => exact (ih (d.addSpec s)).trans (tableNames_addSpec d s)

theorem length_addSpecs (d : Document) (specs : List KeySpec) :
    (d.addSpecs specs).tables.length = d.tables.length := by
  have hnames := congrArg List.length (d.tableNames_addSpecs specs)
  unfold tableNames at hnames
  rwa [List.length_map, List.length_map] at hnames

theorem gains_addSpecs {specs : List KeySpec}
    (h : ∀ s ∈ specs, s.sourceColumns.length = s.targetColumns.length) (d : Document) :
    d.Gains specs (d.addSpecs specs) := by
  have htable : ∀ i (t t' : Table), d.tables[i]? = some t →
      (d.addSpecs specs).tables[i]? = some t' → t' = t.addSpecs (d.specsAt i t.name specs) := by
    intro i t t' ht ht'
    rw [getElem?_addSpecs, ht, Option.map_some, Option.some.injEq] at ht'
    exact ht'.symm
  refine ⟨d.length_addSpecs specs, fun i t t' ht ht' hfirst => ?_, fun i t t' ht ht' hmem => ?_⟩
  · rw [htable i t t' ht ht', specsAt, if_neg hfirst]
    exact Table.gains_addSpecs (fun s hs => h s (List.mem_of_mem_filter hs)) t
  · rw [htable i t t' ht ht', specsAt, if_pos hmem]
    rfl

/-! ## Whole batches -/

/-- The entry at this position, counted from 1, is the first that is neither skipped nor accepted,
and this is why. -/
structure FirstRefused (d : Document) (entries : List String) (position : Nat)
    (cause : EditError) : Prop where
  position_pos : 0 < position
  refused : ∃ entry, entries[position - 1]? = some entry ∧ isSkipped entry = false ∧
    d.Refuses entry cause
  before : ∀ entry ∈ entries.take (position - 1), isSkipped entry = true ∨ d.Accepts entry

/-- What adding entries to a document leaves: it succeeds when the document accepts each entry that
is not skipped, and then every spec stands in its source table; otherwise it reports the first
refused entry, and leaves what adding the entries before it leaves. -/
structure Adds (entries : List String) (d : Document) (left : Attempt) : Prop where
  succeeds_iff : left.failure = none ↔
    ∀ entry ∈ entries, isSkipped entry = false → d.Accepts entry
  of_success : left.failure = none →
    ∃ specs, ReadsAs KeySpec.parse entries specs ∧ d.Gains specs left.document
  of_failure : ∀ e, left.failure = some e → ∃ position cause, e = .atLine position cause ∧
    d.FirstRefused entries position cause ∧
      d.addKeys (entries.take (position - 1)) = ⟨left.document, none⟩

/-- Adding entries reaches the end and adds what they write, or stops at the first refused entry. -/
theorem addKeys_cases (entries : List String) (d : Document) :
    (∃ specs, ReadsAs KeySpec.parse entries specs ∧ (∀ s ∈ specs, s.sourceTable ∈ d.tableNames) ∧
      d.addKeys entries = ⟨d.addSpecs specs, none⟩) ∨
    ∃ position cause d', d.FirstRefused entries position cause ∧
      d.addKeys (entries.take (position - 1)) = ⟨d', none⟩ ∧
      d.addKeys entries = ⟨d', some (.atLine position cause)⟩ := by
  rcases passes_or_stopsBehind addKeyEntry entries d with ⟨d', hp⟩ | ⟨before, d', cause, hstop⟩
  · obtain ⟨specs, hr, hmem, rfl⟩ := passes_addKeyEntry_iff.1 hp
    exact Or.inl ⟨specs, hr, hmem, runEntries_of_passes hp 1⟩
  · have hrun := runEntries_of_stopsBehind hstop 1
    obtain ⟨entry, after, rfl, hp, hentry, hbad⟩ := hstop
    obtain ⟨specs, hr, hmem, rfl⟩ := passes_addKeyEntry_iff.1 hp
    have htake : (before ++ entry :: after).take (1 + before.length - 1) = before := by
      rw [Nat.add_sub_cancel_left, List.take_left]
    have hrefuses : d.Refuses entry cause :=
      (refuses_congr (d.tableNames_addSpecs specs)).1 (addKeyEntry_eq_error_iff.1 hbad)
    refine Or.inr ⟨1 + before.length, cause, d.addSpecs specs,
      ⟨by omega, ⟨entry, ?_, hentry, hrefuses⟩, ?_⟩, ?_, hrun⟩
    · rw [Nat.add_sub_cancel_left, List.getElem?_append_right (Nat.le_refl _), Nat.sub_self]
      rfl
    · rw [htake]
      intro first hfirst
      refine (hr.exists_of_mem first hfirst).imp_right ?_
      rintro ⟨s, hs, hparse⟩
      exact ⟨s, hparse, hmem s hs⟩
    · rw [htake]
      exact runEntries_of_passes hp 1

theorem failure_addKeys_eq_none_iff {entries : List String} {d : Document} :
    (d.addKeys entries).failure = none ↔
      ∀ entry ∈ entries, isSkipped entry = false → d.Accepts entry := by
  rcases addKeys_cases entries d with
    ⟨specs, hr, hmem, hrun⟩ | ⟨position, cause, d', hfirst, -, hrun⟩
  · rw [hrun]
    refine iff_of_true rfl fun entry hentry hact => ?_
    rcases hr.exists_of_mem entry hentry with hskip | ⟨s, hs, hparse⟩
    · rw [hact] at hskip
      cases hskip
    · exact ⟨s, hparse, hmem s hs⟩
  · obtain ⟨entry, hentry, hact, hrefuses⟩ := hfirst.refused
    rw [hrun]
    refine iff_of_false (Option.some_ne_none _) fun hall => ?_
    exact (hall entry (List.mem_of_getElem? hentry) hact).not_refuses hrefuses

theorem exists_specs_of_success {entries : List String} {d : Document}
    (h : (d.addKeys entries).failure = none) :
    ∃ specs, ReadsAs KeySpec.parse entries specs ∧
      (d.addKeys entries).document = d.addSpecs specs := by
  rcases addKeys_cases entries d with ⟨specs, hr, -, hrun⟩ | ⟨_, _, _, -, -, hrun⟩
  · exact ⟨specs, hr, by rw [hrun]⟩
  · rw [hrun] at h
    cases h

/-- **What a batch of foreign keys adds.** For every document and every list of entries, success is
a matter of the document before the batch, and a failed batch is a successful one cut short. -/
theorem addKeys_adds (entries : List String) (d : Document) :
    d.Adds entries (d.addKeys entries) := by
  refine ⟨failure_addKeys_eq_none_iff, fun h => ?_, fun e h => ?_⟩
  · obtain ⟨specs, hr, hleft⟩ := exists_specs_of_success h
    have hlengths : ∀ s ∈ specs, s.sourceColumns.length = s.targetColumns.length := by
      intro s hs
      obtain ⟨entry, -, hparse⟩ := hr.exists_entry s hs
      exact KeySpec.lengths_eq_of_parse hparse
    rw [hleft]
    exact ⟨specs, hr, gains_addSpecs hlengths d⟩
  · rcases addKeys_cases entries d with
      ⟨_, -, -, hrun⟩ | ⟨position, cause, d', hfirst, hbefore, hrun⟩
    · rw [hrun] at h
      cases h
    · rw [hrun] at h ⊢
      cases h
      exact ⟨position, cause, rfl, hfirst, hbefore⟩

end Document

end SchemaShaper

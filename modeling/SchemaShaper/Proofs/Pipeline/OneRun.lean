import SchemaShaper.Proofs.Edit.Batches
import SchemaShaper.Proofs.Pipeline.Reading
import SchemaShaper.Proofs.Session.OmittedKeys
import Mathlib.Data.List.Induction

/-!
# The pipeline as one run

The pipeline applies the files of entries one by one, each whole or not at all and with positions of
its own. Where it succeeds, the cut into files does not show: the session is what one run over the
entries of all files gives (`foldlM_useFile_eq_ok_iff`). The induction is on the files from the last
one on, and `oneRun_concat` is its step: a file continues the one run, because the files behind it
are of its kind or of a later one. Where the pipeline fails, it does so at the first file that
cannot be read or is refused, behind files that are accepted, and a refused file is refused because
of one of its items (`useFile_eq_error_iff`). `loadSession_is_one_run` puts this together.

Reading changes no file, so that the pipeline on a tree is a fold over results (`gives_loadSession`)
and the statements are about that fold.
-/

namespace SchemaShaper

/-! ## One file -/

/-- The files of entries that the settings name, in the order of the pipeline. -/
def Config.entryFiles (c : Config) : List (EntryKind × String) :=
  c.transforms.map (.transforms, ·) ++ c.foreignKeys.map (.foreignKeys, ·)
    ++ c.omitTags.map (.omitTags, ·)

/-- How the entries of a kind edit the document, with the activity that a failure is reported with.
Keys to leave out do not edit it. -/
def EntryKind.edit? :
    EntryKind → Option (String × (String → Document → Except EditError Document))
  | transforms => some ("apply transformations: ", Document.deleteEntry)
  | foreignKeys => some ("add foreign keys: ", Document.addKeyEntry)
  | omitTags => none

/-- The session behind a file with these entries. -/
def Session.takeFile (s : Session) (kind : EntryKind) (path : String) (entries : List String) :
    Except Failure Session :=
  match kind.edit? with
  | none => .ok (s.omitKeys entries)
  | some (activity, step) =>
    match runEntries step 1 entries s.working with
    | ⟨d, none⟩ => .ok { s with working := d }
    | ⟨_, some reason⟩ => .error (.during (activity ++ path) (.edit reason))

/-- The session behind a file of the tree. -/
def FileTree.useFile (t : FileTree) (s : Session) (file : EntryKind × String) :
    Except Failure Session := do
  s.takeFile file.1 file.2 (← t.entriesAt file.1 file.2)

theorem gives_edited (t : FileTree) (activity : String) (s : Session) (a : Attempt) :
    t.Gives (edited activity (s.keepWhole a))
      (match a with
        | ⟨d, none⟩ => .ok { s with working := d }
        | ⟨_, some reason⟩ => .error (.during activity (.edit reason))) := by
  obtain ⟨d, failure⟩ := a
  cases failure <;> rfl

theorem gives_loadSession (t : FileTree) (c : Config) :
    t.Gives (loadSession FileTree.access c)
      (t.documentAt c.schema >>= fun base =>
        c.entryFiles.foldlM t.useFile (Session.start base)) := by
  have hfiles : ∀ base : Document, c.entryFiles.foldlM t.useFile (Session.start base) =
      (c.transforms.foldlM (fun s path => t.useFile s (.transforms, path)) (Session.start base)
        >>= fun s => c.foreignKeys.foldlM (fun s path => t.useFile s (.foreignKeys, path)) s
        >>= fun s => c.omitTags.foldlM (fun s path => t.useFile s (.omitTags, path)) s) := by
    intro base
    simp only [Config.entryFiles, List.foldlM_append, List.foldlM_map, bind_assoc]
  simp only [hfiles]
  refine (FileTree.gives_loadDocument c.schema).bind fun base => ?_
  refine (FileTree.Gives.foldlM (fun s path => ?_) _ _).bind fun s => ?_
  · exact (FileTree.gives_loadEntries _ _).bind fun entries => gives_edited t _ s _
  refine (FileTree.Gives.foldlM (fun s path => ?_) _ _).bind fun s => ?_
  · exact (FileTree.gives_loadEntries _ _).bind fun entries => gives_edited t _ s _
  refine FileTree.Gives.foldlM (fun s path => ?_) _ _
  exact (FileTree.gives_loadEntries _ _).bind fun entries => rfl

/-! ## One run over all entries -/

/-- The entries of the files of one kind, one file behind the other. -/
def gathered (kind : EntryKind) (files : List (EntryKind × List String)) : List String :=
  files.flatMap fun (k, entries) => if k = kind then entries else []

/-- The session is what one run over all entries gives: the statements of all files are applied to
the base, then the foreign keys of all files are added, and the keys of all files are registered. -/
structure OneRun (base : Document) (files : List (EntryKind × List String)) (s : Session) :
    Prop where
  base_eq : s.base = base
  working : ∃ d, base.transform (gathered .transforms files) = ⟨d, none⟩ ∧
    d.addKeys (gathered .foreignKeys files) = ⟨s.working, none⟩
  omitted : s.omitted = (namedKeys (gathered .omitTags files)).eraseDups

/-- The place of the files of a kind in the pipeline. -/
def EntryKind.stage : EntryKind → Nat
  | transforms => 0
  | foreignKeys => 1
  | omitTags => 2

section Files

variable {base : Document} {files : List (EntryKind × List String)} {kind : EntryKind}
  {path : String} {entries : List String} {s s' : Session}

theorem gathered_concat_self :
    gathered kind (files ++ [(kind, entries)]) = gathered kind files ++ entries := by
  simp [gathered]

theorem gathered_concat_of_ne {other : EntryKind} (h : other ≠ kind) :
    gathered kind (files ++ [(other, entries)]) = gathered kind files := by
  simp [gathered, h]

theorem gathered_eq_nil (h : ∀ file ∈ files, file.1.stage < kind.stage) :
    gathered kind files = [] := by
  refine List.flatMap_eq_nil_iff.2 fun file hfile => if_neg ?_
  intro heq
  have hlt := h file hfile
  rw [heq] at hlt
  exact Nat.lt_irrefl _ hlt

theorem transform_append {d d' : Document} {more : List String} :
    d.transform (entries ++ more) = ⟨d', none⟩ ↔
      ∃ d₁, d.transform entries = ⟨d₁, none⟩ ∧ d₁.transform more = ⟨d', none⟩ := by
  simp only [Document.transform, runEntries_eq_none_iff, passes_append]

theorem addKeys_append {d d' : Document} {more : List String} :
    d.addKeys (entries ++ more) = ⟨d', none⟩ ↔
      ∃ d₁, d.addKeys entries = ⟨d₁, none⟩ ∧ d₁.addKeys more = ⟨d', none⟩ := by
  simp only [Document.addKeys, runEntries_eq_none_iff, passes_append]

section Edit

variable {activity : String} {step : String → Document → Except EditError Document}

theorem takeFile_eq_ok_iff (h : kind.edit? = some (activity, step)) :
    s.takeFile kind path entries = .ok s' ↔
      ∃ d, runEntries step 1 entries s.working = ⟨d, none⟩ ∧ s' = { s with working := d } := by
  unfold Session.takeFile
  rw [h]
  dsimp only
  rcases runEntries step 1 entries s.working with ⟨d, _ | reason⟩ <;> simp [eq_comm]

theorem takeFile_eq_error_iff (h : kind.edit? = some (activity, step)) {e : Failure} :
    s.takeFile kind path entries = .error e ↔
      ∃ before d reason, StopsBehind step entries before s.working d reason ∧
        e = .during (activity ++ path) (.edit (.atLine (1 + before.length) reason)) := by
  have hfails : s.takeFile kind path entries = .error e ↔
      ∃ d reason, runEntries step 1 entries s.working = ⟨d, some reason⟩ ∧
        e = .during (activity ++ path) (.edit reason) := by
    unfold Session.takeFile
    rw [h]
    dsimp only
    rcases runEntries step 1 entries s.working with ⟨d, _ | reason⟩ <;> simp [eq_comm]
  rw [hfails]
  constructor
  · rintro ⟨d, _, hrun, rfl⟩
    obtain ⟨before, reason, hstop, rfl⟩ := runEntries_eq_some_iff.1 hrun
    exact ⟨before, d, reason, hstop, rfl⟩
  · rintro ⟨before, d, reason, hstop, rfl⟩
    exact ⟨d, _, runEntries_of_stopsBehind hstop 1, rfl⟩

end Edit

theorem OneRun.congr {files' : List (EntryKind × List String)}
    (h : ∀ kind, gathered kind files = gathered kind files') :
    OneRun base files s ↔ OneRun base files' s := by
  constructor <;> rintro ⟨hbase, hworking, homitted⟩
  · exact ⟨hbase, by rwa [h, h] at hworking, by rwa [h] at homitted⟩
  · exact ⟨hbase, by rwa [h, h], by rwa [h]⟩

/-- One more file of statements continues the run over the base. -/
theorem oneRun_concat_transforms (hstage : ∀ file ∈ files, file.1.stage ≤ 0) :
    OneRun base (files ++ [(.transforms, entries)]) s' ↔
      ∃ s, OneRun base files s ∧ s.takeFile .transforms path entries = .ok s' := by
  have hkeys : gathered .foreignKeys files = [] :=
    gathered_eq_nil fun file hfile => Nat.lt_succ_of_le (hstage file hfile)
  constructor
  · rintro ⟨hbase, ⟨d, hd, hadded⟩, homitted⟩
    rw [gathered_concat_self, transform_append] at hd
    rw [gathered_concat_of_ne (by decide), hkeys] at hadded
    rw [gathered_concat_of_ne (by decide)] at homitted
    obtain ⟨d₁, hd₁, hd⟩ := hd
    cases hadded
    refine ⟨{ s' with working := d₁ }, ⟨hbase, ⟨d₁, hd₁, ?_⟩, homitted⟩, ?_⟩
    · rw [hkeys]
      rfl
    · exact (takeFile_eq_ok_iff rfl).2 ⟨_, hd, rfl⟩
  · rintro ⟨s, ⟨hbase, ⟨d₁, hd₁, hadded⟩, homitted⟩, htake⟩
    obtain ⟨d, hd, rfl⟩ := (takeFile_eq_ok_iff rfl).1 htake
    rw [hkeys] at hadded
    cases hadded
    refine ⟨hbase, ⟨d, ?_, ?_⟩, ?_⟩
    · rw [gathered_concat_self]
      exact transform_append.2 ⟨_, hd₁, hd⟩
    · rw [gathered_concat_of_ne (by decide), hkeys]
      rfl
    · rwa [gathered_concat_of_ne (by decide)]

/-- One more file of foreign keys continues the run over the transformed document. -/
theorem oneRun_concat_foreignKeys :
    OneRun base (files ++ [(.foreignKeys, entries)]) s' ↔
      ∃ s, OneRun base files s ∧ s.takeFile .foreignKeys path entries = .ok s' := by
  constructor
  · rintro ⟨hbase, ⟨d, hd, hadded⟩, homitted⟩
    rw [gathered_concat_of_ne (by decide)] at hd homitted
    rw [gathered_concat_self, addKeys_append] at hadded
    obtain ⟨d₁, hd₁, hadded⟩ := hadded
    refine ⟨{ s' with working := d₁ }, ⟨hbase, ⟨d, hd, hd₁⟩, homitted⟩, ?_⟩
    exact (takeFile_eq_ok_iff rfl).2 ⟨_, hadded, rfl⟩
  · rintro ⟨s, ⟨hbase, ⟨d, hd, hadded⟩, homitted⟩, htake⟩
    obtain ⟨d₁, hd₁, rfl⟩ := (takeFile_eq_ok_iff rfl).1 htake
    refine ⟨hbase, ⟨d, ?_, ?_⟩, ?_⟩
    · rwa [gathered_concat_of_ne (by decide)]
    · rw [gathered_concat_self]
      exact addKeys_append.2 ⟨_, hadded, hd₁⟩
    · rwa [gathered_concat_of_ne (by decide)]

theorem oneRun_concat_omitTags :
    OneRun base (files ++ [(.omitTags, entries)]) s' ↔
      ∃ s, OneRun base files s ∧ s.takeFile .omitTags path entries = .ok s' := by
  have homit : ∀ s : Session, s.omitted = (namedKeys (gathered .omitTags files)).eraseDups →
      (s.omitKeys entries).omitted =
        (namedKeys (gathered .omitTags files ++ entries)).eraseDups := by
    intro s hs
    rw [← Session.foldl_omitKey_nil, List.foldl_append, Session.foldl_omitKey_nil, ← hs]
    rfl
  constructor
  · rintro ⟨hbase, ⟨d, hd, hadded⟩, homitted⟩
    rw [gathered_concat_of_ne (by decide)] at hd hadded
    rw [gathered_concat_self] at homitted
    refine ⟨{ s' with omitted := (namedKeys (gathered .omitTags files)).eraseDups },
      ⟨hbase, ⟨d, hd, hadded⟩, rfl⟩, congrArg Except.ok ?_⟩
    obtain ⟨b, w, o⟩ := s'
    exact congrArg (Session.mk b w) ((homit _ rfl).trans homitted.symm)
  · rintro ⟨s, ⟨hbase, ⟨d, hd, hadded⟩, homitted⟩, htake⟩
    cases htake
    refine ⟨hbase, ⟨d, ?_, ?_⟩, ?_⟩
    · rwa [gathered_concat_of_ne (by decide)]
    · rwa [gathered_concat_of_ne (by decide)]
    · rw [gathered_concat_self]
      exact homit s homitted

/-- One more file, of a kind that may stand there in the pipeline. -/
theorem oneRun_concat (hstage : ∀ file ∈ files, file.1.stage ≤ kind.stage) (path : String) :
    OneRun base (files ++ [(kind, entries)]) s' ↔
      ∃ s, OneRun base files s ∧ s.takeFile kind path entries = .ok s' := by
  cases kind with
  | transforms => exact oneRun_concat_transforms hstage
  | foreignKeys => exact oneRun_concat_foreignKeys
  | omitTags => exact oneRun_concat_omitTags

end Files

/-! ## All files -/

/-- The entries of a file, with its kind. -/
def FileTree.loadFile (t : FileTree) (file : EntryKind × String) :
    Except Failure (EntryKind × List String) :=
  (t.entriesAt file.1 file.2).map (file.1, ·)

section Run

variable {t : FileTree} {base : Document} {paths : List (EntryKind × String)} {s s' : Session}

theorem useFile_eq_ok_iff {file : EntryKind × String} :
    t.useFile s file = .ok s' ↔
      ∃ entries, t.entriesAt file.1 file.2 = .ok entries ∧
        s.takeFile file.1 file.2 entries = .ok s' :=
  bind_eq_ok_iff

theorem mapM_loadFile_concat {file : EntryKind × String} {files : List (EntryKind × List String)} :
    (paths ++ [file]).mapM t.loadFile = .ok files ↔
      ∃ before entries, paths.mapM t.loadFile = .ok before ∧
        t.entriesAt file.1 file.2 = .ok entries ∧ files = before ++ [(file.1, entries)] := by
  rw [List.mapM_append, bind_eq_ok_iff]
  constructor
  · rintro ⟨before, hbefore, h⟩
    obtain ⟨last, hlast, h⟩ := bind_eq_ok_iff.1 h
    cases h
    obtain ⟨loaded, rest, hloaded, hrest, rfl⟩ :=
      List.forall₂_cons_left_iff.1 (mapM_eq_ok_iff.1 hlast)
    cases hrest
    obtain ⟨entries, hentries, rfl⟩ := map_eq_ok_iff.1 hloaded
    exact ⟨before, entries, hbefore, hentries, rfl⟩
  · rintro ⟨before, entries, hbefore, hentries, rfl⟩
    refine ⟨before, hbefore, bind_eq_ok_iff.2 ⟨[(file.1, entries)], ?_, rfl⟩⟩
    refine mapM_eq_ok_iff.2 (.cons ?_ .nil)
    exact map_eq_ok_iff.2 ⟨entries, hentries, rfl⟩

theorem map_fst_of_mapM_loadFile {files : List (EntryKind × List String)}
    (h : paths.mapM t.loadFile = .ok files) : files.map (·.1) = paths.map (·.1) := by
  replace h := mapM_eq_ok_iff.1 h
  induction h with
  | nil => rfl
  | cons hfile _ ih =>
    obtain ⟨entries, -, rfl⟩ := map_eq_ok_iff.1 hfile
    exact congrArg (_ :: ·) ih

theorem oneRun_nil_iff : OneRun base [] s ↔ s = Session.start base := by
  constructor
  · rintro ⟨hbase, ⟨d, hd, hadded⟩, homitted⟩
    cases hd
    obtain ⟨b, w, o⟩ := s
    cases hbase
    cases hadded
    cases homitted
    rfl
  · rintro rfl
    exact ⟨rfl, ⟨base, rfl, rfl⟩, rfl⟩

/-- The files of the pipeline are accepted when they can be read and one run over all their entries
succeeds, and lead to what that run gives. -/
theorem foldlM_useFile_eq_ok_iff (hsorted : paths.Pairwise fun p q => p.1.stage ≤ q.1.stage) :
    paths.foldlM t.useFile (Session.start base) = .ok s ↔
      ∃ files, paths.mapM t.loadFile = .ok files ∧ OneRun base files s := by
  induction paths using List.reverseRecOn generalizing s with
  | nil =>
    constructor
    · intro h
      cases h
      exact ⟨[], rfl, oneRun_nil_iff.2 rfl⟩
    · rintro ⟨files, hfiles, hrun⟩
      cases hfiles
      exact congrArg Except.ok (oneRun_nil_iff.1 hrun).symm
  | append_singleton paths file ih =>
    obtain ⟨hsorted, -, hlast⟩ := List.pairwise_append.1 hsorted
    -- what may stand behind the paths may stand behind the files that they lead to
    have hstage : ∀ files, paths.mapM t.loadFile = .ok files →
        ∀ loaded ∈ files, loaded.1.stage ≤ file.1.stage := by
      intro files hfiles loaded hloaded
      have hmem := List.mem_map_of_mem (f := (·.1)) hloaded
      rw [map_fst_of_mapM_loadFile hfiles] at hmem
      obtain ⟨p, hp, heq⟩ := List.mem_map.1 hmem
      rw [← heq]
      exact hlast p hp file List.mem_cons_self
    rw [List.foldlM_append, bind_eq_ok_iff]
    constructor
    · rintro ⟨s₁, hbefore, h⟩
      rw [List.foldlM_cons, bind_eq_ok_iff] at h
      obtain ⟨s', hfile, h⟩ := h
      cases h
      obtain ⟨files, hfiles, hrun⟩ := (ih hsorted).1 hbefore
      obtain ⟨entries, hentries, htake⟩ := useFile_eq_ok_iff.1 hfile
      exact ⟨files ++ [(file.1, entries)],
        mapM_loadFile_concat.2 ⟨files, entries, hfiles, hentries, rfl⟩,
        (oneRun_concat (hstage files hfiles) file.2).2 ⟨s₁, hrun, htake⟩⟩
    · rintro ⟨_, hall, hrun⟩
      obtain ⟨files, entries, hfiles, hentries, rfl⟩ := mapM_loadFile_concat.1 hall
      obtain ⟨s₁, hrun, htake⟩ := (oneRun_concat (hstage files hfiles) file.2).1 hrun
      refine ⟨s₁, (ih hsorted).2 ⟨files, hfiles, hrun⟩, ?_⟩
      rw [List.foldlM_cons, useFile_eq_ok_iff.2 ⟨entries, hentries, htake⟩]
      rfl

end Run

/-! ## Refused files -/

/-- The file is refused because of the item at this position, counted from 1: the item is no entry,
or, behind entries that the session accepts, the entry that it writes is rejected. -/
inductive FileTree.Refuses (t : FileTree) (file : EntryKind × String) (s : Session) :
    Nat → Value → Failure → Prop
  | item {before after : List Value} {item : Value}
      (hitems : t.itemsAt file.1 file.2 = .ok (before ++ item :: after))
      (hbefore : ∀ i ∈ before, ∃ entry, Entries.entry? i = some entry)
      (hitem : Entries.entry? item = none) :
      Refuses t file s (1 + before.length) item
        (Entries.complaint file.1 file.2 (1 + before.length) item)
  | entry {items : List Value} {entries before : List String} {activity : String}
      {step : String → Document → Except EditError Document} {d : Document} {reason : EditError}
      {item : Value} (hitems : t.itemsAt file.1 file.2 = .ok items)
      (hentries : List.Forall₂ (fun item entry => Entries.entry? item = some entry) items entries)
      (hedit : file.1.edit? = some (activity, step))
      (hstop : StopsBehind step entries before s.working d reason)
      (hitem : items[before.length]? = some item) :
      Refuses t file s (1 + before.length) item
        (.during (activity ++ file.2) (.edit (.atLine (1 + before.length) reason)))

/-- The failure names the file and the position of what is refused in it. -/
inductive Failure.Names (path : String) (position : Nat) : Failure → Prop
  | item (kind : EntryKind) (found : String) : Names path position
      (.notice (s!"'{kind.key}' entry {position} in {path} must be a string, found: " ++ found))
  | entry {kind : EntryKind} {activity : String}
      {step : String → Document → Except EditError Document}
      (hedit : kind.edit? = some (activity, step)) (reason : EditError) : Names path position
      (.during (activity ++ path) (.edit (.atLine position reason)))

section Refused

variable {t : FileTree} {file : EntryKind × String} {s : Session} {e : Failure}

theorem entriesAt_eq_error_iff {kind : EntryKind} {path : String} :
    t.entriesAt kind path = .error e ↔ t.itemsAt kind path = .error e ∨
      ∃ before item after, t.itemsAt kind path = .ok (before ++ item :: after) ∧
        (∀ i ∈ before, ∃ entry, Entries.entry? i = some entry) ∧ Entries.entry? item = none ∧
        e = Entries.complaint kind path (1 + before.length) item := by
  unfold FileTree.entriesAt
  rw [bind_eq_error_iff]
  refine or_congr_right ?_
  constructor
  · rintro ⟨items, hitems, hrest⟩
    obtain ⟨before, item, after, rfl, h⟩ := Entries.ofItems_eq_error_iff.1 hrest
    exact ⟨before, item, after, hitems, h⟩
  · rintro ⟨before, item, after, hitems, h⟩
    exact ⟨_, hitems, Entries.ofItems_eq_error_iff.2 ⟨before, item, after, rfl, h⟩⟩

/-- A file fails when its items cannot be read, or because of one of them. -/
theorem useFile_eq_error_iff :
    t.useFile s file = .error e ↔
      t.itemsAt file.1 file.2 = .error e ∨ ∃ position item, t.Refuses file s position item e := by
  have huse : t.useFile s file = .error e ↔ t.entriesAt file.1 file.2 = .error e ∨
      ∃ entries, t.entriesAt file.1 file.2 = .ok entries ∧
        s.takeFile file.1 file.2 entries = .error e := bind_eq_error_iff
  rw [huse, entriesAt_eq_error_iff, or_assoc]
  refine or_congr_right ?_
  constructor
  · rintro (⟨before, item, after, hitems, hbefore, hitem, rfl⟩ | ⟨entries, hentries, htake⟩)
    · exact ⟨_, item, .item hitems hbefore hitem⟩
    · cases hedit : file.1.edit? with
      | none =>
        unfold Session.takeFile at htake
        rw [hedit] at htake
        cases htake
      | some edit =>
        obtain ⟨activity, step⟩ := edit
        obtain ⟨before, d, reason, hstop, rfl⟩ := (takeFile_eq_error_iff hedit).1 htake
        obtain ⟨items, hitems, hof⟩ := bind_eq_ok_iff.1 hentries
        have hforall := Entries.ofItems_eq_ok_iff.1 hof
        have hlt : before.length < items.length := by
          obtain ⟨entry, after, rfl, -⟩ := hstop
          rw [hforall.length_eq, List.length_append, List.length_cons]
          omega
        exact ⟨_, items[before.length], .entry hitems hforall hedit hstop
          (List.getElem?_eq_getElem hlt)⟩
  · rintro ⟨position, item, h⟩
    cases h with
    | item hitems hbefore hitem => exact Or.inl ⟨_, item, _, hitems, hbefore, hitem, rfl⟩
    | entry hitems hentries hedit hstop _ =>
      refine Or.inr ⟨_, bind_eq_ok_iff.2 ⟨_, hitems, Entries.ofItems_eq_ok_iff.2 hentries⟩, ?_⟩
      exact (takeFile_eq_error_iff hedit).2 ⟨_, _, _, hstop, rfl⟩

/-- What is refused is named, but for an item that is no entry and has no YAML text. -/
theorem FileTree.Refuses.names_iff {position : Nat} {item : Value}
    (h : t.Refuses file s position item e) :
    e.Names file.2 position ↔
      (∃ entry, Entries.entry? item = some entry) ∨ ∃ shown, item.toYaml? = some shown := by
  cases h with
  | item _ _ hitem =>
    unfold Entries.complaint
    cases hshown : item.toYaml? with
    | none =>
      constructor
      · intro h
        cases h
      · rintro (⟨entry, hentry⟩ | ⟨shown, hshown⟩)
        · rw [hitem] at hentry
          cases hentry
        · cases hshown
    | some shown =>
      exact ⟨fun _ => Or.inr ⟨shown, rfl⟩, fun _ => .item file.1 _⟩
  | entry _ hentries hedit _ hitem =>
    refine ⟨fun _ => Or.inl ?_, fun _ => .entry hedit _⟩
    obtain ⟨hlt, rfl⟩ := List.getElem?_eq_some_iff.1 hitem
    exact ⟨_, (List.forall₂_iff_get.1 hentries).2 _ hlt (hentries.length_eq ▸ hlt)⟩

end Refused

/-! ## Loading a session -/

/-- The document can be read, the files are accepted, and one run over their entries gives the
session. -/
def FileTree.Accepts (t : FileTree) (c : Config) (paths : List (EntryKind × String))
    (s : Session) : Prop :=
  ∃ base files, t.documentAt c.schema = .ok base ∧ paths.mapM t.loadFile = .ok files ∧
    OneRun base files s

theorem sorted_entryFiles (c : Config) :
    c.entryFiles.Pairwise fun p q => p.1.stage ≤ q.1.stage := by
  have hblock : ∀ (kind : EntryKind) (paths : List String),
      (paths.map (kind, ·)).Pairwise fun p q => p.1.stage ≤ q.1.stage := fun kind paths =>
    List.pairwise_map.2 (List.pairwise_of_forall fun _ _ => Nat.le_refl _)
  refine List.pairwise_append.2 ⟨List.pairwise_append.2 ⟨hblock _ _, hblock _ _, ?_⟩,
    hblock _ _, ?_⟩
  · intro p hp q _
    obtain ⟨_, -, rfl⟩ := List.mem_map.1 hp
    exact Nat.zero_le _
  · intro p hp q hq
    obtain ⟨_, -, rfl⟩ := List.mem_map.1 hq
    show p.1.stage ≤ 2
    cases p.1 <;> decide

/-- What loading a session has to give: the session of one run over the entries of all files, in the
order of the pipeline; or the failure of the document, or of the first file that cannot be read or
is refused, behind files that are accepted. -/
structure FileTree.LoadsAsOneRun (t : FileTree) (c : Config) (result : Except Failure Session) :
    Prop where
  ok_iff : ∀ s, result = .ok s ↔ t.Accepts c c.entryFiles s
  error_iff : ∀ e, result = .error e ↔ t.documentAt c.schema = .error e ∨
    ∃ before file after s, c.entryFiles = before ++ file :: after ∧ t.Accepts c before s ∧
      (t.itemsAt file.1 file.2 = .error e ∨ ∃ position item, t.Refuses file s position item e)
  /-- Another way to cut the same entries into files gives the same session. -/
  cut : ∀ (t' : FileTree) (c' : Config) (files files' : List (EntryKind × List String)),
    t.documentAt c.schema = t'.documentAt c'.schema →
    c.entryFiles.mapM t.loadFile = .ok files → c'.entryFiles.mapM t'.loadFile = .ok files' →
    (∀ kind, gathered kind files = gathered kind files') →
    ∀ s, result = .ok s ↔ t'.Gives (loadSession access c') (.ok s)
  /-- A refused item is reported with its file and its position, exactly if it is an entry or has a
  YAML text. -/
  refused : ∀ before file after s position item e, c.entryFiles = before ++ file :: after →
    t.Accepts c before s → t.Refuses file s position item e → result = .error e ∧
      (e.Names file.2 position ↔
        (∃ entry, Entries.entry? item = some entry) ∨ ∃ shown, item.toYaml? = some shown)

section Loading

variable {t : FileTree} {c : Config}

theorem foldlM_entryFiles_eq_ok_iff {before : List (EntryKind × String)}
    (hbefore : before.Sublist c.entryFiles) {s : Session} :
    (t.documentAt c.schema >>= fun base => before.foldlM t.useFile (Session.start base)) = .ok s ↔
      t.Accepts c before s := by
  have hsorted := (sorted_entryFiles c).sublist hbefore
  rw [bind_eq_ok_iff]
  constructor
  · rintro ⟨base, hbase, hfold⟩
    obtain ⟨files, hfiles, hrun⟩ := (foldlM_useFile_eq_ok_iff hsorted).1 hfold
    exact ⟨base, files, hbase, hfiles, hrun⟩
  · rintro ⟨base, files, hbase, hfiles, hrun⟩
    exact ⟨base, hbase, (foldlM_useFile_eq_ok_iff hsorted).2 ⟨files, hfiles, hrun⟩⟩

theorem foldlM_entryFiles_eq_error_iff {e : Failure} :
    (t.documentAt c.schema >>= fun base =>
      c.entryFiles.foldlM t.useFile (Session.start base)) = .error e ↔
      t.documentAt c.schema = .error e ∨
        ∃ before file after s, c.entryFiles = before ++ file :: after ∧ t.Accepts c before s ∧
          t.useFile s file = .error e := by
  rw [bind_eq_error_iff]
  refine or_congr_right ?_
  constructor
  · rintro ⟨base, hbase, hfold⟩
    obtain ⟨before, file, after, s, hfiles, hbefore, huse⟩ := foldlM_eq_error_iff.1 hfold
    have hsub : before.Sublist c.entryFiles := hfiles ▸ List.sublist_append_left _ _
    refine ⟨before, file, after, s, hfiles, ?_, huse⟩
    exact (foldlM_entryFiles_eq_ok_iff hsub).1 (bind_eq_ok_iff.2 ⟨base, hbase, hbefore⟩)
  · rintro ⟨before, file, after, s, hfiles, haccepts, huse⟩
    have hsub : before.Sublist c.entryFiles := hfiles ▸ List.sublist_append_left _ _
    obtain ⟨base, hbase, hbefore⟩ :=
      bind_eq_ok_iff.1 ((foldlM_entryFiles_eq_ok_iff hsub).2 haccepts)
    exact ⟨base, hbase, foldlM_eq_error_iff.2 ⟨before, file, after, s, hfiles, hbefore, huse⟩⟩

end Loading

/-- **Loading is one run.** From every tree of files and for all settings. -/
theorem loadSession_is_one_run (t : FileTree) (c : Config) :
    ∃ result, t.Gives (loadSession FileTree.access c) result ∧ t.LoadsAsOneRun c result := by
  refine ⟨_, gives_loadSession t c, ?_, ?_, ?_, ?_⟩
  · exact fun s => foldlM_entryFiles_eq_ok_iff (List.Sublist.refl _)
  · intro e
    rw [foldlM_entryFiles_eq_error_iff]
    simp only [useFile_eq_error_iff]
  · intro t' c' files files' hdocument hfiles hfiles' hgathered s
    have hloads' : t'.Gives (loadSession FileTree.access c') (.ok s) ↔
        t'.Accepts c' c'.entryFiles s := by
      rw [← foldlM_entryFiles_eq_ok_iff (List.Sublist.refl _)]
      have hgives := gives_loadSession t' c'
      exact ⟨fun h => hgives.eq h, fun h => h ▸ hgives⟩
    rw [foldlM_entryFiles_eq_ok_iff (List.Sublist.refl _), hloads']
    constructor
    · rintro ⟨base, loaded, hbase, hloaded, hrun⟩
      cases hfiles.symm.trans hloaded
      exact ⟨base, files', hdocument ▸ hbase, hfiles', (OneRun.congr hgathered).1 hrun⟩
    · rintro ⟨base, loaded, hbase, hloaded, hrun⟩
      cases hfiles'.symm.trans hloaded
      exact ⟨base, files, hdocument ▸ hbase, hfiles, (OneRun.congr hgathered).2 hrun⟩
  · intro before file after s position item e hfiles haccepts hrefuses
    refine ⟨foldlM_entryFiles_eq_error_iff.2
      (Or.inr ⟨before, file, after, s, hfiles, haccepts, ?_⟩), hrefuses.names_iff⟩
    exact useFile_eq_error_iff.2 (Or.inr ⟨position, item, hrefuses⟩)

/-- A document without tables, and a file of statements with one item: a mapping whose only key is a
mapping, which has no YAML text. -/
def FileTree.unwritable : FileTree :=
  { home := ["home"]
    entries :=
      [(["home", "schema.yaml"], .file "tables: []\n".toUTF8),
        (["home", "steps.yaml"], .file "transformation_steps:\n- ? {a: 1}\n  : 2\n".toUTF8)] }

set_option maxRecDepth 100000 in
/-- The item is refused with a failure that names neither its file nor its position. -/
theorem loadSession_unnamed_item :
    ∃ item, FileTree.unwritable.Refuses (.transforms, "steps.yaml") (Session.start ⟨[]⟩) 1 item
        (.outside .yaml) ∧
      FileTree.unwritable.Gives (loadSession FileTree.access { transforms := ["steps.yaml"] })
        (.error (.outside .yaml)) ∧
      ∀ path position, ¬ Failure.Names path position (.outside .yaml) := by
  have hitem : ∃ item, FileTree.unwritable.itemsAt .transforms "steps.yaml" = .ok [item] ∧
      Entries.entry? item = none ∧ item.toYaml? = none := by
    have hread : (FileTree.unwritable.itemsAt .transforms "steps.yaml").map (fun items =>
        items.map fun item => (Entries.entry? item, item.toYaml?)) = .ok [(none, none)] := by
      decide +kernel
    obtain ⟨items, hitems, hsingle⟩ := map_eq_ok_iff.1 hread
    obtain ⟨item, rfl, hnone⟩ := List.map_eq_singleton_iff.1 hsingle
    exact ⟨item, hitems, congrArg Prod.fst hnone, congrArg Prod.snd hnone⟩
  obtain ⟨item, hitems, hentry, hshown⟩ := hitem
  have hcomplaint : Entries.complaint .transforms "steps.yaml" 1 item = .outside .yaml := by
    unfold Entries.complaint
    rw [hshown]
  have hrefuses : FileTree.unwritable.Refuses (.transforms, "steps.yaml") (Session.start ⟨[]⟩) 1
      item (.outside .yaml) :=
    hcomplaint ▸ @FileTree.Refuses.item _ _ _ [] _ _ hitems (List.forall_mem_nil _) hentry
  have hdocument : FileTree.unwritable.documentAt "schema.yaml" = .ok ⟨[]⟩ := by decide +kernel
  refine ⟨item, hrefuses, ?_, fun _ _ h => nomatch h⟩
  have hfails : (FileTree.unwritable.documentAt "schema.yaml" >>= fun base =>
      [(EntryKind.transforms, "steps.yaml")].foldlM FileTree.unwritable.useFile
        (Session.start base)) = .error (.outside .yaml) := by
    rw [bind_eq_error_iff]
    refine Or.inr ⟨_, hdocument, foldlM_eq_error_iff.2 ⟨[], _, [], _, rfl, rfl, ?_⟩⟩
    exact useFile_eq_error_iff.2 (Or.inr ⟨1, item, hrefuses⟩)
  rw [← hfails]
  exact gives_loadSession FileTree.unwritable { transforms := ["steps.yaml"] }

end SchemaShaper

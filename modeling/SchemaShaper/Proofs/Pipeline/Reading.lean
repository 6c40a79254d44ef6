import SchemaShaper.Files.Tree
import SchemaShaper.Pipeline.Loading
import SchemaShaper.Proofs.Pipeline.EntryFiles

/-!
# Reading from a tree of files

Loading works for any way of keeping files. In a tree, reading changes nothing: an activity that
only reads gives a result and leaves the tree as it is (`FileTree.Gives`), so it can be replaced by
a function from the tree to that result. These are the functions behind loading a document and
loading the entries of a file.
-/

namespace SchemaShaper

namespace FileTree

variable {α β : Type} {t : FileTree}

/-- In the tree the activity has this result, and it leaves the tree as it is. -/
def Gives (t : FileTree) (x : ExceptT Failure (StateM FileTree) α) (result : Except Failure α) :
    Prop :=
  x.run t = (result, t)

theorem gives_pure (a : α) : t.Gives (pure a) (.ok a) := rfl

theorem Gives.eq {x : ExceptT Failure (StateM FileTree) α} {r r' : Except Failure α}
    (h : t.Gives x r) (h' : t.Gives x r') : r = r' :=
  congrArg Prod.fst (Eq.trans (Eq.symm h) h')

theorem Gives.bind {x : ExceptT Failure (StateM FileTree) α} {result : Except Failure α}
    {f : α → ExceptT Failure (StateM FileTree) β} {g : α → Except Failure β}
    (hx : t.Gives x result) (hf : ∀ a, t.Gives (f a) (g a)) : t.Gives (x >>= f) (result >>= g) := by
  unfold Gives at *
  have hbind : (x >>= f).run t = ExceptT.bindCont f (x.run t).1 (x.run t).2 := rfl
  rw [hbind, hx]
  cases result with
  | error e => rfl
  | ok a => exact hf a

theorem Gives.foldlM {f : β → α → ExceptT Failure (StateM FileTree) β}
    {g : β → α → Except Failure β} (hf : ∀ b a, t.Gives (f b a) (g b a)) (xs : List α) (b : β) :
    t.Gives (xs.foldlM f b) (xs.foldlM g b) := by
  induction xs generalizing b with
  | nil => exact gives_pure b
  | cons x xs ih =>
    rw [List.foldlM_cons, List.foldlM_cons]
    exact (hf b x).bind ih

/-- The text of a file, or the failure of the activity that needs it. -/
def textAt (t : FileTree) (activity path : String) : Except Failure String :=
  match t.read path with
  | .ok text => .ok text
  | .error fault => .error (.during (activity ++ path) (.outside (.file fault)))

/-- The document in a file. -/
def documentAt (t : FileTree) (path : String) : Except Failure Document := do
  let text ← t.textAt "read schema document: " path
  match Document.parse (documentFormat path) text with
  | .ok d => .ok d
  | .error failure => .error (.during ("parse schema document: " ++ path) failure)

/-- The items in a file of entries. -/
def itemsAt (t : FileTree) (kind : EntryKind) (path : String) : Except Failure (List Value) := do
  Entries.items kind path (← t.textAt "read spec file: " path)

/-- The entries in a file. -/
def entriesAt (t : FileTree) (kind : EntryKind) (path : String) : Except Failure (List String) := do
  Entries.ofItems kind path 1 (← t.itemsAt kind path)

theorem gives_lift (x : StateM FileTree α) (h : (x t).2 = t) :
    t.Gives (liftM x) (.ok (x t).1) := by
  unfold Gives
  have hrun : (liftM x : ExceptT Failure (StateM FileTree) α).run t = (.ok (x t).1, (x t).2) := rfl
  rw [hrun, h]

theorem gives_read (activity path : String) :
    t.Gives (orFail (activity ++ path) (access.read path)) (t.textAt activity path) := by
  have htext : t.textAt activity path =
      (.ok (t.read path) : Except Failure (Except Fault String)) >>= fun
        | .ok text => .ok text
        | .error fault => .error (.during (activity ++ path) (.outside (.file fault))) := rfl
  rw [htext]
  refine (gives_lift (access.read path) rfl).bind fun result => ?_
  cases result <;> rfl

theorem gives_loadDocument (path : String) :
    t.Gives (loadDocument access path) (t.documentAt path) := by
  refine (gives_read _ _).bind fun text => ?_
  unfold whileDoing
  cases Document.parse (documentFormat path) text <;> rfl

theorem gives_loadEntries (kind : EntryKind) (path : String) :
    t.Gives (loadEntries access kind path) (t.entriesAt kind path) := by
  have hentries : t.entriesAt kind path =
      t.textAt "read spec file: " path >>= fun text => Entries.parse kind path text := by
    simp only [Entries.parse_eq, entriesAt, itemsAt, bind_assoc]
  rw [hentries]
  refine (gives_read _ _).bind fun text => ?_
  cases hparse : Entries.parse kind path text <;> rfl

end FileTree

end SchemaShaper

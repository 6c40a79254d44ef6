import SchemaShaper.Document.Finding
import SchemaShaper.Proofs.Document.Descent

/-!
# Errors of a document

The errors among the findings of a document concern one table each and do not look at the rest of
the document, apart from the names of the tables in front (`Table.errors`). So the errors of a
document that descends from another are, in order, some of the errors of that one, when added keys
are balanced (`Document.Descends.errors_sublist`). Deleting the first of several tables of one name
makes the next one the first: it loses its error, and none is gained.
-/

namespace SchemaShaper

/-- The findings of a document that are errors, in order. -/
def Document.errors (d : Document) : List Finding := d.check.filter Finding.isError

/-- The errors about a table behind tables with the names in `seen`. -/
def Table.errors (seen : List String) (t : Table) : List Finding :=
  (if seen.contains t.name then [.duplicateTable t.name] else [])
  ++ (t.keys.filter (!·.isBalanced)).map fun k =>
    .keyArity t.name k.name k.sourceColumns.length k.targetColumns.length

/-- The errors about the tables of a list behind tables with the names in `seen`. -/
def errorsFrom (seen : List String) : List Table → List Finding
  | [] => []
  | t :: ts => t.errors seen ++ errorsFrom (t.name :: seen) ts

/-! ## The errors among the findings -/

theorem filter_isError_map {α : Type} (f : α → Finding) (hf : ∀ a, (f a).isError = false)
    (l : List α) : (l.map f).filter Finding.isError = [] := by
  rw [List.filter_eq_nil_iff]
  intro finding h
  obtain ⟨a, -, rfl⟩ := List.mem_map.1 h
  simp [hf a]

theorem Document.filter_isError_checkKey (d : Document) (t : Table) (k : ForeignKey) :
    (d.checkKey t k).filter Finding.isError =
      if k.isBalanced then []
      else [.keyArity t.name k.name k.sourceColumns.length k.targetColumns.length] := by
  unfold Document.checkKey
  rw [List.filter_append, List.filter_append, filter_isError_map _ (fun _ => rfl), List.append_nil]
  cases d.table? k.targetTable with
  | none => split <;> rfl
  | some target =>
    have hwarnings := filter_isError_map (.unknownTargetColumn t.name k.name k.targetTable)
      (fun _ => rfl) (target.unknownColumns k.targetColumns)
    simp only [hwarnings]
    split <;> rfl

theorem Document.filter_isError_checkTable (d : Document) (t : Table) :
    (d.checkTable t).filter Finding.isError =
      (t.keys.filter (!·.isBalanced)).map fun k =>
        .keyArity t.name k.name k.sourceColumns.length k.targetColumns.length := by
  unfold Document.checkTable
  rw [List.filter_append, filter_isError_map _ (fun _ => rfl), List.nil_append]
  induction t.keys with
  | nil => rfl
  | cons k ks ih =>
    rw [List.flatMap_cons, List.filter_append, ih, d.filter_isError_checkKey]
    cases hk : k.isBalanced <;> simp [hk]

/-- Whether a finding is an error does not depend on the document around its table. -/
theorem Document.filter_isError_checkFrom (d : Document) (seen : List String) (ts : List Table) :
    (d.checkFrom seen ts).filter Finding.isError = errorsFrom seen ts := by
  induction ts generalizing seen with
  | nil => rfl
  | cons t ts ih =>
    rw [Document.checkFrom, List.filter_append, List.filter_append, ih,
      d.filter_isError_checkTable, errorsFrom, Table.errors]
    congr 2
    split <;> rfl

theorem Document.errors_eq (d : Document) : d.errors = errorsFrom [] d.tables :=
  d.filter_isError_checkFrom [] d.tables

/-! ## Errors under descent -/

variable {added : String → ForeignKey → Prop}

/-- A table that descends from another has some of its errors, behind fewer names. -/
theorem Table.Descends.errors_sublist (hadded : ∀ n k, added n k → k.isBalanced = true)
    {t origin : Table} (h : t.Descends added origin) {seen seen' : List String}
    (hseen : seen ⊆ seen') : (t.errors seen).Sublist (origin.errors seen') := by
  obtain ⟨kept, new, hkeys, hkept, hnew⟩ := h.keys_eq_append
  have hbalanced : new.filter (!·.isBalanced) = [] := by
    rw [List.filter_eq_nil_iff]
    intro k hk
    simp [hadded _ k (hnew k hk)]
  unfold Table.errors
  rw [hkeys, List.filter_append, hbalanced, List.append_nil, h.name_eq]
  refine List.Sublist.append ?_ ((hkept.filter _).map _)
  split
  · next hmem =>
    rw [List.contains_iff_mem] at hmem
    rw [if_pos (List.contains_iff_mem.2 (hseen hmem))]
  · exact List.nil_sublist _

theorem errorsFrom_sublist (hadded : ∀ n k, added n k → k.isBalanced = true)
    {ts origins : List Table} (h : List.SublistForall₂ (Table.Descends added) ts origins)
    {seen seen' : List String} (hseen : seen ⊆ seen') :
    (errorsFrom seen ts).Sublist (errorsFrom seen' origins) := by
  -- A table that was dropped only adds to the names in front of the tables behind it.
  induction h generalizing seen seen' with
  | nil => exact List.nil_sublist _
  | cons ht _ ih =>
    rw [errorsFrom, errorsFrom]
    refine (ht.errors_sublist hadded hseen).append (ih ?_)
    rw [ht.name_eq]
    exact List.cons_subset_cons _ hseen
  | cons_right _ ih =>
    rw [errorsFrom]
    exact (ih (List.subset_cons_of_subset _ hseen)).trans (List.sublist_append_right _ _)

/-- Descent with balanced additions gives no new error and keeps the order of those that stay. -/
theorem Document.Descends.errors_sublist (hadded : ∀ n k, added n k → k.isBalanced = true)
    {d origin : Document} (h : d.Descends added origin) : d.errors.Sublist origin.errors := by
  rw [d.errors_eq, origin.errors_eq]
  exact errorsFrom_sublist hadded h (List.Subset.refl [])

end SchemaShaper

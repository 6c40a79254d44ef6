import SchemaShaper.Session
import Mathlib.Data.List.Basic

/-!
# The keys that a session leaves out

The keys registered from a list of entries are the trimmed entries that are not skipped, each once,
in the order in which they first occur (`Session.foldl_omitKey_nil`).
-/

namespace SchemaShaper

/-- The keys that entries name: the trimmed entries that are neither blank nor comments. -/
def namedKeys (entries : List String) : List String :=
  (entries.map Text.trimmed).filter (!isSkipped ·)

theorem namedKeys_cons_skip {entry : String} (h : isSkipped (Text.trimmed entry) = true)
    (entries : List String) : namedKeys (entry :: entries) = namedKeys entries :=
  List.filter_cons_of_neg (by simp [h])

theorem namedKeys_cons_key {entry : String} (h : isSkipped (Text.trimmed entry) = false)
    (entries : List String) :
    namedKeys (entry :: entries) = Text.trimmed entry :: namedKeys entries :=
  List.filter_cons_of_pos (by simp [h])

namespace Session

/-- Registering keeps the keys that are there and puts the new ones behind them. -/
theorem foldl_omitKey (entries omitted : List String) :
    entries.foldl omitKey omitted =
      omitted ++ ((namedKeys entries).filter fun key => !omitted.contains key).eraseDups := by
  induction entries generalizing omitted with
  | nil => simp [namedKeys]
  | cons entry entries ih =>
    rw [List.foldl_cons, ih]
    cases hskip : isSkipped (Text.trimmed entry) with
    | true => rw [omitKey, hskip, Bool.true_or, if_pos rfl, namedKeys_cons_skip hskip]
    | false =>
      rw [omitKey, hskip, Bool.false_or, namedKeys_cons_key hskip]
      cases hmem : omitted.contains (Text.trimmed entry) with
      | true => rw [if_pos rfl, List.filter_cons_of_neg (by simpa using hmem)]
      | false =>
        have hfilter : ∀ key, (!(omitted ++ [Text.trimmed entry]).contains key) =
            (!key == Text.trimmed entry && !omitted.contains key) := by
          intro key
          rw [List.contains_append, Bool.not_or, Bool.and_comm, List.contains_cons,
            List.contains_nil, Bool.or_false]
        rw [if_neg (by simp), List.filter_cons_of_pos (by simpa using hmem), List.eraseDups_cons,
          List.filter_filter, List.append_assoc, List.singleton_append]
        simp only [hfilter]

theorem mem_foldl_omitKey {entries omitted : List String} {key : String} :
    key ∈ entries.foldl omitKey omitted ↔ key ∈ omitted ++ namedKeys entries := by
  rw [foldl_omitKey]
  simp only [List.mem_append, List.mem_eraseDups, List.mem_filter, Bool.not_eq_true',
    List.contains_eq_mem, decide_eq_false_iff_not]
  by_cases hmem : key ∈ omitted <;> simp [hmem]

theorem foldl_omitKey_nil (entries : List String) :
    entries.foldl omitKey [] = (namedKeys entries).eraseDups := by
  rw [foldl_omitKey]
  simp

end Session

end SchemaShaper

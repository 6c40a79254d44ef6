import SchemaShaper.Diagram
import SchemaShaper.Proofs.Text.Cuts
import Mathlib.Data.List.Infix

/-!
# The tokens of column types

A token is one word without an opening parenthesis (`IsToken`). Every column type is drawn as a
token, and the tokens are the types that are drawn as they are (`typeToken_eq_self_iff`).

A group in parentheses leaves no trace in a token, wherever it stands (`outside_group`). Inside of
it parentheses open before they close and all of them close (`Balanced`), so that the closing one at
its end is the first that meets the depth of the opening one at its front; the depth there does not
matter, and neither does what stands around.
-/

namespace SchemaShaper.Diagram

/-! ## Groups -/

/-- No parenthesis closes before one has opened for it, and all that open close. -/
structure Balanced (cs : List Char) : Prop where
  opened : ∀ front, front <+: cs → front.count ')' ≤ front.count '('
  closed : cs.count ')' = cs.count '('

instance (cs : List Char) : Decidable (Balanced cs) :=
  decidable_of_iff
    ((∀ front ∈ cs.inits, front.count ')' ≤ front.count '(') ∧ cs.count ')' = cs.count '(')
    ⟨fun h => ⟨fun front hfront => h.1 front ((List.mem_inits _ _).2 hfront), h.2⟩,
      fun h => ⟨fun front hfront => h.opened front ((List.mem_inits _ _).1 hfront), h.closed⟩⟩

section Outside

variable {c : Char} {cs : List Char} {depth : Nat}

theorem outside_open : outside depth ('(' :: cs) = outside (depth + 1) cs := by
  cases depth <;> rfl

theorem outside_close : outside (depth + 1) (')' :: cs) = outside depth cs := rfl

theorem outside_kept (hc : c ≠ '(') : outside 0 (c :: cs) = c :: outside 0 cs := by
  rw [outside]
  exact hc

theorem outside_dropped (hopen : c ≠ '(') (hclose : c ≠ ')') :
    outside (depth + 1) (c :: cs) = outside (depth + 1) cs := by
  rw [outside]
  · exact hopen
  · exact hclose

theorem open_not_mem_outside : '(' ∉ outside depth cs := by
  fun_induction outside depth cs with
  | case1 => exact List.not_mem_nil
  | case3 c cs hc ih => exact List.not_mem_cons_of_ne_of_not_mem (Ne.symm hc) ih
  | case2 _ _ ih | case4 _ _ ih | case5 _ _ _ _ _ ih => exact ih

theorem outside_eq_self (h : '(' ∉ cs) : outside 0 cs = cs := by
  induction cs with
  | nil => rfl
  | cons c cs ih =>
    obtain ⟨hc, hcs⟩ := List.ne_and_not_mem_of_not_mem_cons h
    rw [outside_kept hc.symm, ih hcs]

/-- Texts of which the same is left at every depth can be exchanged behind any text. -/
theorem outside_append_congr {xs ys : List Char}
    (h : ∀ depth, outside depth xs = outside depth ys) (front : List Char) (depth : Nat) :
    outside depth (front ++ xs) = outside depth (front ++ ys) := by
  induction front generalizing depth with
  | nil => exact h depth
  | cons c front ih =>
    simp only [List.cons_append]
    by_cases hopen : c = '('
    · subst hopen
      rw [outside_open, outside_open, ih]
    · cases depth with
      | zero => rw [outside_kept hopen, outside_kept hopen, ih]
      | succ depth =>
        by_cases hclose : c = ')'
        · subst hclose
          rw [outside_close, outside_close, ih]
        · rw [outside_dropped hopen hclose, outside_dropped hopen hclose, ih]

/-- Nothing is left of a text that closes what it opens and `inner` parentheses more, as long as it
never closes more than that. -/
theorem outside_closing {rest : List Char} (inner : Nat)
    (hopened : ∀ front, front <+: cs → front.count ')' ≤ inner + front.count '(')
    (hclosed : cs.count ')' = inner + cs.count '(') :
    outside (depth + inner + 1) (cs ++ ')' :: rest) = outside depth rest := by
  induction cs generalizing inner with
  | nil =>
    have hinner : inner = 0 := by simpa using hclosed.symm
    subst hinner
    exact outside_close
  | cons c cs ih =>
    have hfront : ∀ front, front <+: cs →
        (c :: front).count ')' ≤ inner + (c :: front).count '(' := fun front h =>
      hopened (c :: front) ((List.prefix_cons_inj c).2 h)
    rw [List.cons_append]
    by_cases hopen : c = '('
    · subst hopen
      rw [outside_open]
      refine ih (inner + 1) (fun front h => ?_) ?_
      · have hcount := hfront front h
        simp at hcount
        omega
      · simp at hclosed
        omega
    · by_cases hclose : c = ')'
      · subst hclose
        cases inner with
        | zero =>
          have hcount := hfront [] List.nil_prefix
          simp at hcount
        | succ inner =>
          rw [← Nat.add_assoc, outside_close]
          refine ih inner (fun front h => ?_) ?_
          · have hcount := hfront front h
            simp at hcount
            omega
          · simp at hclosed
            omega
      · rw [outside_dropped hopen hclose]
        refine ih inner (fun front h => ?_) ?_
        · simpa [hopen, hclose] using hfront front h
        · simpa [hopen, hclose] using hclosed

/-- A group leaves no trace at any depth. -/
theorem outside_group {group : List Char} (h : Balanced group) (rest : List Char) (depth : Nat) :
    outside depth ('(' :: (group ++ ')' :: rest)) = outside depth rest := by
  rw [outside_open]
  refine outside_closing 0 (fun front hfront => ?_) ?_
  · rw [Nat.zero_add]
    exact h.opened front hfront
  · rw [Nat.zero_add]
    exact h.closed

end Outside

/-! ## Tokens -/

/-- The text is one word without an opening parenthesis. -/
structure IsToken (s : String) : Prop where
  ne_empty : s ≠ ""
  not_blank : ∀ c ∈ s.toList, Text.isBlank c = false
  not_open : '(' ∉ s.toList

-- Decided along the text, and not by going through all characters.
instance (s : String) : Decidable (IsToken s) :=
  decidable_of_iff (s ≠ "" ∧ s.toList.all (!Text.isBlank ·) = true ∧ '(' ∉ s.toList)
    ⟨fun h => ⟨h.1, by simpa using h.2.1, h.2.2⟩,
      fun h => ⟨h.ne_empty, by simpa using h.not_blank, h.not_open⟩⟩

theorem toList_typeToken {raw : String} (h : Text.words (outside 0 raw.toList) ≠ []) :
    (typeToken raw).toList = ['_'].intercalate (Text.words (outside 0 raw.toList)) := by
  unfold typeToken
  cases hwords : Text.words (outside 0 raw.toList) with
  | nil => exact absurd hwords h
  | cons w ws => simp [Text.joinWith, String.toList_intercalate, Function.comp_def]

theorem isToken_typeToken (raw : String) : IsToken (typeToken raw) := by
  by_cases hwords : Text.words (outside 0 raw.toList) = []
  · have htoken : typeToken raw = "UNKNOWN" := by rw [typeToken, hwords]
    rw [htoken]
    decide
  · have hmem : ∀ c ∈ (typeToken raw).toList,
        c = '_' ∨ c ∈ outside 0 raw.toList ∧ Text.isBlank c = false := by
      intro c hc
      rw [toList_typeToken hwords] at hc
      refine (Text.mem_intercalate hc).imp_right ?_
      rintro ⟨word, hword, hcword⟩
      exact (Text.of_mem_words hword).2 c hcword
    refine ⟨fun hempty => ?_, fun c hc => ?_, fun hopen => ?_⟩
    · have hne : ['_'].intercalate (Text.words (outside 0 raw.toList)) ≠ [] :=
        Text.intercalate_ne_nil hwords fun word hword => (Text.of_mem_words hword).1
      rw [← toList_typeToken hwords, hempty] at hne
      exact hne rfl
    · rcases hmem c hc with rfl | ⟨-, hblank⟩
      · decide
      · exact hblank
    · rcases hmem '(' hopen with heq | ⟨hout, -⟩
      · exact absurd heq (by decide)
      · exact open_not_mem_outside hout

/-- A token is drawn as it is. -/
theorem IsToken.typeToken_eq {s : String} (h : IsToken s) : typeToken s = s := by
  have hne : s.toList ≠ [] := fun hnil => h.ne_empty (String.toList_eq_nil_iff.1 hnil)
  have hwords : Text.words (outside 0 s.toList) = [s.toList] := by
    rw [outside_eq_self h.not_open]
    exact Text.words_eq_singleton hne h.not_blank
  rw [← String.toList_inj, toList_typeToken (by simp [hwords]), hwords, List.intercalate_singleton]

theorem typeToken_eq_self_iff {s : String} : typeToken s = s ↔ IsToken s :=
  ⟨fun h => h ▸ isToken_typeToken s, IsToken.typeToken_eq⟩

/-- **What a column type is drawn as.** The token of a type is one word without an opening
parenthesis, and its own token. A group in parentheses can be taken out of the type wherever it
stands, also inside another group, behind closing parentheses without a partner, or in front of an
opening one that nothing closes. -/
theorem typeToken_drops_groups (raw : String) :
    IsToken (typeToken raw) ∧ typeToken (typeToken raw) = typeToken raw ∧
    ∀ front group back : String, Balanced group.toList →
      typeToken (front ++ "(" ++ group ++ ")" ++ back) = typeToken (front ++ back) := by
  refine ⟨isToken_typeToken raw, (isToken_typeToken raw).typeToken_eq, ?_⟩
  intro front group back hgroup
  have houtside : outside 0 (front ++ "(" ++ group ++ ")" ++ back).toList =
      outside 0 (front ++ back).toList := by
    simpa using outside_append_congr (outside_group hgroup back.toList) front.toList 0
  rw [typeToken, houtside, typeToken]

/-- A group that holds groups, in an open one and behind a closing parenthesis too many. -/
theorem nested_group_dropped :
    Balanced "10, (2)()".toList ∧ IsToken (typeToken ("a) (b " ++ "c) d (")) ∧
    typeToken ("a) (b " ++ "(" ++ "10, (2)()" ++ ")" ++ "c) d (") =
      typeToken ("a) (b " ++ "c) d (") ∧
    typeToken ("a) (b " ++ "c) d (") = "a)_d" := by
  have hgroup : Balanced "10, (2)()".toList := by decide
  obtain ⟨htoken, -, hdrop⟩ := typeToken_drops_groups ("a) (b " ++ "c) d (")
  exact ⟨hgroup, htoken, hdrop "a) (b " "10, (2)()" "c) d (" hgroup, by decide⟩

end SchemaShaper.Diagram

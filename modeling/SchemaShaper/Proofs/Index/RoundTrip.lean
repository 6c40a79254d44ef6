import SchemaShaper.Index.Parser
import SchemaShaper.Proofs.Results
import SchemaShaper.Proofs.Text.Pieces

/-!
# Index specs read back

The written form of an index spec is read as that spec, unless a slice has the step zero, which no
text writes. An absent part of a slice is written as an empty component, which reading takes for an
absent part again; a slice without any part is still the text `:`, and a spec without a term is the
text `[]`. So neither is taken for an empty term or an empty spec (`Spec.parse_display_iff`).
-/

namespace SchemaShaper.Index

/-! ## Offsets -/

theorem offset?_signed (v : Offset) : offset? (Decimal.signed v.toInt) = some v := by
  have hlow : minOffset ≤ v.toInt := v.le_toInt
  have hhigh : v.toInt ≤ maxOffset := Int.le_of_lt_add_one v.toInt_lt
  unfold offset?
  rw [Decimal.ofSigned?_signed]
  dsimp only
  rw [if_pos ⟨hlow, hhigh⟩, v.ofInt_toInt]

theorem readOffset_signed (term : List Char) (v : Offset) :
    readOffset term (Decimal.signed v.toInt) = .ok v := by
  unfold readOffset
  rw [offset?_signed]

/-! ## Characters of written terms -/

/-- The characters that terms are written with. -/
def isTermChar (c : Char) : Bool := c.isDigit || c == '-' || c == ':'

theorem isTermChar_of_mem_signed {n : Int} {c : Char} (h : c ∈ Decimal.signed n) :
    isTermChar c = true := by
  unfold isTermChar
  rcases Decimal.mem_signed h with rfl | hdigit
  · rfl
  · rw [hdigit]
    rfl

theorem isBlank_of_isTermChar {c : Char} (h : isTermChar c = true) : Text.isBlank c = false := by
  simp only [isTermChar, Bool.or_eq_true, beq_iff_eq] at h
  rcases h with (hdigit | rfl) | rfl
  · exact Text.isBlank_of_isDigit hdigit
  · decide
  · decide

theorem colon_not_mem_signed (n : Int) : ':' ∉ Decimal.signed n := by
  intro h
  rcases Decimal.mem_signed h with h | h
  · exact absurd h (by decide)
  · exact absurd h (by decide)

/-! ## Slices -/

/-- The components of the written form of a slice. -/
def Slice.components (s : Slice) : List (List Char) :=
  [(optionalText s.start).toList, (optionalText s.stop).toList] ++
    (s.step.map fun v => Decimal.signed v.toInt).toList

theorem Slice.toList_display (s : Slice) : s.display.toList = [':'].intercalate s.components := by
  unfold display components
  cases s.step with
  | none => simp [String.toList_append, List.intercalate_cons_cons, List.intercalate_singleton]
  | some v =>
    simp [String.toList_append, List.intercalate_cons_cons, List.intercalate_singleton,
      Decimal.toList_text]

theorem mem_optionalText {value : Option Offset} {c : Char} (h : c ∈ (optionalText value).toList) :
    isTermChar c = true ∧ c ≠ ':' := by
  cases value with
  | none => exact absurd h List.not_mem_nil
  | some v =>
    have hmem : c ∈ Decimal.signed v.toInt := by rwa [← Decimal.toList_text]
    refine ⟨isTermChar_of_mem_signed hmem, ?_⟩
    rintro rfl
    exact colon_not_mem_signed _ hmem

theorem Slice.mem_component {s : Slice} {part : List Char} (hpart : part ∈ s.components) {c : Char}
    (hc : c ∈ part) : isTermChar c = true ∧ c ≠ ':' := by
  unfold components at hpart
  simp only [List.cons_append, List.nil_append, List.mem_cons, Option.mem_toList,
    Option.map_eq_some_iff] at hpart
  rcases hpart with rfl | rfl | ⟨v, -, rfl⟩
  · exact mem_optionalText hc
  · exact mem_optionalText hc
  · rw [← Decimal.toList_text] at hc
    exact @mem_optionalText (some v) c hc

theorem readComponent_optionalText (term : List Char) (value : Option Offset) :
    readComponent term (some (optionalText value).toList) = .ok value := by
  cases value with
  | none => rfl
  | some v =>
    have htext : (optionalText (some v)).toList = Decimal.signed v.toInt := Decimal.toList_text _
    obtain ⟨c, cs, hcs⟩ := List.exists_cons_of_ne_nil (Decimal.signed_ne_nil v.toInt)
    have hread := readOffset_signed term v
    rw [hcs] at hread
    rw [htext, hcs]
    unfold readComponent
    dsimp only
    rw [hread]
    rfl

/-- An absent step is a missing component, and a step that is there is never written empty. -/
theorem readComponent_step (term : List Char) (s : Slice) :
    readComponent term s.components[2]? = .ok s.step := by
  have hthird : s.components[2]? = s.step.map fun v => Decimal.signed v.toInt := by
    unfold Slice.components
    cases s.step <;> rfl
  rw [hthird]
  cases s.step with
  | none => rfl
  | some v =>
    rw [Option.map_some, ← Decimal.toList_text]
    exact readComponent_optionalText term (some v)

theorem readSlice_components (term : List Char) {s : Slice} (h : s.step ≠ some 0) :
    readSlice term s.components = .ok s := by
  have hlength : ¬ s.components.length > 3 := by
    unfold Slice.components
    cases s.step <;> simp
  have hstart : readComponent term s.components[0]? = .ok s.start :=
    readComponent_optionalText term s.start
  have hstop : readComponent term s.components[1]? = .ok s.stop :=
    readComponent_optionalText term s.stop
  unfold readSlice
  rw [if_neg hlength, hstart, hstop, readComponent_step]
  exact if_neg h

theorem step_ne_zero_of_readSlice {term : List Char} {parts : List (List Char)} {s : Slice}
    (h : readSlice term parts = .ok s) : s.step ≠ some 0 := by
  unfold readSlice at h
  split at h
  · cases h
  · obtain ⟨start, -, h⟩ := bind_eq_ok_iff.1 h
    obtain ⟨stop, -, h⟩ := bind_eq_ok_iff.1 h
    obtain ⟨step, -, h⟩ := bind_eq_ok_iff.1 h
    split at h
    · cases h
    · next hzero =>
      cases h
      exact hzero

/-! ## Terms -/

/-- The step of the term, if it gives one, is not zero. -/
def Term.StepNonzero : Term → Prop
  | single _ => True
  | range s => s.step ≠ some 0

/-- No slice of the spec has the step zero. -/
def Spec.StepsNonzero (s : Spec) : Prop := ∀ t ∈ s.terms, t.StepNonzero

theorem isTermChar_of_mem_display {t : Term} {c : Char} (h : c ∈ t.display.toList) :
    isTermChar c = true := by
  cases t with
  | single i =>
    rw [Term.display, Decimal.toList_text] at h
    exact isTermChar_of_mem_signed h
  | range s =>
    rw [Term.display, Slice.toList_display] at h
    rcases Text.mem_intercalate h with rfl | ⟨part, hpart, hc⟩
    · rfl
    · exact (Slice.mem_component hpart hc).1

theorem trim_display (t : Term) : Text.trim t.display.toList = t.display.toList :=
  Text.trim_eq_self fun _ hc => isBlank_of_isTermChar (isTermChar_of_mem_display hc)

/-- A slice always has a colon, so that its written form is never empty. -/
theorem colon_mem_display (s : Slice) : ':' ∈ s.display.toList := by
  rw [Slice.toList_display]
  unfold Slice.components
  rw [List.cons_append, List.cons_append, List.intercalate_cons_cons]
  simp

theorem Term.display_ne_nil (t : Term) : t.display.toList ≠ [] := by
  cases t with
  | single i =>
    rw [Term.display, Decimal.toList_text]
    exact Decimal.signed_ne_nil _
  | range s => exact List.ne_nil_of_mem (colon_mem_display s)

theorem readTerm_display (spec : String) {t : Term} (h : t.StepNonzero) :
    readTerm spec t.display.toList = .ok t := by
  have hempty : ¬ t.display.toList.isEmpty = true := by
    rw [List.isEmpty_iff]
    exact t.display_ne_nil
  unfold readTerm
  rw [if_neg hempty]
  cases t with
  | single i =>
    have hcolon : ¬ (Decimal.signed i.toInt).contains ':' = true := by
      rw [List.contains_iff_mem]
      exact colon_not_mem_signed _
    rw [Term.display, Decimal.toList_text, if_neg hcolon, readOffset_signed]
    rfl
  | range s =>
    have hcolon : s.display.toList.contains ':' = true :=
      List.contains_iff_mem.2 (colon_mem_display s)
    have hsplit : Text.splitOn ':' s.display.toList = s.components := by
      rw [Slice.toList_display]
      refine Text.splitOn_intercalate (by simp [Slice.components]) fun part hpart hc => ?_
      exact (Slice.mem_component hpart hc).2 rfl
    have htrim : s.components.map Text.trim = s.components := by
      refine (List.map_congr_left fun part hpart => ?_).trans (List.map_id _)
      exact Text.trim_eq_self fun c hc => isBlank_of_isTermChar (Slice.mem_component hpart hc).1
    rw [Term.display, if_pos hcolon, hsplit, htrim, readSlice_components _ h]
    rfl

theorem stepNonzero_of_readTerm {spec : String} {term : List Char} {t : Term}
    (h : readTerm spec term = .ok t) : t.StepNonzero := by
  unfold readTerm at h
  split at h
  · cases h
  · split at h
    · obtain ⟨s, hs, rfl⟩ := map_eq_ok_iff.1 h
      exact step_ne_zero_of_readSlice hs
    · obtain ⟨i, -, rfl⟩ := map_eq_ok_iff.1 h
      trivial

/-! ## Specs -/

/-- The text between the brackets of a written spec. -/
def Spec.body (s : Spec) : List Char := [','].intercalate (s.terms.map (·.display.toList))

theorem Spec.toList_display (s : Spec) : s.display.toList = '[' :: (s.body ++ [']']) := by
  unfold display body Text.joinWith
  simp [String.toList_append, String.toList_intercalate, Function.comp_def]

theorem Spec.mem_body {s : Spec} {c : Char} (h : c ∈ s.body) : c = ',' ∨ isTermChar c = true := by
  rcases Text.mem_intercalate h with rfl | ⟨part, hpart, hc⟩
  · exact Or.inl rfl
  · obtain ⟨t, -, rfl⟩ := List.mem_map.1 hpart
    exact Or.inr (isTermChar_of_mem_display hc)

theorem Spec.isBlank_of_mem_body {s : Spec} {c : Char} (h : c ∈ s.body) :
    Text.isBlank c = false := by
  rcases Spec.mem_body h with rfl | h
  · decide
  · exact isBlank_of_isTermChar h

theorem Spec.not_mem_body {s : Spec} {c : Char} (hcomma : c ≠ ',') (hterm : isTermChar c = false) :
    c ∉ s.body := by
  intro h
  rcases Spec.mem_body h with rfl | h
  · exact hcomma rfl
  · rw [hterm] at h
    cases h

theorem body?_bracketed (cs : List Char) : body? ('[' :: (cs ++ [']'])) = some cs := by
  have hlast : ('[' :: (cs ++ [']'])).getLast? = some ']' := by
    rw [← List.cons_append, List.getLast?_concat]
  unfold body?
  rw [hlast]
  simp

theorem Spec.splitOn_body {s : Spec} (h : s.terms ≠ []) :
    Text.splitOn ',' s.body = s.terms.map (·.display.toList) := by
  refine Text.splitOn_intercalate (by simpa using h) fun part hpart hc => ?_
  obtain ⟨t, -, rfl⟩ := List.mem_map.1 hpart
  exact absurd (isTermChar_of_mem_display hc) (by decide)

/-- Not even a term without any part is written as nothing. -/
theorem Spec.body_ne_nil {s : Spec} (h : s.terms ≠ []) : s.body ≠ [] := by
  intro hnil
  have hsplit := splitOn_body h
  rw [hnil] at hsplit
  have hmem : [] ∈ s.terms.map (·.display.toList) := by
    rw [← hsplit]
    exact List.mem_singleton_self []
  obtain ⟨t, -, ht⟩ := List.mem_map.1 hmem
  exact t.display_ne_nil ht

theorem Spec.parse_display {s : Spec} (h : s.StepsNonzero) : parse s.display = .ok s := by
  have htrim : Text.trim s.display.toList = '[' :: (s.body ++ [']']) := by
    rw [toList_display]
    refine Text.trim_eq_self fun c hc => ?_
    simp only [List.mem_cons, List.mem_append, List.not_mem_nil, or_false] at hc
    rcases hc with rfl | hc | rfl
    · decide
    · exact isBlank_of_mem_body hc
    · decide
  have hopen : '[' ∉ s.body := not_mem_body (by decide) (by decide)
  have hclose : ']' ∉ s.body := not_mem_body (by decide) (by decide)
  have hbody : Text.trim s.body = s.body := Text.trim_eq_self fun _ => isBlank_of_mem_body
  unfold parse
  simp only [htrim, List.isEmpty_cons, body?_bracketed, List.contains_iff_mem,
    hopen, hclose, hbody, Bool.false_eq_true, if_false, Bool.or_eq_true, or_self]
  by_cases hterms : s.terms = []
  · have hnil : s.body = [] := by
      rw [body, hterms]
      rfl
    rw [hnil, List.isEmpty_nil, if_pos rfl, ← hterms]
  · have hempty : ¬ s.body.isEmpty = true := by
      rw [List.isEmpty_iff]
      exact body_ne_nil hterms
    rw [if_neg hempty, splitOn_body hterms, map_eq_ok_iff]
    refine ⟨s.terms, mapM_eq_ok_iff.2 ?_, rfl⟩
    rw [List.forall₂_map_left_iff, List.forall₂_same]
    intro t ht
    rw [trim_display]
    exact readTerm_display s.display (h t ht)

theorem Spec.stepsNonzero_of_parse {text : String} {s : Spec} (h : parse text = .ok s) :
    s.StepsNonzero := by
  unfold parse at h
  dsimp only at h
  split at h
  · cases h
  · split at h
    · cases h
    · split at h
      · cases h
      · split at h
        · cases h
          intro t ht
          exact absurd ht List.not_mem_nil
        · obtain ⟨terms, hterms, rfl⟩ := map_eq_ok_iff.1 h
          intro t ht
          obtain ⟨i, hi, rfl⟩ := List.getElem_of_mem ht
          have hread := mapM_eq_ok_iff.1 hterms
          have hlength := hread.length_eq
          exact stepNonzero_of_readTerm ((List.forall₂_iff_get.1 hread).2 i (hlength ▸ hi) hi)

/-- **Index specs read back.** The written form of a spec is read as that spec exactly when no slice
has the step zero, and these are the specs that reading gives. -/
theorem Spec.parse_display_iff (s : Spec) :
    (parse s.display = .ok s ↔ s.StepsNonzero) ∧ ((∃ text, parse text = .ok s) ↔ s.StepsNonzero) :=
  ⟨⟨stepsNonzero_of_parse, parse_display⟩,
    ⟨fun ⟨_, h⟩ => stepsNonzero_of_parse h, fun h => ⟨s.display, parse_display h⟩⟩⟩

end SchemaShaper.Index

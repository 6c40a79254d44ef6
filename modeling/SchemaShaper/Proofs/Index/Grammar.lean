import SchemaShaper.Proofs.Index.RoundTrip
import SchemaShaper.Proofs.Text.Cuts
import Mathlib.Data.List.Induction

/-!
# The grammar of index specs

Which texts are index specs, and what is reported of the others. `SpecText` puts a spec together
from its pieces: whole numbers in the range of offsets (`Decimal.Numeral`), components of slices,
terms, and a body between brackets or without any. `SpecFault` gives the report on every other
text: nothing written, brackets out of place, or the first term that cannot be read, and within a
term the first fault in the order in which terms are read. Reading gives exactly these answers
(`Spec.parse_follows_grammar`).
-/

namespace SchemaShaper.Decimal

/-! ## Whole numbers -/

/-- The decimal digits write the number, the most significant first. -/
inductive Digits : List Char → Nat → Prop
  | one {d : Nat} (h : d < 10) : Digits [digitChar d] d
  | snoc {cs : List Char} {n d : Nat} (hcs : Digits cs n) (h : d < 10) :
      Digits (cs ++ [digitChar d]) (10 * n + d)

/-- Digits behind at most one sign write the number. -/
inductive Numeral : List Char → Int → Prop
  | plain {cs : List Char} {n : Nat} (h : Digits cs n) : Numeral cs n
  | plus {cs : List Char} {n : Nat} (h : Digits cs n) : Numeral ('+' :: cs) n
  | minus {cs : List Char} {n : Nat} (h : Digits cs n) : Numeral ('-' :: cs) (-n)

theorem exists_digitChar {c : Char} (h : c.isDigit = true) : ∃ d < 10, c = digitChar d := by
  have hrange : 48 ≤ c.toNat ∧ c.toNat ≤ 57 := by
    simpa [Char.isDigit, UInt32.le_iff_toNat_le] using h
  refine ⟨c.toNat - 48, by omega, ?_⟩
  have hcode : '0'.toNat + (c.toNat - 48) = c.toNat := by
    have hzero : '0'.toNat = 48 := rfl
    omega
  unfold digitChar
  rw [hcode, Char.ofNat_toNat]

theorem valueFrom_concat (n : Nat) (cs : List Char) {d : Nat} (h : d < 10) :
    valueFrom n (cs ++ [digitChar d]) = 10 * valueFrom n cs + d := by
  rw [valueFrom_append]
  simp only [valueFrom, List.foldl_cons, List.foldl_nil, digitValue_digitChar h]
  omega

theorem Digits.spec {cs : List Char} {n : Nat} (h : Digits cs n) :
    cs ≠ [] ∧ (∀ c ∈ cs, c.isDigit = true) ∧ valueFrom 0 cs = n := by
  induction h with
  | @one d hd =>
    refine ⟨by simp, by simpa using digitChar_isDigit hd, ?_⟩
    have hvalue := valueFrom_concat 0 [] hd
    simpa [valueFrom] using hvalue
  | @snoc cs n d _ hd ih =>
    obtain ⟨-, hall, hvalue⟩ := ih
    refine ⟨by simp, ?_, ?_⟩
    · intro c hc
      rcases List.mem_append.1 hc with hc | hc
      · exact hall c hc
      · rw [List.mem_singleton.1 hc]
        exact digitChar_isDigit hd
    · rw [valueFrom_concat 0 cs hd, hvalue]

theorem digits_of_all {cs : List Char} (hne : cs ≠ []) (hall : ∀ c ∈ cs, c.isDigit = true) :
    Digits cs (valueFrom 0 cs) := by
  induction cs using List.reverseRecOn with
  | nil => exact absurd rfl hne
  | append_singleton cs c ih =>
    obtain ⟨d, hd, rfl⟩ := exists_digitChar (hall c (by simp))
    rw [valueFrom_concat 0 cs hd]
    by_cases hcs : cs = []
    · subst hcs
      have hzero : 10 * valueFrom 0 [] + d = d := by simp [valueFrom]
      rw [hzero]
      exact .one hd
    · exact .snoc (ih hcs fun x hx => hall x (List.mem_append_left _ hx)) hd

theorem ofDigits?_eq_some_iff {cs : List Char} {n : Nat} :
    ofDigits? cs = some n ↔ Digits cs n := by
  unfold ofDigits?
  constructor
  · intro h
    split at h
    · cases h
    · next hok =>
      cases h
      simp only [Bool.or_eq_true, List.isEmpty_iff, Bool.not_eq_true', not_or,
        Bool.not_eq_false, List.all_eq_true] at hok
      exact digits_of_all hok.1 hok.2
  · intro h
    obtain ⟨hne, hall, hvalue⟩ := h.spec
    rw [if_neg (by simpa [hne] using hall), hvalue]

theorem Numeral.ne_nil {cs : List Char} {n : Int} (h : Numeral cs n) : cs ≠ [] := by
  cases h with
  | plain h => exact h.spec.1
  | plus h => exact List.cons_ne_nil _ _
  | minus h => exact List.cons_ne_nil _ _

theorem Numeral.mem {cs : List Char} {n : Int} (h : Numeral cs n) {c : Char} (hc : c ∈ cs) :
    c = '+' ∨ c = '-' ∨ c.isDigit = true := by
  cases h with
  | plain h => exact Or.inr (Or.inr (h.spec.2.1 c hc))
  | plus h =>
    rcases List.mem_cons.1 hc with rfl | hc
    · exact Or.inl rfl
    · exact Or.inr (Or.inr (h.spec.2.1 c hc))
  | minus h =>
    rcases List.mem_cons.1 hc with rfl | hc
    · exact Or.inr (Or.inl rfl)
    · exact Or.inr (Or.inr (h.spec.2.1 c hc))

theorem ofSigned?_minus_eq_some_iff {cs : List Char} {n : Int} :
    ofSigned? ('-' :: cs) = some n ↔ ∃ m : Nat, ofDigits? cs = some m ∧ -(m : Int) = n := by
  cases h : ofDigits? cs <;> simp [ofSigned?, h]

theorem ofSigned?_of_isDigit {c : Char} (hc : c.isDigit = true) (cs : List Char) :
    ofSigned? (c :: cs) = (ofDigits? (c :: cs)).map Int.ofNat := by
  unfold ofSigned?
  split
  · next heq =>
    cases heq
    exact absurd hc (by decide)
  · next heq =>
    cases heq
    exact absurd hc (by decide)
  · rfl

theorem ofSigned?_eq_some_iff {cs : List Char} {n : Int} :
    ofSigned? cs = some n ↔ Numeral cs n := by
  constructor
  · intro h
    have hshape := h
    unfold ofSigned? at h
    split at h
    · obtain ⟨m, hm, rfl⟩ := Option.map_eq_some_iff.1 h
      exact .plus (ofDigits?_eq_some_iff.1 hm)
    · obtain ⟨m, hm, rfl⟩ := ofSigned?_minus_eq_some_iff.1 hshape
      exact .minus (ofDigits?_eq_some_iff.1 hm)
    · obtain ⟨m, hm, rfl⟩ := Option.map_eq_some_iff.1 h
      exact .plain (ofDigits?_eq_some_iff.1 hm)
  · intro h
    cases h with
    | @plain cs m h =>
      obtain ⟨c, cs, rfl⟩ := List.exists_cons_of_ne_nil h.spec.1
      rw [ofSigned?_of_isDigit (h.spec.2.1 c List.mem_cons_self), ofDigits?_eq_some_iff.2 h]
      rfl
    | plus h =>
      rw [ofSigned?, ofDigits?_eq_some_iff.2 h]
      rfl
    | minus h => exact ofSigned?_minus_eq_some_iff.2 ⟨_, ofDigits?_eq_some_iff.2 h, rfl⟩

end SchemaShaper.Decimal

namespace SchemaShaper.Index

/-! ## Texts of specs -/

/-- The text writes no offset. -/
def NoOffset (cs : List Char) : Prop := ∀ v : Offset, ¬ Decimal.Numeral cs v.toInt

/-- A component of a slice: nothing but blanks, or an offset between blanks. -/
inductive ComponentText (part : List Char) : Option Offset → Prop
  | absent (h : Text.Blanks part) : ComponentText part none
  | present {core : List Char} {v : Offset} (hpad : Text.Pads part core)
      (h : Decimal.Numeral core v.toInt) : ComponentText part (some v)

/-- Two or three components give the slice; the third is not zero. -/
inductive SliceText : List (List Char) → Slice → Prop
  | bounds {a b : List Char} {start stop : Option Offset} (ha : ComponentText a start)
      (hb : ComponentText b stop) : SliceText [a, b] ⟨start, stop, none⟩
  | stepped {a b c : List Char} {start stop step : Option Offset} (ha : ComponentText a start)
      (hb : ComponentText b stop) (hc : ComponentText c step) (hstep : step ≠ some 0) :
      SliceText [a, b, c] ⟨start, stop, step⟩

/-- The text writes the term: an offset, or components between colons. -/
inductive TermText (term : List Char) : Term → Prop
  | single {i : Offset} (h : Decimal.Numeral term i.toInt) : TermText term (.single i)
  | range {parts : List (List Char)} {s : Slice} (hparts : Text.Pieces ':' term parts)
      (h : SliceText parts s) : TermText term (.range s)

/-- The text between two commas writes the term; blanks around the term do not count. -/
def PieceText (piece : List Char) (t : Term) : Prop :=
  ∃ term, Text.Pads piece term ∧ TermText term t

/-- The body of a spec: what stands between one pair of brackets, or a text without brackets. -/
inductive Body : List Char → List Char → Prop
  | enclosed {body : List Char} (hopen : '[' ∉ body) (hclose : ']' ∉ body) :
      Body ('[' :: (body ++ [']'])) body
  | plain {body : List Char} (hopen : '[' ∉ body) (hclose : ']' ∉ body) : Body body body

/-- The text writes the spec. Only brackets can hold a blank body, which has no term. -/
inductive SpecText (text : String) : Spec → Prop
  | noTerm {body : List Char} (hpad : Text.Pads text.toList ('[' :: (body ++ [']'])))
      (hblank : Text.Blanks body) : SpecText text ⟨[]⟩
  | terms {core body : List Char} {pieces : List (List Char)} {terms : List Term}
      (hpad : Text.Pads text.toList core) (hbody : Body core body)
      (hpieces : Text.Pieces ',' body pieces) (h : List.Forall₂ PieceText pieces terms) :
      SpecText text ⟨terms⟩

/-! ## Faults -/

/-- The part between two colons, without the blanks around it, is neither empty nor an offset. -/
structure BadComponent (part value : List Char) : Prop where
  pads : Text.Pads part value
  ne_nil : value ≠ []
  noOffset : NoOffset value

/-- The first fault of a slice: the number of its components, then its leftmost component that
cannot be read, then its step. -/
inductive SliceFault (term : List Char) : List (List Char) → SpecError → Prop
  | colons {parts : List (List Char)} (h : 3 < parts.length) :
      SliceFault term parts (.tooManyColons (String.ofList term))
  | component {before after : List (List Char)} {part value : List Char}
      (hlength : (before ++ part :: after).length ≤ 3)
      (hbefore : ∀ p ∈ before, ∃ v, ComponentText p v) (h : BadComponent part value) :
      SliceFault term (before ++ part :: after)
        (.invalidInteger (String.ofList term) (String.ofList value))
  | step {a b c : List Char} {start stop : Option Offset} (ha : ComponentText a start)
      (hb : ComponentText b stop) (hc : ComponentText c (some 0)) :
      SliceFault term [a, b, c] (.zeroStep (String.ofList term))

/-- The fault of a term in the spec `text`. -/
inductive TermFault (text : String) (term : List Char) : SpecError → Prop
  | empty (h : term = []) : TermFault text term (.emptyTerm text)
  | offset (hne : term ≠ []) (hcolon : ':' ∉ term) (h : NoOffset term) :
      TermFault text term (.invalidInteger (String.ofList term) (String.ofList term))
  | slice {parts : List (List Char)} {e : SpecError} (hparts : Text.Pieces ':' term parts)
      (hlength : 1 < parts.length) (h : SliceFault term parts e) : TermFault text term e

/-- The fault of a text: nothing in it, brackets out of place, or its leftmost bad term. -/
inductive SpecFault (text : String) : SpecError → Prop
  | empty (h : Text.Blanks text.toList) : SpecFault text .empty
  | brackets {core : List Char} (hpad : Text.Pads text.toList core) (hne : core ≠ [])
      (h : ∀ body, ¬ Body core body) : SpecFault text (.unbalancedBrackets text)
  | term {core body piece term : List Char} {before after : List (List Char)} {e : SpecError}
      (hpad : Text.Pads text.toList core) (hbody : Body core body) (hblank : ¬ Text.Blanks body)
      (hpieces : Text.Pieces ',' body (before ++ piece :: after))
      (hbefore : ∀ p ∈ before, ∃ t, PieceText p t) (hterm : Text.Pads piece term)
      (h : TermFault text term e) : SpecFault text e

/-! ## Reading offsets and components -/

theorem offset?_eq_some_iff {cs : List Char} {v : Offset} :
    offset? cs = some v ↔ Decimal.Numeral cs v.toInt := by
  have hlow : minOffset ≤ v.toInt := v.le_toInt
  have hhigh : v.toInt ≤ maxOffset := Int.le_of_lt_add_one v.toInt_lt
  rw [← Decimal.ofSigned?_eq_some_iff]
  unfold offset?
  cases hread : Decimal.ofSigned? cs with
  | none => simp
  | some n =>
    dsimp only
    rw [Option.some.injEq]
    constructor
    · intro h
      split at h
      · next hrange =>
        cases h
        exact (Int64.toInt_ofInt_of_le hrange.1 (Int.lt_add_one_of_le hrange.2)).symm
      · cases h
    · rintro rfl
      rw [if_pos ⟨hlow, hhigh⟩, v.ofInt_toInt]

theorem readOffset_eq_ok_iff {term value : List Char} {v : Offset} :
    readOffset term value = .ok v ↔ Decimal.Numeral value v.toInt := by
  rw [← offset?_eq_some_iff]
  unfold readOffset
  cases offset? value <;> simp

theorem readOffset_eq_error_iff {term value : List Char} {e : SpecError} :
    readOffset term value = .error e ↔
      NoOffset value ∧ e = .invalidInteger (String.ofList term) (String.ofList value) := by
  have hnone : NoOffset value ↔ offset? value = none := by
    unfold NoOffset
    simp only [← offset?_eq_some_iff]
    exact Option.eq_none_iff_forall_ne_some.symm
  rw [hnone]
  unfold readOffset
  cases offset? value with
  | none => simp [eq_comm]
  | some v => simp

theorem readComponent_of_ne_nil {term value : List Char} (h : value ≠ []) :
    readComponent term (some value) = (readOffset term value).map some := by
  obtain ⟨c, cs, rfl⟩ := List.exists_cons_of_ne_nil h
  rfl

theorem readComponent_trim_eq_ok_iff {term part : List Char} {v : Option Offset} :
    readComponent term (some (Text.trim part)) = .ok v ↔ ComponentText part v := by
  by_cases hblank : Text.Blanks part
  · have htrim : Text.trim part = [] := Text.trim_eq_nil_iff.2 hblank
    rw [htrim]
    constructor
    · intro h
      cases h
      exact .absent hblank
    · intro h
      cases h with
      | absent => rfl
      | present hpad h =>
        rw [Text.trim_eq_iff.2 hpad] at htrim
        exact absurd htrim h.ne_nil
  · have hne : Text.trim part ≠ [] := fun h => hblank (Text.trim_eq_nil_iff.1 h)
    rw [readComponent_of_ne_nil hne, map_eq_ok_iff]
    constructor
    · rintro ⟨i, hi, rfl⟩
      exact .present (Text.pads_trim part) (readOffset_eq_ok_iff.1 hi)
    · intro h
      cases h with
      | absent h => exact absurd h hblank
      | present hpad h =>
        rw [Text.trim_eq_iff.2 hpad]
        exact ⟨_, readOffset_eq_ok_iff.2 h, rfl⟩

theorem readComponent_trim_eq_error_iff {term part : List Char} {e : SpecError} :
    readComponent term (some (Text.trim part)) = .error e ↔
      ∃ value, BadComponent part value ∧
        e = .invalidInteger (String.ofList term) (String.ofList value) := by
  by_cases hblank : Text.Blanks part
  · have htrim : Text.trim part = [] := Text.trim_eq_nil_iff.2 hblank
    rw [htrim]
    constructor
    · intro h
      cases h
    · rintro ⟨value, hbad, -⟩
      rw [Text.trim_eq_iff.2 hbad.pads] at htrim
      exact absurd htrim hbad.ne_nil
  · have hne : Text.trim part ≠ [] := fun h => hblank (Text.trim_eq_nil_iff.1 h)
    rw [readComponent_of_ne_nil hne, map_eq_error_iff, readOffset_eq_error_iff]
    constructor
    · rintro ⟨hnone, rfl⟩
      exact ⟨_, ⟨Text.pads_trim part, hne, hnone⟩, rfl⟩
    · rintro ⟨value, hbad, rfl⟩
      rw [Text.trim_eq_iff.2 hbad.pads]
      exact ⟨hbad.noOffset, rfl⟩

/-! ## Reading slices -/

/-- The slice with these components, unless its step is zero. -/
def sliceOf (term : List Char) : List (Option Offset) → Except SpecError Slice
  | [start, stop] => .ok ⟨start, stop, none⟩
  | [start, stop, step] =>
    if step = some 0 then .error (.zeroStep (String.ofList term)) else .ok ⟨start, stop, step⟩
  | _ => .error (.tooManyColons (String.ofList term))

theorem sliceOf_triple (term : List Char) (start stop step : Option Offset) :
    sliceOf term [start, stop, step] =
      if step = some 0 then .error (.zeroStep (String.ofList term)) else .ok ⟨start, stop, step⟩ :=
  rfl

theorem eq_pair_or_triple {α : Type} {xs : List α} (hlow : 1 < xs.length) (hhigh : xs.length ≤ 3) :
    (∃ a b, xs = [a, b]) ∨ ∃ a b c, xs = [a, b, c] := by
  match xs, hlow, hhigh with
  | [a, b], _, _ => exact Or.inl ⟨a, b, rfl⟩
  | [a, b, c], _, _ => exact Or.inr ⟨a, b, c, rfl⟩

/-- Components are read from the left before the step is looked at. -/
theorem readSlice_eq {term : List Char} {parts : List (List Char)} (hlow : 1 < parts.length)
    (hhigh : parts.length ≤ 3) : readSlice term (parts.map Text.trim) =
      (parts.mapM fun part => readComponent term (some (Text.trim part))) >>= sliceOf term := by
  rcases eq_pair_or_triple hlow hhigh with ⟨a, b, rfl⟩ | ⟨a, b, c, rfl⟩
  · have hnone : readComponent term none = .ok none := rfl
    simp only [readSlice, List.mapM_cons, List.mapM_nil, List.map_cons, List.map_nil, bind_assoc,
      pure_bind, List.length_cons, List.length_nil, List.getElem?_cons_zero,
      List.getElem?_cons_succ, List.getElem?_nil, hnone]
    rfl
  · simp only [readSlice, List.mapM_cons, List.mapM_nil, List.map_cons, List.map_nil, bind_assoc,
      pure_bind, List.length_cons, List.length_nil, List.getElem?_cons_zero,
      List.getElem?_cons_succ]
    rfl

theorem readSlice_of_long {term : List Char} {parts : List (List Char)} (h : 3 < parts.length) :
    readSlice term (parts.map Text.trim) = .error (.tooManyColons (String.ofList term)) := by
  unfold readSlice
  rw [if_pos (by simpa using h)]

theorem forall₂_component_iff {term : List Char} {parts : List (List Char)}
    {values : List (Option Offset)} :
    (parts.mapM fun part => readComponent term (some (Text.trim part))) = .ok values ↔
      List.Forall₂ ComponentText parts values := by
  rw [mapM_eq_ok_iff]
  simp only [readComponent_trim_eq_ok_iff]

theorem values_of_pair {a b : List Char} {values : List (Option Offset)}
    (h : List.Forall₂ ComponentText [a, b] values) :
    ∃ start stop, values = [start, stop] ∧ ComponentText a start ∧ ComponentText b stop := by
  obtain ⟨start, rest, ha, hrest, rfl⟩ := List.forall₂_cons_left_iff.1 h
  obtain ⟨stop, last, hb, hlast, rfl⟩ := List.forall₂_cons_left_iff.1 hrest
  obtain rfl := List.forall₂_nil_left_iff.1 hlast
  exact ⟨start, stop, rfl, ha, hb⟩

theorem values_of_triple {a b c : List Char} {values : List (Option Offset)}
    (h : List.Forall₂ ComponentText [a, b, c] values) :
    ∃ start stop step, values = [start, stop, step] ∧ ComponentText a start ∧
      ComponentText b stop ∧ ComponentText c step := by
  obtain ⟨start, rest, ha, hrest, rfl⟩ := List.forall₂_cons_left_iff.1 h
  obtain ⟨stop, step, rfl, hb, hc⟩ := values_of_pair hrest
  exact ⟨start, stop, step, rfl, ha, hb, hc⟩

theorem readSlice_eq_ok_iff {term : List Char} {parts : List (List Char)} {s : Slice}
    (hlow : 1 < parts.length) :
    readSlice term (parts.map Text.trim) = .ok s ↔ SliceText parts s := by
  constructor
  · intro h
    by_cases hhigh : parts.length ≤ 3
    · rw [readSlice_eq hlow hhigh, bind_eq_ok_iff] at h
      obtain ⟨values, hvalues, h⟩ := h
      rw [forall₂_component_iff] at hvalues
      rcases eq_pair_or_triple hlow hhigh with ⟨a, b, rfl⟩ | ⟨a, b, c, rfl⟩
      · obtain ⟨start, stop, rfl, ha, hb⟩ := values_of_pair hvalues
        cases h
        exact .bounds ha hb
      · obtain ⟨start, stop, step, rfl, ha, hb, hc⟩ := values_of_triple hvalues
        rw [sliceOf_triple] at h
        split at h
        · cases h
        · next hstep =>
          cases h
          exact .stepped ha hb hc hstep
    · rw [readSlice_of_long (by omega)] at h
      cases h
  · intro h
    cases h with
    | bounds ha hb =>
      rw [readSlice_eq (by simp) (by simp), bind_eq_ok_iff]
      exact ⟨_, forall₂_component_iff.2 (.cons ha (.cons hb .nil)), rfl⟩
    | stepped ha hb hc hstep =>
      rw [readSlice_eq (by simp) (by simp), bind_eq_ok_iff]
      refine ⟨_, forall₂_component_iff.2 (.cons ha (.cons hb (.cons hc .nil))), ?_⟩
      rw [sliceOf_triple, if_neg hstep]

theorem readSlice_eq_error_iff {term : List Char} {parts : List (List Char)} {e : SpecError}
    (hlow : 1 < parts.length) :
    readSlice term (parts.map Text.trim) = .error e ↔ SliceFault term parts e := by
  constructor
  · intro h
    by_cases hhigh : parts.length ≤ 3
    · rw [readSlice_eq hlow hhigh, bind_eq_error_iff] at h
      rcases h with h | ⟨values, hvalues, h⟩
      · obtain ⟨before, part, after, rfl, hbefore, hpart⟩ := mapM_eq_error_iff.1 h
        obtain ⟨value, hbad, rfl⟩ := readComponent_trim_eq_error_iff.1 hpart
        refine .component hhigh (fun p hp => ?_) hbad
        obtain ⟨v, hv⟩ := hbefore p hp
        exact ⟨v, readComponent_trim_eq_ok_iff.1 hv⟩
      · rw [forall₂_component_iff] at hvalues
        rcases eq_pair_or_triple hlow hhigh with ⟨a, b, rfl⟩ | ⟨a, b, c, rfl⟩
        · obtain ⟨start, stop, rfl, -, -⟩ := values_of_pair hvalues
          cases h
        · obtain ⟨start, stop, step, rfl, ha, hb, hc⟩ := values_of_triple hvalues
          rw [sliceOf_triple] at h
          split at h
          · next hstep =>
            cases h
            rw [hstep] at hc
            exact .step ha hb hc
          · cases h
    · rw [readSlice_of_long (by omega)] at h
      cases h
      exact .colons (by omega)
  · intro h
    cases h with
    | colons h => exact readSlice_of_long h
    | component hlength hbefore hbad =>
      rw [readSlice_eq hlow hlength, bind_eq_error_iff]
      refine Or.inl (mapM_eq_error_iff.2 ⟨_, _, _, rfl, fun p hp => ?_, ?_⟩)
      · obtain ⟨v, hv⟩ := hbefore p hp
        exact ⟨v, readComponent_trim_eq_ok_iff.2 hv⟩
      · exact readComponent_trim_eq_error_iff.2 ⟨_, hbad, rfl⟩
    | step ha hb hc =>
      rw [readSlice_eq (by simp) (by simp), bind_eq_error_iff]
      refine Or.inr ⟨_, forall₂_component_iff.2 (.cons ha (.cons hb (.cons hc .nil))), ?_⟩
      rw [sliceOf_triple, if_pos rfl]

/-! ## Reading terms -/

theorem one_lt_length_of_mem {sep : Char} {cs : List Char} {parts : List (List Char)}
    (h : Text.Pieces sep cs parts) (hmem : sep ∈ cs) : 1 < parts.length := by
  match parts, h with
  | [], h => exact absurd rfl h.ne_nil
  | [part], h =>
    have hcs : cs = part := by simpa [List.intercalate_singleton] using h.joined
    rw [hcs] at hmem
    exact absurd hmem (h.free part List.mem_cons_self)
  | _ :: _ :: _, _ => simp

theorem mem_of_one_lt_length {sep : Char} {cs : List Char} {parts : List (List Char)}
    (h : Text.Pieces sep cs parts) (hlength : 1 < parts.length) : sep ∈ cs := by
  obtain ⟨first, second, rest, rfl⟩ : ∃ first second rest, parts = first :: second :: rest := by
    match parts, hlength with
    | first :: second :: rest, _ => exact ⟨first, second, rest, rfl⟩
  rw [h.joined, List.intercalate_cons_cons]
  simp

theorem colon_not_mem_of_numeral {cs : List Char} {n : Int} (h : Decimal.Numeral cs n) :
    ':' ∉ cs := by
  intro hmem
  rcases h.mem hmem with hc | hc | hc
  · exact absurd hc (by decide)
  · exact absurd hc (by decide)
  · exact absurd hc (by decide)

theorem SliceText.one_lt_length {parts : List (List Char)} {s : Slice} (h : SliceText parts s) :
    1 < parts.length := by
  cases h <;> simp

theorem readTerm_of_offset {text : String} {term : List Char} (hne : term ≠ [])
    (hcolon : ':' ∉ term) : readTerm text term = (readOffset term term).map .single := by
  unfold readTerm
  rw [if_neg (by simpa using hne), if_neg (by simpa using hcolon)]

theorem readTerm_of_pieces {text : String} {term : List Char} {parts : List (List Char)}
    (h : Text.Pieces ':' term parts) (hlength : 1 < parts.length) :
    readTerm text term = (readSlice term (parts.map Text.trim)).map .range := by
  have hcolon : ':' ∈ term := mem_of_one_lt_length h hlength
  unfold readTerm
  rw [if_neg (by simpa using List.ne_nil_of_mem hcolon), if_pos (by simpa using hcolon),
    Text.splitOn_eq_iff.2 h]

theorem readTerm_eq_ok_iff {text : String} {term : List Char} {t : Term} :
    readTerm text term = .ok t ↔ TermText term t := by
  constructor
  · intro h
    by_cases hne : term = []
    · rw [hne] at h
      cases h
    · by_cases hcolon : ':' ∈ term
      · have hparts := Text.pieces_splitOn ':' term
        have hlength := one_lt_length_of_mem hparts hcolon
        rw [readTerm_of_pieces hparts hlength, map_eq_ok_iff] at h
        obtain ⟨s, hs, rfl⟩ := h
        exact .range hparts ((readSlice_eq_ok_iff hlength).1 hs)
      · rw [readTerm_of_offset hne hcolon, map_eq_ok_iff] at h
        obtain ⟨i, hi, rfl⟩ := h
        exact .single (readOffset_eq_ok_iff.1 hi)
  · intro h
    cases h with
    | single h =>
      rw [readTerm_of_offset h.ne_nil (colon_not_mem_of_numeral h), readOffset_eq_ok_iff.2 h]
      rfl
    | range hparts h =>
      rw [readTerm_of_pieces hparts h.one_lt_length, (readSlice_eq_ok_iff h.one_lt_length).2 h]
      rfl

theorem readTerm_eq_error_iff {text : String} {term : List Char} {e : SpecError} :
    readTerm text term = .error e ↔ TermFault text term e := by
  constructor
  · intro h
    by_cases hne : term = []
    · subst hne
      cases h
      exact .empty rfl
    · by_cases hcolon : ':' ∈ term
      · have hparts := Text.pieces_splitOn ':' term
        have hlength := one_lt_length_of_mem hparts hcolon
        rw [readTerm_of_pieces hparts hlength, map_eq_error_iff] at h
        exact .slice hparts hlength ((readSlice_eq_error_iff hlength).1 h)
      · rw [readTerm_of_offset hne hcolon, map_eq_error_iff] at h
        obtain ⟨hnone, rfl⟩ := readOffset_eq_error_iff.1 h
        exact .offset hne hcolon hnone
  · intro h
    cases h with
    | empty h => rw [h]; rfl
    | offset hne hcolon h =>
      rw [readTerm_of_offset hne hcolon, map_eq_error_iff]
      exact readOffset_eq_error_iff.2 ⟨h, rfl⟩
    | slice hparts hlength h =>
      rw [readTerm_of_pieces hparts hlength, map_eq_error_iff]
      exact (readSlice_eq_error_iff hlength).2 h

theorem readTerm_trim_eq_ok_iff {text : String} {piece : List Char} {t : Term} :
    readTerm text (Text.trim piece) = .ok t ↔ PieceText piece t := by
  rw [readTerm_eq_ok_iff]
  constructor
  · intro h
    exact ⟨_, Text.pads_trim piece, h⟩
  · rintro ⟨term, hpad, h⟩
    rwa [Text.trim_eq_iff.2 hpad]

/-! ## Reading specs -/

theorem body?_eq_some_of_body {core body : List Char} (h : Body core body) :
    body? core = some body := by
  cases h with
  | enclosed => exact body?_bracketed body
  | plain hopen hclose =>
    have hhead : core.head? ≠ some '[' := fun h => hopen (List.mem_of_mem_head? h)
    have hlast : core.getLast? ≠ some ']' := fun h => hclose (List.mem_of_mem_getLast? h)
    have hhead' : (core.head? == some '[') = false := beq_eq_false_iff_ne.2 hhead
    have hlast' : (core.getLast? == some ']') = false := beq_eq_false_iff_ne.2 hlast
    unfold body?
    rw [hhead', hlast']

theorem Body.free {core body : List Char} (h : Body core body) : '[' ∉ body ∧ ']' ∉ body := by
  cases h with
  | enclosed hopen hclose => exact ⟨hopen, hclose⟩
  | plain hopen hclose => exact ⟨hopen, hclose⟩

theorem eq_enclosed {core : List Char} (hhead : core.head? = some '[')
    (hlast : core.getLast? = some ']') : core = '[' :: ((core.drop 1).dropLast ++ [']']) := by
  obtain ⟨rest, rfl⟩ := List.head?_eq_some_iff.1 hhead
  obtain ⟨front, hfront⟩ := List.getLast?_eq_some_iff.1 hlast
  cases front with
  | nil => simp at hfront
  | cons c front =>
    simp only [List.cons_append, List.cons.injEq] at hfront
    rw [hfront.2]
    simp

theorem body?_eq_some_iff {core body : List Char} (hopen : '[' ∉ body) (hclose : ']' ∉ body) :
    body? core = some body ↔ Body core body := by
  constructor
  · intro h
    unfold body? at h
    split at h
    · next hhead hlast =>
      split at h
      · have hcore := eq_enclosed (beq_iff_eq.1 hhead) (beq_iff_eq.1 hlast)
        rw [Option.some.inj h] at hcore
        rw [hcore]
        exact .enclosed hopen hclose
      · cases h
    · cases h
      exact .plain hopen hclose
    · cases h
  · exact body?_eq_some_of_body

theorem parse_of_blanks {text : String} (h : Text.Blanks text.toList) :
    Spec.parse text = .error .empty := by
  unfold Spec.parse
  rw [Text.trim_eq_nil_iff.2 h]
  rfl

theorem parse_of_no_body {text : String} {core : List Char} (hpad : Text.Pads text.toList core)
    (hne : core ≠ []) (h : ∀ body, ¬ Body core body) :
    Spec.parse text = .error (.unbalancedBrackets text) := by
  unfold Spec.parse
  simp only [Text.trim_eq_iff.2 hpad, List.isEmpty_iff, hne, if_false]
  split
  · rfl
  · next inner hinner =>
    -- Without a bracket inside, what was found would be a body after all.
    rw [if_pos]
    by_contra hfree
    simp only [Bool.or_eq_true, List.contains_iff_mem, not_or] at hfree
    exact h inner ((body?_eq_some_iff hfree.1 hfree.2).1 hinner)

/-- Behind its brackets a spec is read term by term. -/
theorem parse_of_body {text : String} {core body : List Char} (hpad : Text.Pads text.toList core)
    (hne : core ≠ []) (hbody : Body core body) :
    Spec.parse text = if Text.Blanks body then .ok ⟨[]⟩ else
      ((Text.splitOn ',' body).mapM fun piece => readTerm text (Text.trim piece)).map Spec.mk := by
  obtain ⟨hopen, hclose⟩ := hbody.free
  unfold Spec.parse
  simp only [Text.trim_eq_iff.2 hpad, List.isEmpty_iff, hne, if_false, body?_eq_some_of_body hbody,
    List.contains_iff_mem, hopen, hclose, Bool.or_eq_true, or_self, Text.trim_eq_nil_iff]

theorem TermText.ne_nil {term : List Char} {t : Term} (h : TermText term t) : term ≠ [] := by
  cases h with
  | single h => exact h.ne_nil
  | range hparts h => exact List.ne_nil_of_mem (mem_of_one_lt_length hparts h.one_lt_length)

theorem PieceText.not_blanks {piece : List Char} {t : Term} (h : PieceText piece t) :
    ¬ Text.Blanks piece := by
  obtain ⟨term, hpad, hterm⟩ := h
  intro hblank
  have hnil : term = [] := by rw [← Text.trim_eq_iff.2 hpad, Text.trim_eq_nil_iff.2 hblank]
  exact hterm.ne_nil hnil

theorem not_blanks_of_terms {body : List Char} {pieces : List (List Char)} {terms : List Term}
    (hpieces : Text.Pieces ',' body pieces) (h : List.Forall₂ PieceText pieces terms) :
    ¬ Text.Blanks body := by
  intro hblank
  cases h with
  | nil => exact hpieces.ne_nil rfl
  | cons hfirst _ =>
    exact hfirst.not_blanks fun c hc => hblank c (hpieces.mem List.mem_cons_self hc)

/-- Only a body in brackets can be blank. -/
theorem Body.eq_enclosed_of_blanks {core body : List Char} (h : Body core body)
    (hbare : Text.Bare core) (hne : core ≠ []) (hblank : Text.Blanks body) :
    core = '[' :: (body ++ [']']) := by
  cases h with
  | enclosed => rfl
  | plain => exact absurd (hbare.eq_nil hblank) hne

theorem Body.ne_nil {core body : List Char} (h : Body core body) (hblank : ¬ Text.Blanks body) :
    core ≠ [] := by
  rintro rfl
  cases h with
  | plain => exact hblank Text.blanks_nil

theorem body_of_blanks {body : List Char} (h : Text.Blanks body) :
    Body ('[' :: (body ++ [']'])) body := by
  refine .enclosed (fun hmem => ?_) fun hmem => ?_
  · exact absurd (h _ hmem) (by decide)
  · exact absurd (h _ hmem) (by decide)

/-- A text is blank, or has no body, or has one. -/
theorem blanks_or_body (text : String) :
    Text.Blanks text.toList ∨ ∃ core, Text.Pads text.toList core ∧ core ≠ [] ∧
      ((∀ body, ¬ Body core body) ∨ ∃ body, Body core body) := by
  by_cases hblank : Text.Blanks text.toList
  · exact Or.inl hblank
  · have hne : Text.trim text.toList ≠ [] := fun h => hblank (Text.trim_eq_nil_iff.1 h)
    refine Or.inr ⟨_, Text.pads_trim _, hne, ?_⟩
    by_cases hbody : ∃ body, Body (Text.trim text.toList) body
    · exact Or.inr hbody
    · exact Or.inl fun body h => hbody ⟨body, h⟩

theorem Spec.parse_eq_ok_iff {text : String} {s : Spec} :
    parse text = .ok s ↔ SpecText text s := by
  constructor
  · intro h
    rcases blanks_or_body text with hblank | ⟨core, hpad, hne, hnone | ⟨body, hbody⟩⟩
    · rw [parse_of_blanks hblank] at h
      cases h
    · rw [parse_of_no_body hpad hne hnone] at h
      cases h
    · rw [parse_of_body hpad hne hbody] at h
      split at h
      · next hblank =>
        cases h
        -- The core is not blank, so that its blank body stands in brackets.
        rw [hbody.eq_enclosed_of_blanks hpad.bare hne hblank] at hpad
        exact .noTerm hpad hblank
      · obtain ⟨terms, hterms, rfl⟩ := map_eq_ok_iff.1 h
        rw [mapM_eq_ok_iff] at hterms
        simp only [readTerm_trim_eq_ok_iff] at hterms
        exact .terms hpad hbody (Text.pieces_splitOn ',' body) hterms
  · intro h
    cases h with
    | noTerm hpad hblank =>
      rw [parse_of_body hpad (List.cons_ne_nil _ _) (body_of_blanks hblank), if_pos hblank]
    | terms hpad hbody hpieces h =>
      have hblank := not_blanks_of_terms hpieces h
      rw [parse_of_body hpad (hbody.ne_nil hblank) hbody, if_neg hblank,
        Text.splitOn_eq_iff.2 hpieces, map_eq_ok_iff]
      refine ⟨_, mapM_eq_ok_iff.2 ?_, rfl⟩
      simp only [readTerm_trim_eq_ok_iff]
      exact h

theorem Spec.parse_eq_error_iff {text : String} {e : SpecError} :
    parse text = .error e ↔ SpecFault text e := by
  constructor
  · intro h
    rcases blanks_or_body text with hblank | ⟨core, hpad, hne, hnone | ⟨body, hbody⟩⟩
    · rw [parse_of_blanks hblank] at h
      cases h
      exact .empty hblank
    · rw [parse_of_no_body hpad hne hnone] at h
      cases h
      exact .brackets hpad hne hnone
    · rw [parse_of_body hpad hne hbody] at h
      split at h
      · cases h
      · next hblank =>
        rw [map_eq_error_iff, mapM_eq_error_iff] at h
        obtain ⟨before, piece, after, hsplit, hbefore, hpiece⟩ := h
        simp only [readTerm_trim_eq_ok_iff] at hbefore
        exact .term hpad hbody hblank (Text.splitOn_eq_iff.1 hsplit) hbefore
          (Text.pads_trim piece) (readTerm_eq_error_iff.1 hpiece)
  · intro h
    cases h with
    | empty h => exact parse_of_blanks h
    | brackets hpad hne h => exact parse_of_no_body hpad hne h
    | term hpad hbody hblank hpieces hbefore hterm h =>
      rw [parse_of_body hpad (hbody.ne_nil hblank) hbody, if_neg hblank, map_eq_error_iff,
        mapM_eq_error_iff]
      refine ⟨_, _, _, Text.splitOn_eq_iff.2 hpieces, ?_, ?_⟩
      · simp only [readTerm_trim_eq_ok_iff]
        exact hbefore
      · rw [Text.trim_eq_iff.2 hterm]
        exact readTerm_eq_error_iff.2 h

/-- **Reading follows the grammar.** A text is read as a spec exactly when it writes that spec, and
refused with an error exactly when that error is its first fault. -/
theorem Spec.parse_follows_grammar (text : String) :
    (∀ s, parse text = .ok s ↔ SpecText text s) ∧ ∀ e, parse text = .error e ↔ SpecFault text e :=
  ⟨fun _ => parse_eq_ok_iff, fun _ => parse_eq_error_iff⟩

end SchemaShaper.Index

import SchemaShaper.Json.Parser
import SchemaShaper.Json.Printer
import Mathlib.Data.List.TakeDrop
import Mathlib.Data.List.TakeWhile

/-!
# Written JSON is read back

The indented text of a value is read as the value (`parse?_pretty`), as long as the value has a text
at all (`Writable`): a number has to be a number literal, and half of a surrogate pair cannot be
written.

Each reader is shown to take exactly what the writer puts there, in front of anything that can
follow. Between quotes a character is read as one piece, whether it is escaped or not
(`exists_piece`). A number ends where a comma or a new line follows it (`Ends`), which is all that
ever follows a value in an indented text. Lists and objects are read element by element; the bound
on the depth of the recursion is met because every call has a character of its own (`ReadsBack`).
-/

namespace SchemaShaper.Json

/-! ## Texts -/

/-- In front of other pieces, the piece makes up the character. -/
def Piece.StandsFor (p : Piece) (c : Char) : Prop :=
  ∀ ps, assemble? (p :: ps) = (assemble? ps).map (c :: ·)

section Texts

variable {c : Char}

theorem Piece.standsFor_char (c : Char) : (char c).StandsFor c := fun _ => rfl

theorem Piece.standsFor_unit (h : c.toNat < 0xD800) : (unit c.toNat).StandsFor c := by
  intro ps
  rw [assemble?.eq_def]
  dsimp only
  rw [if_pos (Or.inl h), Char.ofNat_toNat]

theorem hexUnit?_hexDigit {n : Nat} (h : n < 0x20) :
    hexUnit? '0' '0' (hexDigit (n / 16)) (hexDigit (n % 16)) = some n := by
  have hall : ∀ n : Fin 0x20,
      hexUnit? '0' '0' (hexDigit (n.val / 16)) (hexDigit (n.val % 16)) = some n.val := by decide
  exact hall ⟨n, h⟩

theorem readPieces?_plain (hquote : c ≠ '"') (hslash : c ≠ '\\') (h : ¬ c.toNat < 0x20)
    (cs : List Char) :
    readPieces? (c :: cs) = (readPieces? cs).map fun x => (.char c :: x.1, x.2) := by
  rw [readPieces?, if_neg h, Option.map_eq_bind]
  · rfl
  all_goals simp [hquote, hslash]

theorem readPieces?_letter {e : Char} (he : e ≠ 'u') (h : escaped? e = some c) (cs : List Char) :
    readPieces? ('\\' :: e :: cs) = (readPieces? cs).map fun x => (.char c :: x.1, x.2) := by
  rw [readPieces?, h, Option.map_eq_bind]
  · rfl
  · simp [he]

theorem readPieces?_unit {n : Nat} {a b c d : Char} (h : hexUnit? a b c d = some n)
    (cs : List Char) :
    readPieces? ('\\' :: 'u' :: a :: b :: c :: d :: cs) =
      (readPieces? cs).map fun x => (.unit n :: x.1, x.2) := by
  rw [readPieces?, h, Option.map_eq_bind]
  rfl

/-- What is written for a character is read as one piece that stands for it. -/
theorem exists_piece (c : Char) : ∃ p : Piece, p.StandsFor c ∧
    ∀ cs, readPieces? (escape c ++ cs) = (readPieces? cs).map fun x => (p :: x.1, x.2) := by
  unfold escape
  split
  case h_8 hquote hslash _ _ _ _ _ =>
    by_cases hcontrol : c.toNat < 0x20
    · rw [if_pos hcontrol]
      exact ⟨_, Piece.standsFor_unit (by omega), readPieces?_unit (hexUnit?_hexDigit hcontrol)⟩
    · rw [if_neg hcontrol]
      exact ⟨_, Piece.standsFor_char c, readPieces?_plain hquote hslash hcontrol⟩
  all_goals exact ⟨_, Piece.standsFor_char _, readPieces?_letter (by decide) rfl⟩

theorem exists_pieces (s rest : List Char) : ∃ ps,
    readPieces? (s.flatMap escape ++ '"' :: rest) = some (ps, rest) ∧ assemble? ps = some s := by
  induction s with
  | nil => exact ⟨[], rfl, rfl⟩
  | cons c s ih =>
    obtain ⟨ps, hread, hassemble⟩ := ih
    obtain ⟨p, hstands, hpiece⟩ := exists_piece c
    refine ⟨p :: ps, ?_, ?_⟩
    · rw [List.flatMap_cons, List.append_assoc, hpiece, hread, Option.map_some]
    · rw [hstands, hassemble, Option.map_some]

theorem toList_quote (s : String) :
    (quote s).toList = '"' :: (s.toList.flatMap escape ++ ['"']) := by
  simp [quote]

theorem readText?_quote (s : String) (rest : List Char) :
    readText? (s.toList.flatMap escape ++ '"' :: rest) = some (some s, rest) := by
  obtain ⟨ps, hread, hassemble⟩ := exists_pieces s.toList rest
  unfold readText?
  rw [hread, Option.map_some]
  dsimp only
  rw [hassemble, Option.map_some, String.ofList_toList]

end Texts

/-! ## Numbers -/

/-- Every character is a digit. -/
def AllDigits (cs : List Char) : Prop := ∀ c ∈ cs, c.isDigit = true

/-- A whole part without leading zeros. -/
inductive IsWhole : List Char → Prop
  | zero : IsWhole ['0']
  | digits {c : Char} {cs : List Char} (hc : c.isDigit = true) (hzero : c ≠ '0')
      (h : AllDigits cs) : IsWhole (c :: cs)

/-- Nothing, or digits behind a point. -/
inductive IsFraction : List Char → Prop
  | absent : IsFraction []
  | digits {cs : List Char} (hne : cs ≠ []) (h : AllDigits cs) : IsFraction ('.' :: cs)

/-- Nothing, or digits behind a mark and perhaps a sign. -/
inductive IsExponent : List Char → Prop
  | absent : IsExponent []
  | digits {mark : Char} {sign cs : List Char} (hmark : mark = 'e' ∨ mark = 'E')
      (hsign : sign = [] ∨ sign = ['+'] ∨ sign = ['-']) (hne : cs ≠ []) (h : AllDigits cs) :
      IsExponent (mark :: (sign ++ cs))

/-- A number literal. -/
inductive IsNumber : List Char → Prop
  | parts {sign whole fraction exponent : List Char} (hsign : sign = [] ∨ sign = ['-'])
      (hwhole : IsWhole whole) (hfraction : IsFraction fraction) (hexponent : IsExponent exponent) :
      IsNumber (sign ++ whole ++ fraction ++ exponent)

/-- What stands behind a value in an indented text. -/
def Ends (cs : List Char) : Prop := ∀ c ∈ cs.head?, c = ',' ∨ c = '\n'

/-- What stands behind the whole part and the fraction of a number in an indented text. -/
def EndsOrMarks (cs : List Char) : Prop :=
  ∀ c ∈ cs.head?, c = ',' ∨ c = '\n' ∨ c = 'e' ∨ c = 'E'

/-- No digit stands in front. -/
def NoDigit (cs : List Char) : Prop := ∀ c ∈ cs.head?, c.isDigit = false

section Numbers

variable {whole fraction exponent cs rest : List Char}

theorem ne_of_isDigit {c : Char} (h : c.isDigit = true) :
    ∀ d : Char, d.isDigit = false → c ≠ d := by
  rintro d hd rfl
  rw [h] at hd
  cases hd

theorem Ends.endsOrMarks (h : Ends rest) : EndsOrMarks rest := fun c hc =>
  (h c hc).imp_right Or.inl

theorem EndsOrMarks.noDigit (h : EndsOrMarks rest) : NoDigit rest := by
  intro c hc
  rcases h c hc with rfl | rfl | rfl | rfl <;> rfl

theorem IsExponent.endsOrMarks (h : IsExponent exponent) (hrest : Ends rest) :
    EndsOrMarks (exponent ++ rest) := by
  cases h with
  | absent => exact hrest.endsOrMarks
  | digits hmark =>
    rintro c ⟨⟩
    exact Or.inr (Or.inr hmark)

theorem IsFraction.noDigit (h : IsFraction fraction) (hrest : EndsOrMarks rest) :
    NoDigit (fraction ++ rest) := by
  cases h with
  | absent => exact hrest.noDigit
  | digits =>
    rintro c ⟨⟩
    rfl

theorem spanDigits_append (h : AllDigits cs) (hrest : NoDigit rest) :
    spanDigits (cs ++ rest) = (cs, rest) := by
  unfold spanDigits
  rw [List.span_eq_takeWhile_dropWhile, List.takeWhile_append_of_pos h,
    List.dropWhile_append_of_pos h]
  cases rest with
  | nil => simp
  | cons c rest => simp [hrest c rfl]

theorem readWhole?_append (h : IsWhole whole) (hrest : NoDigit rest) :
    readWhole? (whole ++ rest) = some (whole, rest) := by
  cases h with
  | zero =>
    cases rest with
    | nil => rfl
    | cons c rest => simp [readWhole?, hrest c rfl]
  | @digits c cs hc hzero h =>
    have hspan := spanDigits_append (List.forall_mem_cons.2 ⟨hc, h⟩) hrest
    rw [List.cons_append] at hspan ⊢
    rw [readWhole?, hspan]
    simp [hzero]

theorem readFraction?_append (h : IsFraction fraction) (hrest : EndsOrMarks rest) :
    readFraction? (fraction ++ rest) = some (fraction, rest) := by
  cases h with
  | absent =>
    have hpoint : ∀ cs, rest ≠ '.' :: cs := by
      rintro cs rfl
      have hfront := hrest '.' rfl
      revert hfront
      decide
    rw [List.nil_append, readFraction?]
    exact hpoint
  | @digits cs hne h =>
    rw [List.cons_append, readFraction?, spanDigits_append h hrest.noDigit]
    cases cs with
    | nil => exact absurd rfl hne
    | cons => rfl

theorem readExponent?_append (h : IsExponent exponent) (hrest : Ends rest) :
    readExponent? (exponent ++ rest) = some (exponent, rest) := by
  cases h with
  | absent =>
    cases rest with
    | nil => rfl
    | cons c rest => rcases hrest c rfl with rfl | rfl <;> rfl
  | @digits mark sign cs hmark hsign hne h =>
    have hspan := spanDigits_append h hrest.endsOrMarks.noDigit
    have hmarked : (mark == 'e' || mark == 'E') = true := by
      rcases hmark with rfl | rfl <;> rfl
    obtain ⟨d, ds, rfl⟩ := List.exists_cons_of_ne_nil hne
    have hd : d.isDigit = true := h d List.mem_cons_self
    rw [List.cons_append] at hspan
    rcases hsign with rfl | rfl | rfl
    · simp [readExponent?, hmarked, hspan, ne_of_isDigit hd]
    · simp [readExponent?, hmarked, hspan]
    · simp [readExponent?, hmarked, hspan]

theorem IsWhole.exists_cons (h : IsWhole whole) :
    ∃ c cs, whole = c :: cs ∧ c.isDigit = true := by
  cases h with
  | zero => exact ⟨_, _, rfl, rfl⟩
  | digits hc => exact ⟨_, _, rfl, hc⟩

theorem IsNumber.exists_cons {literal : List Char} (h : IsNumber literal) :
    ∃ c cs, literal = c :: cs ∧ (c = '-' ∨ c.isDigit = true) := by
  obtain @⟨sign, whole, fraction, exponent, hsign, hwhole, -, -⟩ := h
  obtain ⟨c, cs, rfl, hc⟩ := hwhole.exists_cons
  rcases hsign with rfl | rfl
  · exact ⟨_, _, rfl, Or.inr hc⟩
  · exact ⟨_, _, rfl, Or.inl rfl⟩

theorem readNumber?_append {literal : List Char} (h : IsNumber literal) (hrest : Ends rest) :
    readNumber? (literal ++ rest) = some (number (String.ofList literal), rest) := by
  obtain @⟨sign, whole, fraction, exponent, hsign, hwhole, hfraction, hexponent⟩ := h
  have hmarks := hexponent.endsOrMarks hrest
  have hread := readWhole?_append hwhole (hfraction.noDigit hmarks)
  obtain ⟨c, cs, rfl, hc⟩ := hwhole.exists_cons
  rw [List.cons_append] at hread
  rcases hsign with rfl | rfl
  · simp [readNumber?, ne_of_isDigit hc, hread, readFraction?_append hfraction hmarks,
      readExponent?_append hexponent hrest, String.append_assoc]
  · simp [readNumber?, hread, readFraction?_append hfraction hmarks,
      readExponent?_append hexponent hrest, String.append_assoc]

end Numbers

/-! ## Values -/

/-- A value that has a text: its numbers are number literals, and its texts and names are texts of
characters. -/
inductive Writable : Json → Prop
  | null : Writable null
  | bool (b : Bool) : Writable (bool b)
  | number {literal : List Char} (h : IsNumber literal) : Writable (number (String.ofList literal))
  | string (s : String) : Writable (string s)
  | array {items : List Json} (h : ∀ v ∈ items, Writable v) : Writable (array items)
  | record {fields : List (String × Json)} (h : ∀ field ∈ fields, Writable field.2) :
      Writable (record fields)

/-- Named fields as the members of an object. -/
def named (fields : List (String × Json)) : List (Option String × Json) :=
  fields.map fun (k, v) => (some k, v)

/-- The text of a field that stands at a level of nesting. -/
def fieldText (level : Nat) (field : String × Json) : List Char :=
  '"' :: (field.1.toList.flatMap escape ++ '"' :: ':' :: ' ' :: (prettyAt level field.2).toList)

section Forms

variable (level : Nat)

theorem toList_null : (prettyAt level null).toList = 'n' :: "ull".toList := by
  have htext : prettyAt level null = "null" := rfl
  rw [htext]
  rfl

theorem toList_true : (prettyAt level (bool true)).toList = 't' :: "rue".toList := by
  have htext : prettyAt level (bool true) = "true" := rfl
  rw [htext]
  rfl

theorem toList_false : (prettyAt level (bool false)).toList = 'f' :: "alse".toList := by
  have htext : prettyAt level (bool false) = "false" := rfl
  rw [htext]
  rfl

theorem toList_number (literal : List Char) :
    (prettyAt level (number (String.ofList literal))).toList = literal :=
  String.toList_ofList

theorem toList_string (s : String) :
    (prettyAt level (string s)).toList = '"' :: (s.toList.flatMap escape ++ ['"']) :=
  toList_quote s

theorem toList_array_nil : (prettyAt level (array [])).toList = ['[', ']'] := by
  have htext : prettyAt level (array []) = "[]" := rfl
  rw [htext]
  rfl

theorem toList_array_cons (v : Json) (vs : List Json) :
    (prettyAt level (array (v :: vs))).toList =
      '[' :: ((newLine (level + 1)).toList ++ ((prettyAt (level + 1) v).toList ++
        ((prettyItems (level + 1) vs).toList ++ ((newLine level).toList ++ [']'])))) := by
  have htext : prettyAt level (array (v :: vs)) =
      "[" ++ newLine (level + 1) ++ prettyAt (level + 1) v ++ prettyItems (level + 1) vs
        ++ newLine level ++ "]" := rfl
  simp [htext]

theorem toList_prettyItems_cons (v : Json) (vs : List Json) :
    (prettyItems level (v :: vs)).toList =
      ',' :: ((newLine level).toList ++ ((prettyAt level v).toList ++
        (prettyItems level vs).toList)) := by
  have htext : prettyItems level (v :: vs) =
      "," ++ newLine level ++ prettyAt level v ++ prettyItems level vs := rfl
  simp [htext]

theorem toList_record_nil : (prettyAt level (record [])).toList = ['{', '}'] := by
  have htext : prettyAt level (record []) = "\x7b\x7d" := rfl
  rw [htext]
  rfl

theorem toList_record_cons (field : String × Json) (fields : List (String × Json)) :
    (prettyAt level (record (field :: fields))).toList =
      '{' :: ((newLine (level + 1)).toList ++ (fieldText (level + 1) field ++
        ((prettyMembers (level + 1) (named fields)).toList ++
          ((newLine level).toList ++ ['}'])))) := by
  have htext : prettyAt level (record (field :: fields)) =
      "\x7b" ++ newLine (level + 1) ++ quote field.1 ++ ": " ++ prettyAt (level + 1) field.2
        ++ prettyMembers (level + 1) (named fields) ++ newLine level ++ "\x7d" := rfl
  simp [htext, fieldText, toList_quote]

theorem toList_prettyMembers_cons (field : String × Json) (fields : List (String × Json)) :
    (prettyMembers level (named (field :: fields))).toList =
      ',' :: ((newLine level).toList ++ (fieldText level field ++
        (prettyMembers level (named fields)).toList)) := by
  have htext : prettyMembers level (named (field :: fields)) =
      "," ++ newLine level ++ quote field.1 ++ ": " ++ prettyAt level field.2
        ++ prettyMembers level (named fields) := rfl
  simp [htext, fieldText, toList_quote]

theorem fieldText_append (field : String × Json) (cs : List Char) :
    fieldText level field ++ cs =
      '"' :: (field.1.toList.flatMap escape ++
        '"' :: ':' :: ' ' :: ((prettyAt level field.2).toList ++ cs)) := by
  simp [fieldText]

theorem length_lt_fieldText (field : String × Json) :
    (prettyAt level field.2).toList.length < (fieldText level field).length := by
  simp only [fieldText, List.length_cons, List.length_append]
  omega

end Forms

/-! ### Blanks -/

section Blanks

variable {fuel : Nat} {cs cs' : List Char}

theorem skipSpace_cons {c : Char} (h : isSpace c = false) (cs : List Char) :
    skipSpace (c :: cs) = c :: cs := by
  unfold skipSpace
  rw [List.dropWhile_cons, h]
  rfl

theorem skipSpace_newLine (level : Nat) (cs : List Char) :
    skipSpace ((newLine level).toList ++ cs) = skipSpace cs := by
  have hblanks : ∀ c ∈ (newLine level).toList, isSpace c = true := by
    intro c hc
    simp only [newLine, String.toList_append, String.toList_ofList, List.mem_append,
      List.mem_replicate] at hc
    rcases hc with hc | ⟨-, rfl⟩
    · rw [List.mem_singleton.1 hc]
      rfl
    · rfl
  exact List.dropWhile_append_of_pos hblanks

theorem skipSpace_newLine_cons {c : Char} (h : isSpace c = false) (level : Nat) (cs : List Char) :
    skipSpace ((newLine level).toList ++ c :: cs) = c :: cs := by
  rw [skipSpace_newLine, skipSpace_cons h]

theorem ends_comma (cs : List Char) : Ends (',' :: cs) := by
  rintro c ⟨⟩
  exact Or.inl rfl

theorem ends_newLine (level : Nat) (cs : List Char) : Ends ((newLine level).toList ++ cs) := by
  have htext : (newLine level).toList = '\n' :: List.replicate (2 * level) ' ' := by
    simp [newLine]
  rw [htext]
  rintro c ⟨⟩
  exact Or.inr rfl

theorem isSpace_of_isDigit {c : Char} (h : c.isDigit = true) : isSpace c = false := by
  simp [isSpace, ne_of_isDigit h]

theorem readValue?_congr (h : skipSpace cs = skipSpace cs') :
    readValue? fuel cs = readValue? fuel cs' := by
  cases fuel with
  | zero => rfl
  | succ fuel => rw [readValue?, readValue?, h]

theorem readItems?_congr (h : skipSpace cs = skipSpace cs') :
    readItems? fuel cs = readItems? fuel cs' := by
  cases fuel with
  | zero => rfl
  | succ fuel => rw [readItems?, readItems?, readValue?_congr h]

theorem readMembers?_congr (h : skipSpace cs = skipSpace cs') :
    readMembers? fuel cs = readMembers? fuel cs' := by
  cases fuel with
  | zero => rfl
  | succ fuel => rw [readMembers?, readMembers?, h]

end Blanks

/-! ### Steps of the reader -/

section Steps

variable {fuel : Nat} {cs tail rest : List Char} {v : Json} {vs : List Json}
  {members : List (Option String × Json)}

theorem afterWord?_append (word : String) (rest : List Char) :
    afterWord? word (word.toList ++ rest) = some rest := by
  have hlength : word.length = word.toList.length := String.length_toList.symm
  have hfront : word.toList.isPrefixOf (word.toList ++ rest) = true := by simp
  rw [afterWord?, if_pos hfront, hlength, List.drop_left]

theorem readValue?_null (fuel : Nat) (cs : List Char) :
    readValue? (fuel + 1) ('n' :: cs) = (afterWord? "ull" cs).map (null, ·) := rfl

theorem readValue?_true (fuel : Nat) (cs : List Char) :
    readValue? (fuel + 1) ('t' :: cs) = (afterWord? "rue" cs).map (bool true, ·) := rfl

theorem readValue?_false (fuel : Nat) (cs : List Char) :
    readValue? (fuel + 1) ('f' :: cs) = (afterWord? "alse" cs).map (bool false, ·) := rfl

theorem readValue?_quote (fuel : Nat) (cs : List Char) :
    readValue? (fuel + 1) ('"' :: cs) = (readText? cs).map fun x => (text x.1, x.2) := rfl

theorem readValue?_minus (fuel : Nat) (cs : List Char) :
    readValue? (fuel + 1) ('-' :: cs) = readNumber? ('-' :: cs) := rfl

theorem readValue?_digit {c : Char} (h : c.isDigit = true) (fuel : Nat) (cs : List Char) :
    readValue? (fuel + 1) (c :: cs) = readNumber? (c :: cs) := by
  rw [readValue?, skipSpace_cons (isSpace_of_isDigit h)]
  simp [ne_of_isDigit h]

theorem readValue?_items {c : Char} (hfront : skipSpace cs = c :: tail) (hne : c ≠ ']')
    (hitems : readItems? fuel (c :: tail) = some (vs, rest)) :
    readValue? (fuel + 1) ('[' :: cs) = some (array vs, rest) := by
  simp [readValue?, skipSpace_cons, isSpace, hfront, hne, hitems]

theorem readValue?_members {c : Char} (hfront : skipSpace cs = c :: tail) (hne : c ≠ '}')
    (hmembers : readMembers? fuel (c :: tail) = some (members, rest)) :
    readValue? (fuel + 1) ('{' :: cs) = some (object members, rest) := by
  simp [readValue?, skipSpace_cons, isSpace, hfront, hne, hmembers]

theorem readItems?_last (hread : readValue? fuel cs = some (v, tail))
    (hclose : skipSpace tail = ']' :: rest) : readItems? (fuel + 1) cs = some ([v], rest) := by
  simp [readItems?, hread, hclose]

theorem readItems?_comma (hread : readValue? fuel cs = some (v, ',' :: tail))
    (hrest : readItems? fuel tail = some (vs, rest)) :
    readItems? (fuel + 1) cs = some (v :: vs, rest) := by
  simp [readItems?, hread, skipSpace_cons, isSpace, hrest]

section Members

variable {name : Option String} {behind : List Char}
  (hname : readText? cs = some (name, ':' :: behind))
include hname

theorem readMembers?_last (hread : readValue? fuel behind = some (v, tail))
    (hclose : skipSpace tail = '}' :: rest) :
    readMembers? (fuel + 1) ('"' :: cs) = some ([(name, v)], rest) := by
  simp [readMembers?, hname, skipSpace_cons, isSpace, hread, hclose]

theorem readMembers?_comma (hread : readValue? fuel behind = some (v, ',' :: tail))
    (hrest : readMembers? fuel tail = some (members, rest)) :
    readMembers? (fuel + 1) ('"' :: cs) = some ((name, v) :: members, rest) := by
  simp [readMembers?, hname, skipSpace_cons, isSpace, hread, hrest]

end Members

end Steps

/-! ### Reading what is written -/

/-- At every level, the value is read back from its text, given more calls than it has
characters. -/
def ReadsBack (v : Json) : Prop :=
  ∀ (level fuel : Nat) (rest : List Char), Ends rest →
    (prettyAt level v).toList.length ≤ fuel →
    readValue? (fuel + 1) ((prettyAt level v).toList ++ rest) = some (v, rest)

/-- A value whose text is a fixed word. -/
theorem readsBack_word {v : Json} {c : Char} {word : String}
    (htext : ∀ level, (prettyAt level v).toList = c :: word.toList)
    (hread : ∀ fuel cs, readValue? (fuel + 1) (c :: cs) = (afterWord? word cs).map (v, ·)) :
    ReadsBack v := by
  intro level fuel rest _ _
  rw [htext, List.cons_append, hread, afterWord?_append, Option.map_some]

theorem readsBack_null : ReadsBack null := readsBack_word toList_null readValue?_null

theorem readsBack_bool (b : Bool) : ReadsBack (bool b) := by
  cases b with
  | true => exact readsBack_word toList_true readValue?_true
  | false => exact readsBack_word toList_false readValue?_false

theorem readsBack_number {literal : List Char} (h : IsNumber literal) :
    ReadsBack (number (String.ofList literal)) := by
  intro level fuel rest hrest _
  have hread := readNumber?_append h hrest
  rw [toList_number]
  obtain ⟨c, cs, rfl, rfl | hc⟩ := h.exists_cons
  · rwa [List.cons_append, readValue?_minus]
  · rwa [List.cons_append, readValue?_digit hc]

theorem readsBack_string (s : String) : ReadsBack (string s) := by
  intro level fuel rest _ _
  rw [toList_string, List.cons_append, List.append_assoc, List.singleton_append, readValue?_quote,
    readText?_quote]
  rfl

/-- The front of a text is neither blank nor the end of a list. -/
theorem Writable.exists_cons {v : Json} (h : Writable v) (level : Nat) :
    ∃ c cs, (prettyAt level v).toList = c :: cs ∧ isSpace c = false ∧ c ≠ ']' := by
  cases h with
  | null => exact ⟨_, _, toList_null level, rfl, by decide⟩
  | bool b =>
    cases b with
    | true => exact ⟨_, _, toList_true level, rfl, by decide⟩
    | false => exact ⟨_, _, toList_false level, rfl, by decide⟩
  | number h =>
    obtain ⟨c, cs, rfl, hc⟩ := h.exists_cons
    refine ⟨c, cs, toList_number level _, ?_⟩
    rcases hc with rfl | hc
    · decide
    · exact ⟨isSpace_of_isDigit hc, ne_of_isDigit hc _ rfl⟩
  | string s => exact ⟨_, _, toList_string level s, rfl, by decide⟩
  | @array items =>
    cases items with
    | nil => exact ⟨_, _, toList_array_nil level, rfl, by decide⟩
    | cons v vs => exact ⟨_, _, toList_array_cons level v vs, rfl, by decide⟩
  | @record fields =>
    cases fields with
    | nil => exact ⟨_, _, toList_record_nil level, rfl, by decide⟩
    | cons field fields => exact ⟨_, _, toList_record_cons level field fields, rfl, by decide⟩

section Collections

variable (level fuel : Nat) {tail rest : List Char} (htail : Ends tail)
include htail

/-- Items up to the end of their list. The induction is on the items behind the first one, each of
which has the calls that the comma and the new line in front of it leave. -/
theorem readItems?_items {v : Json} {vs : List Json} (hv : ReadsBack v)
    (hvs : ∀ w ∈ vs, ReadsBack w) (hclose : skipSpace tail = ']' :: rest)
    (hfuel : (prettyAt level v).toList.length + (prettyItems level vs).toList.length ≤ fuel) :
    readItems? (fuel + 2) ((prettyAt level v).toList ++ ((prettyItems level vs).toList ++ tail)) =
      some (v :: vs, rest) := by
  induction vs generalizing v fuel with
  | nil => exact readItems?_last (hv level fuel tail htail (Nat.le_of_add_right_le hfuel)) hclose
  | cons w ws ih =>
    obtain ⟨hw, hws⟩ := List.forall_mem_cons.1 hvs
    rw [toList_prettyItems_cons] at hfuel ⊢
    simp only [List.length_cons, List.length_append] at hfuel
    obtain ⟨fuel, rfl⟩ : ∃ n, fuel = n + 1 := ⟨fuel - 1, by omega⟩
    have hread := ih fuel hw hws (by omega)
    rw [← readItems?_congr (skipSpace_newLine level _)] at hread
    simp only [List.cons_append, List.append_assoc]
    exact readItems?_comma (hv level _ _ (ends_comma _) (by omega)) hread

/-- Fields up to the end of their object, in the same way. -/
theorem readMembers?_fields {field : String × Json} {fields : List (String × Json)}
    (hfield : ReadsBack field.2) (hfields : ∀ f ∈ fields, ReadsBack f.2)
    (hclose : skipSpace tail = '}' :: rest)
    (hfuel : (fieldText level field).length +
      (prettyMembers level (named fields)).toList.length ≤ fuel) :
    readMembers? (fuel + 2)
        (fieldText level field ++ ((prettyMembers level (named fields)).toList ++ tail)) =
      some (named (field :: fields), rest) := by
  have hblank : ∀ cs, skipSpace (' ' :: cs) = skipSpace cs := fun _ => rfl
  induction fields generalizing field fuel with
  | nil =>
    have hlength := length_lt_fieldText level field
    rw [fieldText_append]
    refine readMembers?_last (readText?_quote _ _) ?_ hclose
    rw [readValue?_congr (hblank _)]
    exact hfield level fuel tail htail (by omega)
  | cons next fields ih =>
    obtain ⟨hnext, hrest⟩ := List.forall_mem_cons.1 hfields
    have hlength := length_lt_fieldText level field
    rw [toList_prettyMembers_cons] at hfuel ⊢
    simp only [List.length_cons, List.length_append] at hfuel
    obtain ⟨fuel, rfl⟩ : ∃ n, fuel = n + 1 := ⟨fuel - 1, by omega⟩
    have hread := ih fuel hnext hrest (by omega)
    rw [← readMembers?_congr (skipSpace_newLine level _)] at hread
    rw [fieldText_append]
    simp only [List.cons_append, List.append_assoc]
    refine readMembers?_comma (readText?_quote _ _) ?_ hread
    rw [readValue?_congr (hblank _)]
    exact hfield level _ _ (ends_comma _) (by omega)

end Collections

theorem readsBack_array {items : List Json} (hwritable : ∀ v ∈ items, Writable v)
    (h : ∀ v ∈ items, ReadsBack v) : ReadsBack (array items) := by
  intro level fuel rest _ hfuel
  cases items with
  | nil =>
    rw [toList_array_nil]
    rfl
  | cons v vs =>
    obtain ⟨hv, hvs⟩ := List.forall_mem_cons.1 h
    obtain ⟨c, cs, hfront, hspace, hne⟩ :=
      (hwritable v List.mem_cons_self).exists_cons (level + 1)
    rw [toList_array_cons] at hfuel ⊢
    simp only [List.length_cons, List.length_append, List.length_nil] at hfuel
    obtain ⟨fuel, rfl⟩ : ∃ n, fuel = n + 2 := ⟨fuel - 2, by omega⟩
    have hclose : skipSpace ((newLine level).toList ++ ']' :: rest) = ']' :: rest :=
      skipSpace_newLine_cons rfl level rest
    have hitems := readItems?_items (level + 1) fuel (ends_newLine level _) hv hvs hclose (by omega)
    rw [hfront] at hitems ⊢
    simp only [List.cons_append, List.append_assoc, List.nil_append] at hitems ⊢
    exact readValue?_items (skipSpace_newLine_cons hspace _ _) hne hitems

theorem readsBack_record {fields : List (String × Json)}
    (h : ∀ field ∈ fields, ReadsBack field.2) : ReadsBack (record fields) := by
  intro level fuel rest _ hfuel
  cases fields with
  | nil =>
    rw [toList_record_nil]
    rfl
  | cons field fields =>
    obtain ⟨hfield, hfields⟩ := List.forall_mem_cons.1 h
    rw [toList_record_cons] at hfuel ⊢
    simp only [List.length_cons, List.length_append, List.length_nil] at hfuel
    obtain ⟨fuel, rfl⟩ : ∃ n, fuel = n + 2 := ⟨fuel - 2, by omega⟩
    have hclose : skipSpace ((newLine level).toList ++ '}' :: rest) = '}' :: rest :=
      skipSpace_newLine_cons rfl level rest
    have hmembers := readMembers?_fields (level + 1) fuel (ends_newLine level _) hfield hfields
      hclose (by omega)
    simp only [List.cons_append, List.append_assoc, List.nil_append]
    rw [fieldText_append] at hmembers ⊢
    exact readValue?_members (skipSpace_newLine_cons rfl _ _) (by decide) hmembers

theorem Writable.readsBack {v : Json} (h : Writable v) : ReadsBack v := by
  induction h with
  | null => exact readsBack_null
  | bool b => exact readsBack_bool b
  | number h => exact readsBack_number h
  | string s => exact readsBack_string s
  | array hwritable ih => exact readsBack_array hwritable ih
  | record _ ih => exact readsBack_record ih

/-- **Written JSON is read back.** -/
theorem parse?_pretty {v : Json} (h : Writable v) : parse? v.pretty = some v := by
  have hends : Ends [] := fun c hc => by cases hc
  have hread := h.readsBack 0 _ [] hends (Nat.le_refl _)
  rw [List.append_nil, String.length_toList] at hread
  unfold parse? pretty
  rw [hread]
  rfl

end SchemaShaper.Json

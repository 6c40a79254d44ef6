import SchemaShaper.Glob.Parser
import SchemaShaper.Proofs.Glob.Cutting

/-!
# The language of a pattern text

`Language` reads the language off the characters of a pattern, without tokens: `*` is any run of
characters, `?` any one character, a class the characters it has as members or, behind a `!`, those
it has not, and every other character is itself. A `[` that no `]` closes is such a character, and
what follows it is read as a pattern again.

A class is closed by the first `]` behind at least one member (`Closes`), so that a `]` in front is
a member. Its members are read from the left: a `-` between two characters that are still unread
makes a range of the three (`Member`).

The tokens of a pattern accept exactly its language (`accepts_iff_language`). One token for adjacent
`*` accepts what one token for each would. A text that holds neither wildcards nor a `[` is a
pattern for itself alone (`Plain.covers_iff`).
-/

namespace SchemaShaper.Glob

/-! ## Reading a pattern by its characters -/

/-- A `-` and a character behind it: the character in front of them begins a range. -/
def OpensRange (cs : List Char) : Prop := ∃ hi rest, cs = '-' :: hi :: rest

/-- The character is a member of the class with these members as written. -/
inductive Member (c : Char) : List Char → Prop
  | inRange {lo hi : Char} {rest : List Char} (hlo : lo ≤ c) (hhi : c ≤ hi) :
      Member c (lo :: '-' :: hi :: rest)
  | behindRange {lo hi : Char} {rest : List Char} (h : Member c rest) :
      Member c (lo :: '-' :: hi :: rest)
  | single {rest : List Char} (hrest : ¬ OpensRange rest) : Member c (c :: rest)
  | behindSingle {x : Char} {rest : List Char} (hrest : ¬ OpensRange rest) (h : Member c rest) :
      Member c (x :: rest)

/-- The text is some members of a class, the `]` that closes it, and the rest. -/
structure Closes (cs members rest : List Char) : Prop where
  text_eq : cs = members ++ ']' :: rest
  members_ne_nil : members ≠ []
  first : ']' ∉ members.tail

/-- What stands behind a `[` is a class, complemented or not, and the rest. -/
inductive ClassText : List Char → Bool → List Char → List Char → Prop
  | plain {cs members rest : List Char} (hbang : cs.head? ≠ some '!') (h : Closes cs members rest) :
      ClassText cs false members rest
  | complement {cs members rest : List Char} (h : Closes cs members rest) :
      ClassText ('!' :: cs) true members rest

/-- The second text is in the language of the pattern that is the first. -/
inductive Language : List Char → List Char → Prop
  | nil : Language [] []
  | run {pattern piece text : List Char} (h : Language pattern text) :
      Language ('*' :: pattern) (piece ++ text)
  | anyChar {pattern text : List Char} {c : Char} (h : Language pattern text) :
      Language ('?' :: pattern) (c :: text)
  | charClass {pattern members rest text : List Char} {negated : Bool} {c : Char}
      (hclass : ClassText pattern negated members rest) (hc : Member c members ↔ negated = false)
      (h : Language rest text) : Language ('[' :: pattern) (c :: text)
  | bracket {pattern text : List Char}
      (hopen : ∀ negated members rest, ¬ ClassText pattern negated members rest)
      (h : Language pattern text) : Language ('[' :: pattern) ('[' :: text)
  | literal {pattern text : List Char} {c : Char} (hrun : c ≠ '*') (hany : c ≠ '?')
      (hopen : c ≠ '[') (h : Language pattern text) : Language (c :: pattern) (c :: text)

/-! ## Classes -/

theorem closes_bracket_iff {cs members rest : List Char} :
    Closes (']' :: cs) members rest ↔
      ∃ body, members = ']' :: body ∧ Text.cutAt (· == ']') cs = some (body, rest) := by
  constructor
  · rintro ⟨htext, hne, hfirst⟩
    obtain ⟨m, body, rfl⟩ := List.exists_cons_of_ne_nil hne
    simp only [List.cons_append, List.cons.injEq] at htext
    obtain ⟨rfl, rfl⟩ := htext
    refine ⟨body, rfl, Text.cutAt_eq_some_iff.2 ⟨']', rfl, rfl, fun x hx => ?_⟩⟩
    rw [beq_eq_false_iff_ne]
    rintro rfl
    exact hfirst hx
  · rintro ⟨body, rfl, hcut⟩
    obtain ⟨c, rfl, hc, hbody⟩ := Text.cutAt_eq_some_iff.1 hcut
    obtain rfl : c = ']' := beq_iff_eq.1 hc
    refine ⟨rfl, List.cons_ne_nil _ _, fun hmem => ?_⟩
    exact absurd rfl (beq_eq_false_iff_ne.1 (hbody _ hmem))

theorem closes_iff_cutAt {cs : List Char} (h : cs.head? ≠ some ']') {members rest : List Char} :
    Closes cs members rest ↔ Text.cutAt (· == ']') cs = some (members, rest) := by
  constructor
  · rintro ⟨rfl, hne, hfirst⟩
    refine Text.cutAt_eq_some_iff.2 ⟨']', rfl, rfl, fun x hx => ?_⟩
    obtain ⟨m, body, rfl⟩ := List.exists_cons_of_ne_nil hne
    rw [beq_eq_false_iff_ne]
    rintro rfl
    rcases List.mem_cons.1 hx with rfl | hx
    · exact h rfl
    · exact hfirst hx
  · intro hcut
    obtain ⟨c, rfl, hc, hmembers⟩ := Text.cutAt_eq_some_iff.1 hcut
    obtain rfl : c = ']' := beq_iff_eq.1 hc
    have hnot : ']' ∉ members := fun hmem => absurd rfl (beq_eq_false_iff_ne.1 (hmembers _ hmem))
    refine ⟨rfl, ?_, fun hmem => hnot (List.mem_of_mem_tail hmem)⟩
    rintro rfl
    exact h rfl

/-- The members and the rest of a class, behind its `!` if it has one. -/
def closing? : List Char → Option (List Char × List Char)
  | ']' :: cs => (Text.cutAt (· == ']') cs).map fun (body, rest) => (']' :: body, rest)
  | cs => Text.cutAt (· == ']') cs

theorem closing?_eq_some_iff {cs members rest : List Char} :
    closing? cs = some (members, rest) ↔ Closes cs members rest := by
  unfold closing?
  split
  · next cs =>
    rw [closes_bracket_iff, Option.map_eq_some_iff]
    constructor
    · rintro ⟨⟨body, rest⟩, hcut, h⟩
      cases h
      exact ⟨body, rfl, hcut⟩
    · rintro ⟨body, rfl, hcut⟩
      exact ⟨(body, rest), hcut, rfl⟩
  · next hhead =>
    refine (closes_iff_cutAt fun h => ?_).symm
    obtain ⟨tail, rfl⟩ := List.head?_eq_some_iff.1 h
    exact hhead tail rfl

theorem closing?_of_not_bracket {cs : List Char} (h : ∀ tail, cs ≠ ']' :: tail) :
    closing? cs = Text.cutAt (· == ']') cs := by
  unfold closing?
  split
  · exact absurd rfl (h _)
  · rfl

theorem classBody?_complement (cs : List Char) :
    classBody? ('!' :: cs) = (closing? cs).map fun (members, rest) => (true, members, rest) := by
  unfold classBody?
  split
  next heq =>
    cases heq
    split
    · exact (Option.map_map ..).symm
    · next hnot => rw [closing?_of_not_bracket hnot]

theorem classBody?_plain {cs : List Char} (h : cs.head? ≠ some '!') :
    classBody? cs = (closing? cs).map fun (members, rest) => (false, members, rest) := by
  unfold classBody?
  split
  next heq =>
    split at heq
    · exact absurd rfl h
    · cases heq
      split
      · exact (Option.map_map ..).symm
      · next hnot => rw [closing?_of_not_bracket hnot]

theorem classBody?_eq_some_iff {cs members rest : List Char} {negated : Bool} :
    classBody? cs = some (negated, members, rest) ↔ ClassText cs negated members rest := by
  constructor
  · intro h
    by_cases hbang : cs.head? = some '!'
    · obtain ⟨tail, rfl⟩ := List.head?_eq_some_iff.1 hbang
      rw [classBody?_complement, Option.map_eq_some_iff] at h
      obtain ⟨⟨members, rest⟩, hclose, h⟩ := h
      cases h
      exact .complement (closing?_eq_some_iff.1 hclose)
    · rw [classBody?_plain hbang, Option.map_eq_some_iff] at h
      obtain ⟨⟨members, rest⟩, hclose, h⟩ := h
      cases h
      exact .plain hbang (closing?_eq_some_iff.1 hclose)
  · intro h
    cases h with
    | plain hbang h =>
      rw [classBody?_plain hbang, closing?_eq_some_iff.2 h]
      rfl
    | complement h =>
      rw [classBody?_complement, closing?_eq_some_iff.2 h]
      rfl

/-- The members read one by one cover the characters that are members of the text. -/
theorem any_covers_classItems_iff {members : List Char} {c : Char} :
    (classItems members).any (·.covers c) = true ↔ Member c members := by
  fun_induction classItems members with
  | case1 lo hi rest ih =>
    rw [List.any_cons, Bool.or_eq_true, ih]
    constructor
    · rintro (h | h)
      · simp only [ClassItem.covers, Bool.and_eq_true, decide_eq_true_eq] at h
        exact .inRange h.1 h.2
      · exact .behindRange h
    · intro h
      cases h with
      | inRange hlo hhi => exact Or.inl (by simp [ClassItem.covers, hlo, hhi])
      | behindRange h => exact Or.inr h
      | single hrest => exact absurd ⟨hi, rest, rfl⟩ hrest
      | behindSingle hrest => exact absurd ⟨hi, rest, rfl⟩ hrest
  | case2 x rest hrest ih =>
    have hsingle : ¬ OpensRange rest := by
      rintro ⟨hi, tail, rfl⟩
      exact hrest hi tail rfl
    rw [List.any_cons, Bool.or_eq_true, ih]
    constructor
    · rintro (h | h)
      · obtain rfl : x = c := beq_iff_eq.1 h
        exact .single hsingle
      · exact .behindSingle hsingle h
    · intro h
      cases h with
      | inRange => exact absurd ⟨_, _, rfl⟩ hsingle
      | behindRange => exact absurd ⟨_, _, rfl⟩ hsingle
      | single => exact Or.inl (beq_self_eq_true c)
      | behindSingle _ h => exact Or.inr h
  | case3 =>
    refine iff_of_false (by simp) fun h => ?_
    cases h

theorem accepts_charClass_iff {negated : Bool} {members : List Char} {c : Char} :
    (Token.charClass negated (classItems members)).accepts c = true ↔
      (Member c members ↔ negated = false) := by
  rw [← any_covers_classItems_iff, Token.accepts]
  cases (classItems members).any (·.covers c) <;> cases negated <;> decide

/-! ## The language by the first character of the pattern -/

theorem language_nil {text : List Char} : Language [] text ↔ text = [] := by
  constructor
  · intro h
    cases h
    rfl
  · rintro rfl
    exact .nil

theorem language_run {pattern text : List Char} :
    Language ('*' :: pattern) text ↔ ∃ rest, rest <:+ text ∧ Language pattern rest := by
  constructor
  · intro h
    cases h with
    | run h => exact ⟨_, List.suffix_append _ _, h⟩
    | literal hrun => exact absurd rfl hrun
  · rintro ⟨rest, ⟨piece, rfl⟩, h⟩
    exact .run h

theorem language_anyChar {pattern text : List Char} :
    Language ('?' :: pattern) text ↔ ∃ c rest, text = c :: rest ∧ Language pattern rest := by
  constructor
  · intro h
    cases h with
    | anyChar h => exact ⟨_, _, rfl, h⟩
    | literal _ hany => exact absurd rfl hany
  · rintro ⟨c, rest, rfl, h⟩
    exact .anyChar h

theorem language_charClass {pattern members rest text : List Char} {negated : Bool}
    (hclass : ClassText pattern negated members rest) :
    Language ('[' :: pattern) text ↔
      ∃ c tail, text = c :: tail ∧ (Member c members ↔ negated = false) ∧ Language rest tail := by
  constructor
  · intro h
    cases h with
    | charClass hclass' hc h =>
      -- A text is read as a class in one way only.
      have hsame := (classBody?_eq_some_iff.2 hclass).symm.trans (classBody?_eq_some_iff.2 hclass')
      cases hsame
      exact ⟨_, _, rfl, hc, h⟩
    | bracket hopen => exact absurd hclass (hopen _ _ _)
    | literal _ _ hopen => exact absurd rfl hopen
  · rintro ⟨c, tail, rfl, hc, h⟩
    exact .charClass hclass hc h

theorem language_bracket {pattern text : List Char}
    (hopen : ∀ negated members rest, ¬ ClassText pattern negated members rest) :
    Language ('[' :: pattern) text ↔ ∃ rest, text = '[' :: rest ∧ Language pattern rest := by
  constructor
  · intro h
    cases h with
    | charClass hclass => exact absurd hclass (hopen _ _ _)
    | bracket _ h => exact ⟨_, rfl, h⟩
    | literal _ _ hne => exact absurd rfl hne
  · rintro ⟨rest, rfl, h⟩
    exact .bracket hopen h

theorem language_literal {pattern text : List Char} {c : Char} (hrun : c ≠ '*') (hany : c ≠ '?')
    (hopen : c ≠ '[') :
    Language (c :: pattern) text ↔ ∃ rest, text = c :: rest ∧ Language pattern rest := by
  constructor
  · intro h
    cases h with
    | run => exact absurd rfl hrun
    | anyChar => exact absurd rfl hany
    | charClass => exact absurd rfl hopen
    | bracket => exact absurd rfl hopen
    | literal _ _ _ h => exact ⟨_, rfl, h⟩
  · rintro ⟨rest, rfl, h⟩
    exact .literal hrun hany hopen h

/-! ## The tokens of a pattern -/

theorem accepts_cons_of_not_run {t : Token} (ht : t ≠ .anyRun) {ts : List Token}
    {cs : List Char} :
    Accepts (t :: ts) cs ↔ ∃ c rest, cs = c :: rest ∧ t.accepts c = true ∧ Accepts ts rest := by
  cases cs with
  | nil =>
    refine iff_of_false (accepts_cons_nil_of_not_run ht) ?_
    rintro ⟨c, rest, h, -⟩
    cases h
  | cons c cs =>
    rw [accepts_cons_cons_of_not_run ht]
    constructor
    · rintro ⟨hc, h⟩
      exact ⟨c, cs, rfl, hc, h⟩
    · rintro ⟨_, _, h, hc, hrest⟩
      cases h
      exact ⟨hc, hrest⟩

theorem accepts_literal_cons {c : Char} {ts : List Token} {cs : List Char} :
    Accepts (.literal c :: ts) cs ↔ ∃ rest, cs = c :: rest ∧ Accepts ts rest := by
  rw [accepts_cons_of_not_run Token.noConfusion]
  constructor
  · rintro ⟨d, rest, rfl, hd, h⟩
    obtain rfl : c = d := beq_iff_eq.1 hd
    exact ⟨rest, rfl, h⟩
  · rintro ⟨rest, rfl, h⟩
    exact ⟨c, rest, rfl, beq_self_eq_true c, h⟩

/-- One token for two adjacent `*` accepts what a token for each accepts. -/
theorem accepts_consRun {ts : List Token} {cs : List Char} :
    Accepts (consRun ts) cs ↔ Accepts (.anyRun :: ts) cs := by
  unfold consRun
  split
  · exact accepts_run_run.symm
  · exact Iff.rfl

theorem accepts_tokensOf {pattern text : List Char} :
    Accepts (tokensOf pattern) text ↔ Language pattern text := by
  fun_induction tokensOf pattern generalizing text with
  | case1 => rw [accepts_nil, language_nil]
  | case2 cs ih =>
    rw [accepts_consRun, accepts_run, language_run]
    simp only [ih]
  | case3 cs _ ih =>
    rw [accepts_cons_of_not_run Token.noConfusion, language_anyChar]
    simp only [ih, Token.accepts, true_and]
  | case4 cs negated members rest hclass _ _ ih =>
    rw [accepts_cons_of_not_run Token.noConfusion,
      language_charClass (classBody?_eq_some_iff.1 hclass)]
    simp only [ih, accepts_charClass_iff]
  | case5 cs hnone _ _ ih =>
    have hopen : ∀ negated members rest, ¬ ClassText cs negated members rest := by
      intro negated members rest hclass
      rw [classBody?_eq_some_iff.2 hclass] at hnone
      cases hnone
    rw [accepts_literal_cons, language_bracket hopen]
    simp only [ih]
  | case6 c cs hrun hany hopen ih =>
    rw [accepts_literal_cons, language_literal hrun hany hopen]
    simp only [ih]

/-- So a pattern covers the texts of its language. -/
theorem covers_iff_language {pattern text : String} :
    (Glob.ofString pattern).covers text = true ↔ Language pattern.toList text.toList :=
  matchesTokens_iff.trans accepts_tokensOf

/-- No character of the text is `*`, `?` or `[`. -/
def Plain (text : List Char) : Prop := ∀ c ∈ text, c ≠ '*' ∧ c ≠ '?' ∧ c ≠ '['

-- Decided along the text, and not by going through all characters.
instance (text : List Char) : Decidable (Plain text) :=
  decidable_of_iff (text.all (fun c => c != '*' && c != '?' && c != '[') = true)
    (by simp [Plain, and_assoc])

theorem Plain.language_iff {pattern text : List Char} (h : Plain pattern) :
    Language pattern text ↔ text = pattern := by
  induction pattern generalizing text with
  | nil => exact language_nil
  | cons c pattern ih =>
    obtain ⟨⟨hrun, hany, hopen⟩, hrest⟩ := List.forall_mem_cons.1 h
    rw [language_literal hrun hany hopen]
    simp only [ih hrest, exists_eq_right]

/-- A plain pattern covers its own text and no other. -/
theorem Plain.covers_iff {pattern text : String} (h : Plain pattern.toList) :
    (Glob.ofString pattern).covers text = true ↔ text = pattern := by
  rw [covers_iff_language, h.language_iff, String.toList_inj]

-- The class is all but the range from `]` to `_`; the last `[` is not closed.
example : (Glob.ofString "x[!]-_]?[").covers "xab[" = true := by decide +kernel

/-- **The tokens of a pattern accept its language**, and it does not matter that adjacent `*` are
one token. -/
theorem accepts_iff_language :
    (∀ (pattern : String) (text : List Char),
      Accepts (Glob.ofString pattern).tokens text ↔ Language pattern.toList text) ∧
    ∀ (ts : List Token) (text : List Char),
      Accepts (consRun ts) text ↔ Accepts (.anyRun :: ts) text :=
  ⟨fun _ _ => accepts_tokensOf, fun _ _ => accepts_consRun⟩

end SchemaShaper.Glob

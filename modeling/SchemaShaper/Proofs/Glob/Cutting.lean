import SchemaShaper.Glob.Basic
import Mathlib.Data.List.Forall2

/-!
# Wildcard matching by one resume point

A list of tokens accepts a text when the text can be cut into consecutive pieces, one per token
(`Accepts`): `*` takes any piece, every other token one character that it accepts. The matcher goes
back to the last `*` only. `covers_iff_accepts`: it nevertheless finds a cut whenever there is one.

Behind a `*` the matcher has passed some tokens over as many characters (`Passed`). None of these
tokens is a `*`, so every cut gives them exactly one character each; whatever an earlier `*` might
take in addition, the last one can take in its stead (`accepts_run_append_run`). So the answer of
the loop is at each point whether `*` and the tokens behind it accept the text met at that `*`
(`matchAfterRun_iff`). The loop ends although it goes back in the text: a further `*` leaves fewer
tokens to resume with, and going back leaves less text to absorb.
-/

namespace SchemaShaper.Glob

/-! ## Cuts of a text -/

/-- May the token stand for this piece of a text? -/
def Token.Takes (t : Token) (piece : List Char) : Prop :=
  t = .anyRun ∨ ∃ c, piece = [c] ∧ t.accepts c = true

/-- The text can be cut into consecutive pieces, one per token. -/
def Accepts (ts : List Token) (cs : List Char) : Prop :=
  ∃ pieces : List (List Char), List.Forall₂ Token.Takes ts pieces ∧ pieces.flatten = cs

theorem isRun_iff {t : Token} : t.isRun = true ↔ t = .anyRun := by
  cases t <;> simp [Token.isRun]

theorem takes_of_not_run {t : Token} (ht : t ≠ .anyRun) {piece : List Char} :
    t.Takes piece ↔ ∃ c, piece = [c] ∧ t.accepts c = true :=
  or_iff_right ht

@[simp] theorem accepts_nil {cs : List Char} : Accepts [] cs ↔ cs = [] := by
  constructor
  · rintro ⟨pieces, h, rfl⟩
    cases h
    rfl
  · rintro rfl
    exact ⟨[], .nil, rfl⟩

theorem accepts_cons {t : Token} {ts : List Token} {cs : List Char} :
    Accepts (t :: ts) cs ↔ ∃ piece rest, t.Takes piece ∧ Accepts ts rest ∧ piece ++ rest = cs := by
  constructor
  · rintro ⟨pieces, h, rfl⟩
    cases h with
    | cons hp hps => exact ⟨_, _, hp, ⟨_, hps, rfl⟩, rfl⟩
  · rintro ⟨piece, _, hp, ⟨pieces, hps, rfl⟩, rfl⟩
    exact ⟨piece :: pieces, .cons hp hps, rfl⟩

theorem accepts_run {ts : List Token} {cs : List Char} :
    Accepts (.anyRun :: ts) cs ↔ ∃ rest, rest <:+ cs ∧ Accepts ts rest := by
  rw [accepts_cons]
  constructor
  · rintro ⟨piece, rest, -, h, rfl⟩
    exact ⟨rest, List.suffix_append piece rest, h⟩
  · rintro ⟨rest, ⟨piece, rfl⟩, h⟩
    exact ⟨piece, rest, Or.inl rfl, h, rfl⟩

theorem accepts_run_of_accepts {ts : List Token} {cs : List Char} (h : Accepts ts cs) :
    Accepts (.anyRun :: ts) cs :=
  accepts_run.2 ⟨cs, List.suffix_refl cs, h⟩

/-- Two adjacent `*` accept what one does. -/
theorem accepts_run_run {ts : List Token} {cs : List Char} :
    Accepts (.anyRun :: .anyRun :: ts) cs ↔ Accepts (.anyRun :: ts) cs := by
  constructor
  · intro h
    obtain ⟨rest, hrest, h⟩ := accepts_run.1 h
    obtain ⟨last, hlast, h⟩ := accepts_run.1 h
    exact accepts_run.2 ⟨last, hlast.trans hrest, h⟩
  · exact accepts_run_of_accepts

theorem accepts_cons_nil_of_not_run {t : Token} (ht : t ≠ .anyRun) {ts : List Token} :
    ¬ Accepts (t :: ts) [] := by
  rw [accepts_cons]
  rintro ⟨piece, rest, hp, -, e⟩
  obtain ⟨c, rfl, -⟩ := (takes_of_not_run ht).1 hp
  cases e

theorem accepts_cons_cons_of_not_run {t : Token} (ht : t ≠ .anyRun) {ts : List Token} {c : Char}
    {cs : List Char} : Accepts (t :: ts) (c :: cs) ↔ t.accepts c = true ∧ Accepts ts cs := by
  rw [accepts_cons]
  constructor
  · rintro ⟨piece, rest, hp, h, e⟩
    obtain ⟨d, rfl, hd⟩ := (takes_of_not_run ht).1 hp
    cases e
    exact ⟨hd, h⟩
  · rintro ⟨hc, h⟩
    exact ⟨[c], cs, (takes_of_not_run ht).2 ⟨c, rfl, hc⟩, h, rfl⟩

theorem accepts_empty {ts : List Token} : Accepts ts [] ↔ ts.all Token.isRun = true := by
  induction ts with
  | nil => simp
  | cons t ts ih =>
    rw [List.all_cons, Bool.and_eq_true, isRun_iff, ← ih]
    constructor
    · intro h
      by_cases ht : t = .anyRun
      · subst ht
        obtain ⟨rest, hrest, h⟩ := accepts_run.1 h
        rw [List.suffix_nil.1 hrest] at h
        exact ⟨rfl, h⟩
      · exact absurd h (accepts_cons_nil_of_not_run ht)
    · rintro ⟨rfl, h⟩
      exact accepts_run_of_accepts h

/-! ## Tokens passed behind a `*` -/

/-- Tokens other than `*`, each over one character that it accepts. -/
def Passed : List Token → List Char → Prop :=
  List.Forall₂ fun t c => t ≠ .anyRun ∧ t.accepts c = true

/-- What passed tokens take is forced, so the rest of a cut concerns the rest of the text. -/
theorem accepts_append_of_passed {passed : List Token} {taken : List Char}
    (hp : Passed passed taken) {ts : List Token} {cs : List Char} :
    Accepts (passed ++ ts) (taken ++ cs) ↔ Accepts ts cs := by
  induction hp with
  | nil => exact Iff.rfl
  | cons h _ ih =>
    rw [List.cons_append, List.cons_append, accepts_cons_cons_of_not_run h.1, ih]
    exact and_iff_right h.2

theorem Passed.concat {passed : List Token} {taken : List Char} (hp : Passed passed taken)
    {t : Token} {c : Char} (ht : t ≠ .anyRun) (hc : t.accepts c = true) :
    Passed (passed ++ [t]) (taken ++ [c]) :=
  List.rel_append hp (.cons ⟨ht, hc⟩ .nil)

theorem exists_rest_of_accepts {passed : List Token} {taken : List Char}
    (hp : Passed passed taken) {ts : List Token} {cs : List Char} (h : Accepts (passed ++ ts) cs) :
    ∃ front rest, front ++ rest = cs ∧ front.length = taken.length ∧ Accepts ts rest := by
  induction hp generalizing cs with
  | nil => exact ⟨[], cs, rfl, rfl, h⟩
  | cons ht _ ih =>
    cases cs with
    | nil => exact absurd h (accepts_cons_nil_of_not_run ht.1)
    | cons c cs =>
      obtain ⟨front, rest, rfl, hlen, hrest⟩ := ih ((accepts_cons_cons_of_not_run ht.1).1 h).2
      exact ⟨c :: front, rest, rfl, congrArg (· + 1) hlen, hrest⟩

/-- What a `*` in front of passed tokens takes in addition, a `*` behind them can take. -/
theorem accepts_run_of_append {passed : List Token} {taken : List Char}
    (hp : Passed passed taken) {ts : List Token} {cs : List Char}
    (h : Accepts (.anyRun :: (passed ++ ts)) (taken ++ cs)) : Accepts (.anyRun :: ts) cs := by
  obtain ⟨suffix, hsuffix, h⟩ := accepts_run.1 h
  obtain ⟨front, rest, rfl, hlen, h⟩ := exists_rest_of_accepts hp h
  have hle : rest.length ≤ cs.length := by
    have := hsuffix.length_le
    simp only [List.length_append] at this
    omega
  have hrest : rest <:+ cs :=
    List.suffix_of_suffix_length_le ((List.suffix_append front rest).trans hsuffix)
      (List.suffix_append taken cs) hle
  exact accepts_run.2 ⟨rest, hrest, h⟩

/-- **The last `*` is enough.** With passed tokens between two `*`, giving the first one more text
accepts nothing that giving it to the second one does not. -/
theorem accepts_run_append_run {passed : List Token} {taken : List Char}
    (hp : Passed passed taken) {ts : List Token} {cs : List Char} :
    Accepts (.anyRun :: (passed ++ .anyRun :: ts)) (taken ++ cs) ↔ Accepts (.anyRun :: ts) cs := by
  constructor
  · intro h
    exact accepts_run_run.1 (accepts_run_of_append hp h)
  · intro h
    exact accepts_run_of_accepts ((accepts_append_of_passed hp).2 h)

theorem accepts_run_append_end {passed : List Token} {taken : List Char}
    (hp : Passed passed taken) {ts : List Token} :
    Accepts (.anyRun :: (passed ++ ts)) (taken ++ []) ↔ Accepts ts [] := by
  constructor
  · intro h
    obtain ⟨rest, hrest, h⟩ := accepts_run.1 (accepts_run_of_append hp h)
    rwa [List.suffix_nil.1 hrest] at h
  · intro h
    exact accepts_run_of_accepts ((accepts_append_of_passed hp).2 h)

/-! ## The matcher -/

theorem accepts_run_cons_of_not {ts : List Token} {c : Char} {cs : List Char}
    (h : ¬ Accepts ts (c :: cs)) :
    Accepts (.anyRun :: ts) (c :: cs) ↔ Accepts (.anyRun :: ts) cs := by
  rw [accepts_run, accepts_run]
  constructor
  · rintro ⟨rest, hrest, hr⟩
    rcases List.suffix_cons_iff.1 hrest with rfl | hrest
    · exact absurd hr h
    · exact ⟨rest, hrest, hr⟩
  · rintro ⟨rest, hrest, hr⟩
    exact ⟨rest, hrest.trans (List.suffix_cons c cs), hr⟩

theorem accepts_run_retry {passed ts resume : List Token} {taken cs rest : List Char} {c : Char}
    (hp : Passed passed taken) (hr : passed ++ ts = resume) (ha : taken ++ cs = c :: rest)
    (hn : ¬ Accepts ts cs) :
    Accepts (.anyRun :: resume) rest ↔ Accepts (.anyRun :: resume) (c :: rest) := by
  refine (accepts_run_cons_of_not ?_).symm
  rw [← hr, ← ha, accepts_append_of_passed hp]
  exact hn

/-- The loop behind a `*` answers, from each of its states, whether that `*` and the tokens behind
it accept the text met there. The invariant: the tokens between `resume` and the ones at hand are
passed over the text between `absorbed` and the one at hand. -/
theorem matchAfterRun_iff {resume ts : List Token} {absorbed cs : List Char}
    {h : ts.length ≤ resume.length} {passed : List Token} {taken : List Char}
    (hp : Passed passed taken) (hr : passed ++ ts = resume) (ha : taken ++ cs = absorbed) :
    matchAfterRun resume absorbed ts cs h = true ↔ Accepts (.anyRun :: resume) absorbed := by
  fun_induction matchAfterRun resume absorbed ts cs h generalizing passed taken with
  | case1 =>
    rw [← hr, ← ha, accepts_run_append_end hp, accepts_empty]
  | case2 _ _ _ _ _ _ _ ih =>
    rw [ih .nil rfl rfl, ← hr, ← ha, accepts_run_append_run hp]
  | case3 _ _ _ _ _ _ _ ht hc _ ih =>
    exact ih (hp.concat ht hc) (by simp [hr]) (by simp [ha])
  | case4 =>
    exact absurd ha (by simp)
  | case5 _ _ _ _ _ _ ht hc _ _ _ ih =>
    rw [ih .nil rfl rfl]
    exact accepts_run_retry hp hr ha fun h => hc ((accepts_cons_cons_of_not_run ht).1 h).1
  | case6 =>
    exact absurd ha (by simp)
  | case7 _ _ _ _ _ _ _ ih =>
    rw [ih .nil rfl rfl]
    exact accepts_run_retry hp hr ha (by simp)

theorem matchesTokens_iff {ts : List Token} {cs : List Char} :
    matchesTokens ts cs = true ↔ Accepts ts cs := by
  fun_induction matchesTokens ts cs with
  | case1 ts => exact accepts_empty.symm
  | case2 ts c cs => exact matchAfterRun_iff .nil rfl rfl
  | case3 t ts c cs ht ih =>
    rw [Bool.and_eq_true, ih, accepts_cons_cons_of_not_run ht]
  | case4 c cs => simp

/-- **One resume point loses no match.** A pattern covers a text exactly when the text can be cut
into consecutive pieces, one per token. -/
theorem covers_iff_accepts (g : Glob) (text : String) :
    g.covers text = true ↔ Accepts g.tokens text.toList :=
  matchesTokens_iff

end SchemaShaper.Glob

import SchemaShaper.Proofs.Text.Pieces

/-!
# Trimmed texts and cut texts

What trimming and cutting give, said without the functions that do it. A text `Pads` its core when
only blanks stand around the core and none stands at the ends of the core; `Pieces` are what stands
between the occurrences of a separator. Both determine their results (`trim_eq_iff`,
`splitOn_eq_iff`). Lines are pieces between line feeds, so that rows written on lines of their own
are the lines of the text (`linesOf_join`, `linesOf_joinWith`).
-/

namespace SchemaShaper.Text

/-- Every character is a blank. -/
def Blanks (cs : List Char) : Prop := ∀ c ∈ cs, isBlank c = true

/-- No blank stands at either end. -/
structure Bare (cs : List Char) : Prop where
  front : ∀ c ∈ cs.head?, isBlank c = false
  back : ∀ c ∈ cs.getLast?, isBlank c = false

/-- The text is its core with blanks around it. -/
structure Pads (cs core : List Char) : Prop where
  bare : Bare core
  around : ∃ front back, Blanks front ∧ Blanks back ∧ cs = front ++ core ++ back

/-- The text is these pieces with one separator between neighbours. -/
structure Pieces (sep : Char) (cs : List Char) (parts : List (List Char)) : Prop where
  ne_nil : parts ≠ []
  free : ∀ part ∈ parts, sep ∉ part
  joined : cs = [sep].intercalate parts

theorem bare_iff {cs : List Char} : Bare cs ↔
    (∀ c ∈ cs.head?, isBlank c = false) ∧ ∀ c ∈ cs.getLast?, isBlank c = false :=
  ⟨fun h => ⟨h.front, h.back⟩, fun h => ⟨h.1, h.2⟩⟩

-- Both are decided along the text. Characters are finitely many, so that the quantifiers alone
-- could be decided as well, but only by going through all characters.
instance (cs : List Char) : Decidable (Blanks cs) :=
  decidable_of_iff (cs.all isBlank = true) List.all_eq_true

instance (cs : List Char) : Decidable (Bare cs) :=
  decidable_of_iff (cs.head?.all (!isBlank ·) = true ∧ cs.getLast?.all (!isBlank ·) = true)
    (by simp only [Option.all_eq_true, Bool.not_eq_true', ← Option.mem_def, bare_iff])

/-! ## Trimming -/

theorem blanks_nil : Blanks [] := fun _ h => absurd h List.not_mem_nil

theorem blanks_append {xs ys : List Char} : Blanks (xs ++ ys) ↔ Blanks xs ∧ Blanks ys :=
  List.forall_mem_append

theorem bare_nil : Bare [] := ⟨by simp, by simp⟩

/-- A text without blanks at its ends that is all blanks is empty. -/
theorem Bare.eq_nil {cs : List Char} (h : Bare cs) (hb : Blanks cs) : cs = [] := by
  cases cs with
  | nil => rfl
  | cons c cs =>
    have hfront : isBlank c = false := h.front c rfl
    have hblank : isBlank c = true := hb c List.mem_cons_self
    rw [hfront] at hblank
    cases hblank

theorem dropWhile_blanks_append {front rest : List Char} (hf : Blanks front)
    (hr : ∀ c ∈ rest.head?, isBlank c = false) : (front ++ rest).dropWhile isBlank = rest := by
  rw [List.dropWhile_append_of_pos hf]
  cases rest with
  | nil => rfl
  | cons c rest =>
    have hc : isBlank c = false := hr c rfl
    rw [List.dropWhile_cons_of_neg (by simp [hc])]

theorem trimStart_blanks_append {front rest : List Char} (hf : Blanks front)
    (hr : ∀ c ∈ rest.head?, isBlank c = false) : trimStart (front ++ rest) = rest :=
  dropWhile_blanks_append hf hr

theorem trimEnd_append_blanks {rest back : List Char} (hb : Blanks back)
    (hr : ∀ c ∈ rest.getLast?, isBlank c = false) : trimEnd (rest ++ back) = rest := by
  have hback : Blanks back.reverse := fun c hc => hb c (List.mem_reverse.1 hc)
  have hrest : ∀ c ∈ rest.reverse.head?, isBlank c = false := by
    rw [List.head?_reverse]
    exact hr
  unfold trimEnd
  rw [List.reverse_append, dropWhile_blanks_append hback hrest, List.reverse_reverse]

theorem exists_trimStart (cs : List Char) : ∃ front, Blanks front ∧ cs = front ++ trimStart cs ∧
    ∀ c ∈ (trimStart cs).head?, isBlank c = false := by
  refine ⟨cs.takeWhile isBlank, fun c hc => ?_, List.takeWhile_append_dropWhile.symm, ?_⟩
  · exact List.mem_takeWhile_imp hc
  · intro c hc
    have hnot := List.head?_dropWhile_not isBlank cs
    unfold trimStart at hc
    rw [Option.mem_def.1 hc] at hnot
    simpa using hnot

theorem exists_trimEnd (cs : List Char) : ∃ back, Blanks back ∧ cs = trimEnd cs ++ back ∧
    ∀ c ∈ (trimEnd cs).getLast?, isBlank c = false := by
  obtain ⟨front, hblanks, heq, hhead⟩ := exists_trimStart cs.reverse
  have hend : trimEnd cs = (trimStart cs.reverse).reverse := rfl
  refine ⟨front.reverse, fun c hc => hblanks c (List.mem_reverse.1 hc), ?_, ?_⟩
  · rw [hend, ← List.reverse_append, ← heq, List.reverse_reverse]
  · rw [hend, List.getLast?_reverse]
    exact hhead

theorem pads_trim (cs : List Char) : Pads cs (trim cs) := by
  obtain ⟨front, hfront, hcs, hhead⟩ := exists_trimStart cs
  obtain ⟨back, hback, hrest, hlast⟩ := exists_trimEnd (trimStart cs)
  refine ⟨⟨fun c hc => hhead c ?_, hlast⟩, front, back, hfront, hback, ?_⟩
  · rw [hrest, List.head?_append]
    exact Option.mem_def.2 (by rw [show (trimEnd (trimStart cs)).head? = some c from hc]; rfl)
  · rw [List.append_assoc]
    exact hcs.trans (congrArg (front ++ ·) hrest)

theorem trim_eq_of_pads {cs core : List Char} (h : Pads cs core) : trim cs = core := by
  obtain ⟨front, back, hfront, hback, rfl⟩ := h.around
  unfold trim
  cases hcore : core with
  | nil =>
    have hall : Blanks (front ++ back) := blanks_append.2 ⟨hfront, hback⟩
    have hstart : trimStart (front ++ back ++ []) = [] :=
      trimStart_blanks_append hall (by simp)
    rw [List.append_nil] at hstart ⊢
    rw [hstart]
    rfl
  | cons c cs =>
    have hhead : ∀ x ∈ (c :: cs ++ back).head?, isBlank x = false := by
      intro x hx
      exact h.bare.front x (by rw [hcore]; exact hx)
    have hlast : ∀ x ∈ (c :: cs).getLast?, isBlank x = false := by
      rw [← hcore]
      exact h.bare.back
    rw [List.append_assoc, trimStart_blanks_append hfront hhead, trimEnd_append_blanks hback hlast]

/-- Trimming gives the core that the text pads. -/
theorem trim_eq_iff {cs core : List Char} : trim cs = core ↔ Pads cs core :=
  ⟨fun h => h ▸ pads_trim cs, trim_eq_of_pads⟩

theorem Bare.pads {cs : List Char} (h : Bare cs) : Pads cs cs :=
  ⟨h, [], [], blanks_nil, blanks_nil, by simp⟩

theorem Bare.trim_eq {cs : List Char} (h : Bare cs) : trim cs = cs := trim_eq_of_pads h.pads

theorem bare_trim (cs : List Char) : Bare (trim cs) := (pads_trim cs).bare

theorem trim_trim (cs : List Char) : trim (trim cs) = trim cs := (bare_trim cs).trim_eq

theorem trimmed_trimmed (s : String) : trimmed (trimmed s) = trimmed s := by
  unfold trimmed
  rw [String.toList_ofList, trim_trim]

theorem Pads.subset {cs core : List Char} (h : Pads cs core) {c : Char} (hc : c ∈ core) :
    c ∈ cs := by
  obtain ⟨front, back, -, -, rfl⟩ := h.around
  simp [hc]

theorem mem_of_mem_trim {cs : List Char} {c : Char} (h : c ∈ trim cs) : c ∈ cs :=
  (pads_trim cs).subset h

theorem pads_nil_iff {cs : List Char} : Pads cs [] ↔ Blanks cs := by
  constructor
  · intro h
    obtain ⟨front, back, hfront, hback, rfl⟩ := h.around
    rw [List.append_nil]
    exact blanks_append.2 ⟨hfront, hback⟩
  · intro h
    exact ⟨bare_nil, cs, [], h, blanks_nil, by simp⟩

theorem trim_eq_nil_iff {cs : List Char} : trim cs = [] ↔ Blanks cs :=
  trim_eq_iff.trans pads_nil_iff

/-- Blanks put around a text do not change its core. -/
theorem trim_append_blanks {front back : List Char} (hfront : Blanks front) (hback : Blanks back)
    (cs : List Char) : trim (front ++ (cs ++ back)) = trim cs := by
  obtain ⟨hbare, inner, inner', hinner, hinner', hcs⟩ := pads_trim cs
  refine trim_eq_of_pads ⟨hbare, front ++ inner, inner' ++ back, blanks_append.2 ⟨hfront, hinner⟩,
    blanks_append.2 ⟨hinner', hback⟩, ?_⟩
  have hjoined := congrArg (fun middle => front ++ (middle ++ back)) hcs
  simpa only [List.append_assoc] using hjoined

theorem head?_append_of_ne_nil {xs : List Char} (h : xs ≠ []) (ys : List Char) :
    (xs ++ ys).head? = xs.head? := by
  obtain ⟨c, cs, rfl⟩ := List.exists_cons_of_ne_nil h
  rfl

theorem getLast?_append_of_ne_nil (xs : List Char) {ys : List Char} (h : ys ≠ []) :
    (xs ++ ys).getLast? = ys.getLast? := by
  rw [List.getLast?_append, List.getLast?_eq_some_getLast h]
  rfl

theorem Bare.head?_append {xs : List Char} (h : Bare xs) (hne : xs ≠ []) (ys : List Char) :
    ∀ c ∈ (xs ++ ys).head?, isBlank c = false := by
  rw [head?_append_of_ne_nil hne]
  exact h.front

/-- Only the ends of a text decide whether it is bare. -/
theorem bare_append {xs mid ys : List Char} (hx : Bare xs) (hxne : xs ≠ []) (hy : Bare ys)
    (hyne : ys ≠ []) : Bare (xs ++ (mid ++ ys)) := by
  refine ⟨hx.head?_append hxne _, fun c hc => hy.back c ?_⟩
  rwa [getLast?_append_of_ne_nil xs (by simp [hyne]), getLast?_append_of_ne_nil mid hyne] at hc

theorem intercalate_ne_nil {sep : Char} {parts : List (List Char)} (hne : parts ≠ [])
    (hparts : ∀ part ∈ parts, part ≠ []) : [sep].intercalate parts ≠ [] := by
  match parts, hne, hparts with
  | [part], _, hparts =>
    rw [List.intercalate_singleton]
    exact hparts part List.mem_cons_self
  | first :: second :: rest, _, _ =>
    rw [List.intercalate_cons_cons]
    simp

theorem bare_intercalate {sep : Char} {parts : List (List Char)}
    (hparts : ∀ part ∈ parts, part ≠ [] ∧ Bare part) : Bare ([sep].intercalate parts) := by
  induction parts with
  | nil => exact bare_nil
  | cons first parts ih =>
    obtain ⟨⟨hfirst, hbare⟩, hrest⟩ := List.forall_mem_cons.1 hparts
    cases parts with
    | nil =>
      rw [List.intercalate_singleton]
      exact hbare
    | cons second parts =>
      have htail := @intercalate_ne_nil sep _ (List.cons_ne_nil second parts)
        fun part hpart => (hrest part hpart).1
      rw [List.intercalate_cons_cons, List.append_assoc]
      exact bare_append hbare hfirst (ih hrest) htail

/-! ## Leads and runs -/

theorem dropLead_eq_some_iff {lead cs rest : List Char} :
    dropLead lead cs = some rest ↔ cs = lead ++ rest := by
  unfold dropLead
  constructor
  · intro h
    split at h
    · next hlead =>
      obtain ⟨tail, rfl⟩ := List.isPrefixOf_iff_prefix.1 hlead
      rw [List.drop_left, Option.some.injEq] at h
      rw [h]
    · cases h
  · rintro rfl
    rw [if_pos (List.isPrefixOf_iff_prefix.2 (List.prefix_append lead rest)), List.drop_left]

/-- A run of one class of characters ends where the next class begins. -/
theorem append_inj_of_class {p : Char → Bool} {xs ys rest rest' : List Char}
    (hx : ∀ c ∈ xs, p c = true) (hy : ∀ c ∈ ys, p c = true)
    (hr : ∀ c ∈ rest.head?, p c = false) (hr' : ∀ c ∈ rest'.head?, p c = false)
    (h : xs ++ rest = ys ++ rest') : xs = ys ∧ rest = rest' := by
  have hstop : ∀ {tail : List Char}, (∀ c ∈ tail.head?, p c = false) → tail.takeWhile p = [] := by
    intro tail htail
    cases tail with
    | nil => rfl
    | cons c tail =>
      have hc : p c = false := htail c rfl
      rw [List.takeWhile_cons_of_neg (by simp [hc])]
  have hruns := congrArg (List.takeWhile p) h
  rw [List.takeWhile_append_of_pos hx, List.takeWhile_append_of_pos hy, hstop hr, hstop hr',
    List.append_nil, List.append_nil] at hruns
  subst hruns
  exact ⟨rfl, List.append_cancel_left h⟩

/-! ## Pieces -/

theorem splitBy_cons_of_neg {p : Char → Bool} {c : Char} (h : p c = false) (cs : List Char) :
    ∃ first rest,
      splitBy p cs = first :: rest ∧ splitBy p (c :: cs) = (c :: first) :: rest := by
  obtain ⟨first, rest, hsplit⟩ := List.exists_cons_of_ne_nil (splitBy_ne_nil p cs)
  refine ⟨first, rest, hsplit, ?_⟩
  rw [splitBy, hsplit]
  simp [h]

theorem of_mem_splitBy {p : Char → Bool} {cs part : List Char} (h : part ∈ splitBy p cs) :
    ∀ c ∈ part, c ∈ cs ∧ p c = false := by
  induction cs generalizing part with
  | nil =>
    have hpart : part = [] := by simpa [splitBy] using h
    simp [hpart]
  | cons d cs ih =>
    have hrest : ∀ {part}, part ∈ splitBy p cs → ∀ c ∈ part, c ∈ d :: cs ∧ p c = false :=
      fun hpart c hc => (ih hpart c hc).imp_left (List.mem_cons_of_mem d)
    cases hd : p d with
    | true =>
      rw [splitBy_cons_of_pos cs hd] at h
      rcases List.mem_cons.1 h with rfl | h
      · simp
      · exact hrest h
    | false =>
      obtain ⟨first, rest, hcs, hsplit⟩ := splitBy_cons_of_neg hd cs
      rw [hsplit] at h
      rcases List.mem_cons.1 h with rfl | h
      · exact List.forall_mem_cons.2 ⟨⟨List.mem_cons_self, hd⟩, hrest (by simp [hcs])⟩
      · exact hrest (by simp [hcs, h])

theorem splitBy_eq_singleton {p : Char → Bool} {cs : List Char} (h : ∀ c ∈ cs, p c = false) :
    splitBy p cs = [cs] := by
  induction cs with
  | nil => rfl
  | cons c cs ih =>
    obtain ⟨hc, hcs⟩ := List.forall_mem_cons.1 h
    obtain ⟨first, rest, hrest, hsplit⟩ := splitBy_cons_of_neg hc cs
    rw [ih hcs] at hrest
    cases hrest
    exact hsplit

theorem not_mem_of_mem_splitOn {sep : Char} {cs part : List Char} (h : part ∈ splitOn sep cs) :
    sep ∉ part := by
  intro hsep
  have hother := (of_mem_splitBy h sep hsep).2
  simp at hother

theorem pieces_splitOn (sep : Char) (cs : List Char) : Pieces sep cs (splitOn sep cs) := by
  refine ⟨splitBy_ne_nil _ cs, fun part hpart => not_mem_of_mem_splitOn hpart, ?_⟩
  unfold splitOn
  rw [splitBy_eq_splitOnP, ← List.splitOn_eq_splitOnP]
  exact (List.intercalate_splitOn sep).symm

/-- Cutting gives the pieces of the text. -/
theorem splitOn_eq_iff {sep : Char} {cs : List Char} {parts : List (List Char)} :
    splitOn sep cs = parts ↔ Pieces sep cs parts := by
  constructor
  · rintro rfl
    exact pieces_splitOn sep cs
  · intro h
    rw [h.joined]
    exact splitOn_intercalate h.ne_nil h.free

theorem mem_intercalate_of_mem {sep c : Char} {part : List Char} {parts : List (List Char)}
    (hpart : part ∈ parts) (hc : c ∈ part) : c ∈ [sep].intercalate parts := by
  induction parts with
  | nil => exact absurd hpart List.not_mem_nil
  | cons first parts ih =>
    cases parts with
    | nil =>
      rw [List.intercalate_singleton, ← List.mem_singleton.1 hpart]
      exact hc
    | cons second parts =>
      rw [List.intercalate_cons_cons]
      rcases List.mem_cons.1 hpart with rfl | hpart
      · simp [hc]
      · exact List.mem_append_right _ (ih hpart)

theorem Pieces.mem {sep c : Char} {cs part : List Char} {parts : List (List Char)}
    (h : Pieces sep cs parts) (hpart : part ∈ parts) (hc : c ∈ part) : c ∈ cs := by
  rw [h.joined]
  exact mem_intercalate_of_mem hpart hc

/-! ## Words -/

theorem of_mem_words {cs word : List Char} (h : word ∈ words cs) :
    word ≠ [] ∧ ∀ c ∈ word, c ∈ cs ∧ isBlank c = false := by
  obtain ⟨hsplit, hne⟩ := List.mem_filter.1 h
  exact ⟨by simpa using hne, of_mem_splitBy hsplit⟩

/-- A text without blanks is a word. -/
theorem words_eq_singleton {cs : List Char} (hne : cs ≠ []) (h : ∀ c ∈ cs, isBlank c = false) :
    words cs = [cs] := by
  rw [words, splitBy_eq_singleton h]
  simp [hne]

/-! ## Pieces between a separating text -/

theorem splitOnTextFrom_skip (sep xs rest : List Char) :
    splitOnTextFrom sep xs.length (xs ++ rest) = splitOnTextFrom sep 0 rest := by
  induction xs with
  | nil => rfl
  | cons x xs ih =>
    rw [List.length_cons, List.cons_append, splitOnTextFrom, ih]

/-- A separator in front cuts off an empty piece, and cutting goes on behind it. -/
theorem splitOnText_append_self {sep : List Char} (hne : sep ≠ []) (rest : List Char) :
    splitOnText sep (sep ++ rest) = [] :: splitOnText sep rest := by
  obtain ⟨c, tail, rfl⟩ := List.exists_cons_of_ne_nil hne
  have hfront : (c :: tail).isPrefixOf (c :: (tail ++ rest)) = true :=
    List.isPrefixOf_iff_prefix.2 (List.prefix_append (c :: tail) rest)
  unfold splitOnText
  rw [List.cons_append, splitOnTextFrom, if_pos hfront, List.length_cons, Nat.add_sub_cancel,
    splitOnTextFrom_skip]

theorem splitOnTextFrom_ne_nil (sep : List Char) (skip : Nat) (cs : List Char) :
    splitOnTextFrom sep skip cs ≠ [] := by
  fun_induction splitOnTextFrom sep skip cs with
  | case1 => simp
  | case2 skip c cs ih => exact ih
  | case3 => simp
  | case4 => simp
  | case5 => simp

/-- A character that begins no separator belongs to the first piece. -/
theorem splitOnText_cons {sep cs : List Char} {c : Char} (h : ¬ sep <+: c :: cs) :
    splitOnText sep (c :: cs) = (splitOnText sep cs).modifyHead (c :: ·) := by
  have hfront : ¬ sep.isPrefixOf (c :: cs) = true := fun hp => h (List.isPrefixOf_iff_prefix.1 hp)
  obtain ⟨first, rest, hsplit⟩ := List.exists_cons_of_ne_nil (splitOnTextFrom_ne_nil sep 0 cs)
  unfold splitOnText
  rw [splitOnTextFrom, if_neg hfront, hsplit]
  rfl

/-- So do all characters in front of the first one that a separator can begin with. -/
theorem splitOnText_append {d : Char} {tail front : List Char} (h : d ∉ front) (rest : List Char) :
    splitOnText (d :: tail) (front ++ rest) =
      (splitOnText (d :: tail) rest).modifyHead (front ++ ·) := by
  induction front with
  | nil =>
    obtain ⟨first, pieces, hsplit⟩ :=
      List.exists_cons_of_ne_nil (splitOnTextFrom_ne_nil (d :: tail) 0 rest)
    unfold splitOnText
    rw [List.nil_append, hsplit]
    rfl
  | cons c front ih =>
    obtain ⟨hc, hfront⟩ := List.ne_and_not_mem_of_not_mem_cons h
    have hnot : ¬ d :: tail <+: c :: (front ++ rest) := fun hp => hc (List.cons_prefix_cons.1 hp).1
    obtain ⟨first, pieces, hsplit⟩ :=
      List.exists_cons_of_ne_nil (splitOnTextFrom_ne_nil (d :: tail) 0 rest)
    have hfirst : splitOnText (d :: tail) rest = first :: pieces := hsplit
    rw [List.cons_append, splitOnText_cons hnot, ih hfront, hfirst]
    rfl

theorem splitOnText_of_not_mem {d : Char} {tail cs : List Char} (h : d ∉ cs) :
    splitOnText (d :: tail) cs = [cs] := by
  have hsplit : splitOnText (d :: tail) (cs ++ []) =
      (splitOnText (d :: tail) []).modifyHead (cs ++ ·) := splitOnText_append h []
  rw [List.append_nil] at hsplit
  rw [hsplit]
  simp [splitOnText, splitOnTextFrom]

/-! ## Lines -/

theorem mem_of_mem_dropReturn {cs : List Char} {c : Char} (h : c ∈ dropReturn cs) : c ∈ cs := by
  unfold dropReturn at h
  split at h
  · exact (List.dropLast_sublist cs).subset h
  · exact h

theorem newline_not_mem_lines {cs row : List Char} (h : row ∈ lines cs) : '\n' ∉ row := by
  have hfree : ∀ piece ∈ splitOn '\n' cs, '\n' ∉ piece := fun _ => not_mem_of_mem_splitOn
  unfold lines at h
  rcases List.mem_append.1 h with h | h
  · obtain ⟨piece, hpiece, rfl⟩ := List.mem_map.1 h
    have hmem := (List.dropLast_sublist _).subset hpiece
    exact fun hc => hfree piece hmem (mem_of_mem_dropReturn hc)
  · have hne := splitBy_ne_nil (· == '\n') cs
    have hlast : (splitOn '\n' cs).getLast?.getD [] ∈ splitOn '\n' cs := by
      unfold splitOn
      rw [List.getLast?_eq_some_getLast hne]
      exact List.getLast_mem hne
    split at h
    · exact absurd h List.not_mem_nil
    · rw [List.mem_singleton.1 h]
      exact hfree _ hlast

theorem newline_not_mem_linesOf {s row : String} (h : row ∈ linesOf s) : '\n' ∉ row.toList := by
  obtain ⟨cs, hcs, rfl⟩ := List.mem_map.1 h
  rw [String.toList_ofList]
  exact newline_not_mem_lines hcs

theorem dropReturn_eq_self {cs : List Char} (h : cs.getLast? ≠ some '\r') : dropReturn cs = cs := by
  unfold dropReturn
  rw [if_neg h]

theorem map_dropReturn_eq_self {rows : List (List Char)}
    (h : ∀ row ∈ rows, row.getLast? ≠ some '\r') : rows.map dropReturn = rows :=
  (List.map_congr_left fun row hrow => dropReturn_eq_self (h row hrow)).trans (List.map_id _)

/-- Rows that each end with a line feed are the lines of their text. -/
theorem lines_terminated {rows : List (List Char)} (hfree : ∀ row ∈ rows, '\n' ∉ row)
    (hend : ∀ row ∈ rows, row.getLast? ≠ some '\r') :
    lines (['\n'].intercalate (rows ++ [[]])) = rows := by
  have hsplit : splitOn '\n' (['\n'].intercalate (rows ++ [[]])) = rows ++ [[]] := by
    refine splitOn_intercalate (by simp) fun row hrow => ?_
    rcases List.mem_append.1 hrow with hrow | hrow
    · exact hfree row hrow
    · rw [List.mem_singleton.1 hrow]
      exact List.not_mem_nil
  unfold lines
  rw [hsplit]
  simp [map_dropReturn_eq_self hend]

/-- A last row without a line feed behind it is a line as well, unless it is empty. -/
theorem lines_separated {rows : List (List Char)} (hfree : ∀ row ∈ rows, '\n' ∉ row)
    (hend : ∀ row ∈ rows, row.getLast? ≠ some '\r') (hne : ∀ row ∈ rows, row ≠ []) :
    lines (['\n'].intercalate rows) = rows := by
  rcases List.eq_nil_or_concat rows with rfl | ⟨front, last, rfl⟩
  · rfl
  · rw [List.concat_eq_append] at *
    have hsplit : splitOn '\n' (['\n'].intercalate (front ++ [last])) = front ++ [last] :=
      splitOn_intercalate (by simp) hfree
    have hlast : last ≠ [] := hne last (by simp)
    have hfront : front.map dropReturn = front :=
      map_dropReturn_eq_self fun row hrow => hend row (List.mem_append_left _ hrow)
    unfold lines
    rw [hsplit]
    simp [hfront, hlast]

theorem intercalate_concat_nil (sep : Char) (rows : List (List Char)) :
    [sep].intercalate (rows ++ [[]]) = rows.flatMap (· ++ [sep]) := by
  induction rows with
  | nil => rfl
  | cons first rows ih =>
    obtain ⟨second, rest, hrest⟩ := List.exists_cons_of_ne_nil (l := rows ++ [[]]) (by simp)
    rw [List.cons_append, hrest, List.intercalate_cons_cons, ← hrest, ih, List.flatMap_cons]

/-- Each row ends with a line feed. -/
theorem linesOf_join {rows : List String} (hfree : ∀ row ∈ rows, '\n' ∉ row.toList)
    (hend : ∀ row ∈ rows, row.toList.getLast? ≠ some '\r') :
    linesOf (String.join (rows.map (· ++ "\n"))) = rows := by
  have htext : (String.join (rows.map (· ++ "\n"))).toList =
      ['\n'].intercalate (rows.map String.toList ++ [[]]) := by
    rw [intercalate_concat_nil, String.toList_join]
    simp [List.flatMap_map]
  unfold linesOf
  rw [htext, lines_terminated (List.forall_mem_map.2 hfree) (List.forall_mem_map.2 hend)]
  simp [Function.comp_def]

/-- A line feed stands between neighbours only. -/
theorem linesOf_joinWith {rows : List String} (hfree : ∀ row ∈ rows, '\n' ∉ row.toList)
    (hend : ∀ row ∈ rows, row.toList.getLast? ≠ some '\r') (hne : ∀ row ∈ rows, row.toList ≠ []) :
    linesOf (joinWith "\n" rows) = rows := by
  have htext : (joinWith "\n" rows).toList = ['\n'].intercalate (rows.map String.toList) := by
    simp [joinWith, String.toList_intercalate]
  unfold linesOf
  rw [htext, lines_separated (List.forall_mem_map.2 hfree) (List.forall_mem_map.2 hend)
    (List.forall_mem_map.2 hne)]
  simp [Function.comp_def]

end SchemaShaper.Text

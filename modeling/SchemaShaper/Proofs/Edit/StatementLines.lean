import SchemaShaper.Edit.Statement
import SchemaShaper.Proofs.Index.Grammar
import Mathlib.Data.Set.Subsingleton

/-!
# The lines that are statements

A statement line is `del`, what it deletes, and a target, with blanks between them. `LineParts`
holds these parts as they are written; no line has two such decompositions (`line_injective`).
A line is read as the statement its parts name (`Writes`), a line whose parts end in a bad index
spec is refused with the fault of that spec (`WritesBadIndex`), and every other line is no
statement (`parse_by_parts`).

Keywords are no obstacle to this: a table may be called `fk` or `pattern:x`, since the word for the
table ends at the first blank whatever it is.
-/

namespace SchemaShaper.Statement

/-! ## Parts of a line -/

/-- Blanks between two parts, at least one. -/
structure Gap where
  chars : List Char
  ne_nil : chars ≠ []
  blanks : Text.Blanks chars

/-- A text of at least one character without blanks. -/
structure Word where
  chars : List Char
  ne_nil : chars ≠ []
  unbroken : ∀ c ∈ chars, Text.isBlank c = false

/-- What a line deletes. -/
inductive Subject where
  | tables
  | columns (gap : Gap) (table : Word)
  | keys

/-- How a target is given. -/
inductive Label where
  | pattern
  | index

/-- A statement line in its parts. -/
structure LineParts where
  gap : Gap
  subject : Subject
  gap' : Gap
  label : Label
  text : List Char

def Subject.text : Subject → List Char
  | tables => "table".toList
  | columns gap table => "column".toList ++ (gap.chars ++ table.chars)
  | keys => "fk".toList

-- Rewriting uses these three; equations generated from `Subject.text` evaluate the keywords.
@[simp] theorem Subject.text_tables : tables.text = "table".toList := rfl

@[simp] theorem Subject.text_columns (gap : Gap) (table : Word) :
    (columns gap table).text = "column".toList ++ (gap.chars ++ table.chars) := rfl

@[simp] theorem Subject.text_keys : keys.text = "fk".toList := rfl

/-- The statement about this subject; the table word `*` means every table. -/
def Subject.statement : Subject → Target → Statement
  | tables => deleteTables
  | columns _ table =>
    deleteColumns (if table.chars = ['*'] then .all else .named (String.ofList table.chars))
  | keys => deleteKeys

def Label.word : Label → String
  | pattern => "pattern:"
  | index => "index:"

namespace LineParts

/-- The target as written. -/
def target (p : LineParts) : List Char := p.label.word.toList ++ p.text

/-- The line without blanks around it. -/
def line (p : LineParts) : List Char :=
  "del".toList ++ (p.gap.chars ++ (p.subject.text ++ (p.gap'.chars ++ p.target)))

end LineParts

/-- The text behind a label writes the target. -/
inductive TargetText : Label → List Char → Target → Prop
  | pattern {text : List Char} (h : ¬ Text.Blanks text) :
      TargetText .pattern text (.pattern (Glob.ofString (String.ofList (Text.trim text))))
  | index {text : List Char} {spec : Index.Spec}
      (h : Index.Spec.parse (String.ofList text) = .ok spec) : TargetText .index text (.index spec)

/-- The line writes the statement. -/
def Writes (line : String) (s : Statement) : Prop :=
  ∃ p : LineParts, Text.Pads line.toList p.line ∧
    ∃ target, TargetText p.label p.text target ∧ s = p.subject.statement target

/-- The parts of the line end in an index spec that is refused for this reason. -/
def WritesBadIndex (line spec : String) (reason : Index.SpecError) : Prop :=
  ∃ p : LineParts, Text.Pads line.toList p.line ∧ p.label = .index ∧
    spec = String.ofList (Text.trim p.text) ∧ Index.Spec.parse spec = .error reason

/-! ## One decomposition -/

theorem Gap.ext {a b : Gap} (h : a.chars = b.chars) : a = b := by
  cases a
  cases b
  cases h
  rfl

theorem Word.ext {a b : Word} (h : a.chars = b.chars) : a = b := by
  cases a
  cases b
  cases h
  rfl

theorem Gap.head?_append (g : Gap) (rest : List Char) :
    ∀ c ∈ (g.chars ++ rest).head?, Text.isBlank c = true := by
  rw [Text.head?_append_of_ne_nil g.ne_nil]
  exact fun c hc => g.blanks c (List.mem_of_mem_head? hc)

theorem Word.head?_append (w : Word) (rest : List Char) :
    ∀ c ∈ (w.chars ++ rest).head?, Text.isBlank c = false := by
  rw [Text.head?_append_of_ne_nil w.ne_nil]
  exact fun c hc => w.unbroken c (List.mem_of_mem_head? hc)

theorem Gap.append_inj {a b : Gap} {xs ys : List Char}
    (hx : ∀ c ∈ xs.head?, Text.isBlank c = false) (hy : ∀ c ∈ ys.head?, Text.isBlank c = false)
    (h : a.chars ++ xs = b.chars ++ ys) : a = b ∧ xs = ys := by
  obtain ⟨hchars, hrest⟩ := Text.append_inj_of_class a.blanks b.blanks hx hy h
  exact ⟨Gap.ext hchars, hrest⟩

theorem Word.append_gap_inj {v w : Word} {a b : Gap} {xs ys : List Char}
    (h : v.chars ++ (a.chars ++ xs) = w.chars ++ (b.chars ++ ys)) :
    v = w ∧ a.chars ++ xs = b.chars ++ ys := by
  have hrun : ∀ w : Word, ∀ c ∈ w.chars, (!Text.isBlank c) = true := by
    intro w c hc
    rw [w.unbroken c hc]
    rfl
  have hstop : ∀ (g : Gap) (rest : List Char), ∀ c ∈ (g.chars ++ rest).head?,
      (!Text.isBlank c) = false := by
    intro g rest c hc
    rw [g.head?_append rest c hc]
    rfl
  obtain ⟨hchars, hrest⟩ :=
    Text.append_inj_of_class (hrun v) (hrun w) (hstop a xs) (hstop b ys) h
  exact ⟨Word.ext hchars, hrest⟩

theorem Label.head?_word (l : Label) (rest : List Char) :
    ∀ c ∈ (l.word.toList ++ rest).head?, Text.isBlank c = false := by
  cases l with
  | pattern => exact Text.Bare.head?_append (by decide) (by decide) rest
  | index => exact Text.Bare.head?_append (by decide) (by decide) rest

theorem Subject.head?_text (s : Subject) (rest : List Char) :
    ∀ c ∈ (s.text ++ rest).head?, Text.isBlank c = false := by
  cases s with
  | tables => exact Text.Bare.head?_append (by decide) (by decide) rest
  | columns gap table =>
    rw [Subject.text_columns, List.append_assoc]
    exact Text.Bare.head?_append (by decide) (by decide) _
  | keys => exact Text.Bare.head?_append (by decide) (by decide) rest

theorem Label.append_inj {l m : Label} {xs ys : List Char}
    (h : l.word.toList ++ xs = m.word.toList ++ ys) : l = m ∧ xs = ys := by
  cases l with
  | pattern =>
    cases m with
    | pattern => exact ⟨rfl, List.append_cancel_left h⟩
    | index => exact absurd h (by simp [Label.word])
  | index =>
    cases m with
    | pattern => exact absurd h (by simp [Label.word])
    | index => exact ⟨rfl, List.append_cancel_left h⟩

theorem Subject.append_gap_inj {s t : Subject} {a b : Gap} {xs ys : List Char}
    (hx : ∀ c ∈ xs.head?, Text.isBlank c = false) (hy : ∀ c ∈ ys.head?, Text.isBlank c = false)
    (h : s.text ++ (a.chars ++ xs) = t.text ++ (b.chars ++ ys)) : s = t ∧ a = b ∧ xs = ys := by
  cases s with
  | tables =>
    cases t with
    | tables => exact ⟨rfl, Gap.append_inj hx hy (List.append_cancel_left h)⟩
    | columns => exact absurd h (by simp)
    | keys => exact absurd h (by simp)
  | columns gap table =>
    cases t with
    | tables => exact absurd h (by simp)
    | columns gap' table' =>
      simp only [Subject.text_columns, List.append_assoc] at h
      have hgaps := List.append_cancel_left h
      obtain ⟨rfl, hwords⟩ := Gap.append_inj (table.head?_append _) (table'.head?_append _) hgaps
      obtain ⟨rfl, hrest⟩ := Word.append_gap_inj hwords
      exact ⟨rfl, Gap.append_inj hx hy hrest⟩
    | keys => exact absurd h (by simp)
  | keys =>
    cases t with
    | tables => exact absurd h (by simp)
    | columns => exact absurd h (by simp)
    | keys => exact ⟨rfl, Gap.append_inj hx hy (List.append_cancel_left h)⟩

/-- A line has one decomposition. -/
theorem LineParts.line_injective : Function.Injective LineParts.line := by
  rintro ⟨gap, subject, gap', label, text⟩ ⟨gapq, subjectq, gapq', labelq, textq⟩ h
  have hbehind := List.append_cancel_left h
  obtain ⟨rfl, hrest⟩ := Gap.append_inj (subject.head?_text _) (subjectq.head?_text _) hbehind
  obtain ⟨rfl, rfl, htarget⟩ :=
    Subject.append_gap_inj (label.head?_word text) (labelq.head?_word textq) hrest
  obtain ⟨rfl, rfl⟩ := Label.append_inj htarget
  rfl

/-! ## Reading a target -/

theorem readTarget_pattern (line text : List Char) :
    readTarget line (Label.pattern.word.toList ++ text) =
      if Text.Blanks text then .error (.invalidStatement (String.ofList line))
      else .ok (.pattern (Glob.ofString (String.ofList (Text.trim text)))) := by
  have hlead : Text.dropLead "pattern:".toList (Label.pattern.word.toList ++ text) = some text :=
    Text.dropLead_eq_some_iff.2 rfl
  unfold readTarget
  rw [hlead]
  simp only [List.isEmpty_iff, Text.trim_eq_nil_iff]

theorem readTarget_index (line text : List Char) :
    readTarget line (Label.index.word.toList ++ text) =
      match Index.Spec.parse (String.ofList (Text.trim text)) with
      | .ok spec => .ok (.index spec)
      | .error reason => .error (.invalidIndexSpec (String.ofList (Text.trim text)) reason) := by
  have hpattern : Text.dropLead "pattern:".toList (Label.index.word.toList ++ text) = none := by
    simp [Text.dropLead, Label.word]
  have hindex : Text.dropLead "index:".toList (Label.index.word.toList ++ text) = some text :=
    Text.dropLead_eq_some_iff.2 rfl
  unfold readTarget
  cases hspec : Index.Spec.parse (String.ofList (Text.trim text)) with
  | ok spec => simp only [hpattern, hindex, hspec]
  | error reason => simp only [hpattern, hindex, hspec]

/-- A target without a label is refused. -/
theorem exists_label_or_invalid (line cs : List Char) :
    (∃ (label : Label) (text : List Char), cs = label.word.toList ++ text) ∨
      readTarget line cs = .error (.invalidStatement (String.ofList line)) := by
  cases hpattern : Text.dropLead "pattern:".toList cs with
  | some text => exact Or.inl ⟨.pattern, text, Text.dropLead_eq_some_iff.1 hpattern⟩
  | none =>
    cases hindex : Text.dropLead "index:".toList cs with
    | some text => exact Or.inl ⟨.index, text, Text.dropLead_eq_some_iff.1 hindex⟩
    | none =>
      refine Or.inr ?_
      unfold readTarget
      rw [hpattern, hindex]

/-- Blanks around a spec do not count. -/
theorem parse_trim_eq_ok_iff {text : List Char} {spec : Index.Spec} :
    Index.Spec.parse (String.ofList (Text.trim text)) = .ok spec ↔
      Index.Spec.parse (String.ofList text) = .ok spec := by
  have hpads : ∀ core, Text.Pads (String.ofList (Text.trim text)).toList core ↔
      Text.Pads (String.ofList text).toList core := by
    intro core
    simp only [String.toList_ofList, ← Text.trim_eq_iff, Text.trim_trim]
  rw [Index.Spec.parse_eq_ok_iff, Index.Spec.parse_eq_ok_iff]
  constructor
  · intro h
    cases h with
    | noTerm hpad hblank => exact .noTerm ((hpads _).1 hpad) hblank
    | terms hpad hbody hpieces h => exact .terms ((hpads _).1 hpad) hbody hpieces h
  · intro h
    cases h with
    | noTerm hpad hblank => exact .noTerm ((hpads _).2 hpad) hblank
    | terms hpad hbody hpieces h => exact .terms ((hpads _).2 hpad) hbody hpieces h

theorem readTarget_eq_ok_iff {line text : List Char} {label : Label} {target : Target} :
    readTarget line (label.word.toList ++ text) = .ok target ↔ TargetText label text target := by
  cases label with
  | pattern =>
    rw [readTarget_pattern]
    constructor
    · intro h
      split at h
      · cases h
      · next hblank =>
        cases h
        exact .pattern hblank
    · intro h
      cases h with
      | pattern hblank => rw [if_neg hblank]
  | index =>
    rw [readTarget_index]
    constructor
    · intro h
      split at h
      · next hspec =>
        cases h
        exact .index (parse_trim_eq_ok_iff.1 hspec)
      · cases h
    · intro h
      cases h with
      | index hspec => rw [parse_trim_eq_ok_iff.2 hspec]

theorem readTarget_eq_invalidIndexSpec_iff {line text : List Char} {label : Label} {spec : String}
    {reason : Index.SpecError} :
    readTarget line (label.word.toList ++ text) = .error (.invalidIndexSpec spec reason) ↔
      label = .index ∧ spec = String.ofList (Text.trim text) ∧
        Index.Spec.parse spec = .error reason := by
  cases label with
  | pattern =>
    rw [readTarget_pattern]
    constructor
    · intro h
      split at h <;> cases h
    · rintro ⟨h, -⟩
      cases h
  | index =>
    rw [readTarget_index]
    constructor
    · intro h
      split at h
      · cases h
      · next hspec =>
        cases h
        exact ⟨rfl, rfl, hspec⟩
    · rintro ⟨-, rfl, hspec⟩
      rw [hspec]

/-- Besides a bad index spec only the line as a whole is at fault. -/
theorem readTarget_error_cases {line cs : List Char} {e : EditError}
    (h : readTarget line cs = .error e) :
    e = .invalidStatement (String.ofList line) ∨
      ∃ spec reason, e = .invalidIndexSpec spec reason := by
  unfold readTarget at h
  split at h
  · dsimp only at h
    split at h
    · cases h
      exact Or.inl rfl
    · cases h
  · split at h
    · dsimp only at h
      split at h
      · cases h
      · cases h
        exact Or.inr ⟨_, _, rfl⟩
    · cases h
      exact Or.inl rfl

/-! ## Reading a line -/

/-- A blank begins a gap, which ends where trimming stops. -/
theorem exists_gap {c : Char} (hc : Text.isBlank c = true) (tail : List Char) :
    ∃ gap : Gap, c :: tail = gap.chars ++ Text.trimStart tail ∧
      ∀ c ∈ (Text.trimStart tail).head?, Text.isBlank c = false := by
  obtain ⟨front, hfront, htail, hhead⟩ := Text.exists_trimStart tail
  have hblanks : Text.Blanks (c :: front) := List.forall_mem_cons.2 ⟨hc, hfront⟩
  exact ⟨⟨c :: front, List.cons_ne_nil _ _, hblanks⟩, congrArg (c :: ·) htail, hhead⟩

theorem Gap.exists_cons (gap : Gap) (rest : List Char) :
    ∃ c tail, gap.chars ++ rest = c :: tail ∧ Text.isBlank c = true ∧
      ((∀ c ∈ rest.head?, Text.isBlank c = false) → Text.trimStart tail = rest) := by
  obtain ⟨chars, hne, hblanks⟩ := gap
  obtain ⟨c, front, rfl⟩ := List.exists_cons_of_ne_nil hne
  obtain ⟨hc, hfront⟩ := List.forall_mem_cons.1 hblanks
  exact ⟨c, front ++ rest, rfl, hc, Text.trimStart_blanks_append hfront⟩

theorem afterWord_eq_some_iff {word : String} {cs rest : List Char} :
    afterWord word cs = some rest ↔
      (∃ gap : Gap, cs = word.toList ++ (gap.chars ++ rest)) ∧
        ∀ c ∈ rest.head?, Text.isBlank c = false := by
  constructor
  · intro h
    unfold afterWord at h
    split at h
    · next c tail hlead =>
      split at h
      · next hc =>
        cases h
        obtain ⟨gap, hgap, hhead⟩ := exists_gap hc tail
        refine ⟨⟨gap, ?_⟩, hhead⟩
        rw [Text.dropLead_eq_some_iff.1 hlead, hgap]
      · cases h
    · cases h
  · rintro ⟨⟨gap, rfl⟩, hhead⟩
    obtain ⟨c, tail, htail, hc, hrest⟩ := gap.exists_cons rest
    have hlead : Text.dropLead word.toList (word.toList ++ c :: tail) = some (c :: tail) :=
      Text.dropLead_eq_some_iff.2 rfl
    unfold afterWord
    rw [htail, hlead]
    dsimp only
    rw [if_pos hc, hrest hhead]

theorem afterWord_append (word : String) (gap : Gap) {rest : List Char}
    (h : ∀ c ∈ rest.head?, Text.isBlank c = false) :
    afterWord word (word.toList ++ (gap.chars ++ rest)) = some rest :=
  afterWord_eq_some_iff.2 ⟨⟨gap, rfl⟩, h⟩

theorem cutAt_word (word : Word) (gap : Gap) (rest : List Char) :
    ∃ tail, Text.cutAt Text.isBlank (word.chars ++ (gap.chars ++ rest)) = some (word.chars, tail) ∧
      ((∀ c ∈ rest.head?, Text.isBlank c = false) → Text.trimStart tail = rest) := by
  obtain ⟨c, tail, htail, hc, hrest⟩ := gap.exists_cons rest
  rw [htail]
  exact ⟨tail, Text.cutAt_eq_some_iff.2 ⟨c, rfl, hc, word.unbroken⟩, hrest⟩

/-- The subject is found by its first word, whichever keywords are tried before. -/
theorem readLine_of_subject {line target : List Char} (s : Subject) (gap : Gap)
    (htarget : ∀ c ∈ target.head?, Text.isBlank c = false)
    (hline : afterWord "del" line = some (s.text ++ (gap.chars ++ target))) :
    readLine line = (readTarget line target).map s.statement := by
  unfold readLine
  rw [hline]
  cases s with
  | tables =>
    have htable : afterWord "table" (Subject.tables.text ++ (gap.chars ++ target)) = some target :=
      afterWord_append "table" gap htarget
    simp only [htable]
    rfl
  | columns between table =>
    -- The first character decides against the keyword tried before, whatever the table is called.
    have htable : afterWord "table"
        ((Subject.columns between table).text ++ (gap.chars ++ target)) = none := by
      simp [afterWord, Text.dropLead]
    have hcolumn : afterWord "column"
        ((Subject.columns between table).text ++ (gap.chars ++ target)) =
          some (table.chars ++ (gap.chars ++ target)) := by
      have hword := afterWord_append "column" between (table.head?_append (gap.chars ++ target))
      simpa only [Subject.text_columns, List.append_assoc] using hword
    obtain ⟨tail, hcut, htail⟩ := cutAt_word table gap target
    simp only [htable, hcolumn, hcut, htail htarget]
    rfl
  | keys =>
    have htable : afterWord "table" (Subject.keys.text ++ (gap.chars ++ target)) = none := by
      simp [afterWord, Text.dropLead]
    have hcolumn : afterWord "column" (Subject.keys.text ++ (gap.chars ++ target)) = none := by
      simp [afterWord, Text.dropLead]
    have hkeys : afterWord "fk" (Subject.keys.text ++ (gap.chars ++ target)) = some target :=
      afterWord_append "fk" gap htarget
    simp only [htable, hcolumn, hkeys]
    rfl

theorem readLine_line (p : LineParts) :
    readLine p.line = (readTarget p.line p.target).map p.subject.statement :=
  readLine_of_subject p.subject p.gap' (p.label.head?_word p.text)
    (afterWord_append "del" p.gap (p.subject.head?_text _))

/-- What is behind the keyword `del` is a subject and a target, or the line is refused. -/
theorem exists_subject_or_invalid {line rest : List Char}
    (hline : afterWord "del" line = some rest) :
    (∃ (s : Subject) (gap : Gap) (target : List Char), rest = s.text ++ (gap.chars ++ target) ∧
      ∀ c ∈ target.head?, Text.isBlank c = false) ∨
      readLine line = .error (.invalidStatement (String.ofList line)) := by
  cases htable : afterWord "table" rest with
  | some target =>
    obtain ⟨⟨gap, heq⟩, hhead⟩ := afterWord_eq_some_iff.1 htable
    exact Or.inl ⟨.tables, gap, target, heq, hhead⟩
  | none =>
    cases hcolumn : afterWord "column" rest with
    | some behind =>
      obtain ⟨⟨between, heq⟩, hhead⟩ := afterWord_eq_some_iff.1 hcolumn
      -- There is no way back to `fk` from here, and no line needs one.
      cases hcut : Text.cutAt Text.isBlank behind with
      | none =>
        refine Or.inr ?_
        unfold readLine
        simp only [hline, htable, hcolumn, hcut]
      | some parts =>
        obtain ⟨table, tail⟩ := parts
        obtain ⟨c, rfl, hc, hunbroken⟩ := Text.cutAt_eq_some_iff.1 hcut
        obtain ⟨gap, hgap, htarget⟩ := exists_gap hc tail
        -- The word is not empty, since the blanks in front of it are all dropped.
        have hne : table ≠ [] := by
          rintro rfl
          have hblank : Text.isBlank c = false := hhead c rfl
          rw [hblank] at hc
          cases hc
        refine Or.inl ⟨.columns between ⟨table, hne, hunbroken⟩, gap, Text.trimStart tail, ?_,
          htarget⟩
        simp only [heq, Subject.text_columns, List.append_assoc, hgap]
    | none =>
      cases hkeys : afterWord "fk" rest with
      | some target =>
        obtain ⟨⟨gap, heq⟩, hhead⟩ := afterWord_eq_some_iff.1 hkeys
        exact Or.inl ⟨.keys, gap, target, heq, hhead⟩
      | none =>
        refine Or.inr ?_
        unfold readLine
        simp only [hline, htable, hcolumn, hkeys]

/-- A line without these parts is refused. -/
theorem exists_parts_or_invalid (line : List Char) :
    (∃ p : LineParts, line = p.line) ∨
      readLine line = .error (.invalidStatement (String.ofList line)) := by
  cases hdel : afterWord "del" line with
  | none =>
    refine Or.inr ?_
    unfold readLine
    rw [hdel]
  | some rest =>
    rcases exists_subject_or_invalid hdel with ⟨s, gap', target, rfl, hhead⟩ | hinvalid
    · rcases exists_label_or_invalid line target with ⟨label, text, rfl⟩ | htarget
      · obtain ⟨⟨gap, hline⟩, -⟩ := afterWord_eq_some_iff.1 hdel
        exact Or.inl ⟨⟨gap, s, gap', label, text⟩, hline⟩
      · refine Or.inr ?_
        rw [readLine_of_subject s gap' hhead hdel, htarget]
        rfl
    · exact Or.inr hinvalid

theorem parse_eq_readLine {line : String} {p : LineParts} (h : Text.Pads line.toList p.line) :
    parse line = (readTarget p.line p.target).map p.subject.statement := by
  unfold parse
  rw [Text.trim_eq_iff.2 h]
  exact readLine_line p

/-- A line pads its parts, or it is refused as a whole. -/
theorem pads_parts_or_invalid (line : String) :
    (∃ p : LineParts, Text.Pads line.toList p.line) ∨
      parse line = .error (.invalidStatement (Text.trimmed line)) := by
  rcases exists_parts_or_invalid (Text.trim line.toList) with ⟨p, hp⟩ | hinvalid
  · exact Or.inl ⟨p, hp ▸ Text.pads_trim line.toList⟩
  · exact Or.inr hinvalid

theorem parse_eq_ok_iff {line : String} {s : Statement} : parse line = .ok s ↔ Writes line s := by
  constructor
  · intro h
    rcases pads_parts_or_invalid line with ⟨p, hp⟩ | hinvalid
    · rw [parse_eq_readLine hp] at h
      obtain ⟨target, htarget, rfl⟩ := map_eq_ok_iff.1 h
      exact ⟨p, hp, target, readTarget_eq_ok_iff.1 htarget, rfl⟩
    · rw [hinvalid] at h
      cases h
  · rintro ⟨p, hp, target, htarget, rfl⟩
    rw [parse_eq_readLine hp, LineParts.target, readTarget_eq_ok_iff.2 htarget]
    rfl

theorem parse_eq_invalidIndexSpec_iff {line spec : String} {reason : Index.SpecError} :
    parse line = .error (.invalidIndexSpec spec reason) ↔ WritesBadIndex line spec reason := by
  constructor
  · intro h
    rcases pads_parts_or_invalid line with ⟨p, hp⟩ | hinvalid
    · rw [parse_eq_readLine hp, map_eq_error_iff] at h
      exact ⟨p, hp, readTarget_eq_invalidIndexSpec_iff.1 h⟩
    · rw [hinvalid] at h
      cases h
  · rintro ⟨p, hp, hbad⟩
    rw [parse_eq_readLine hp, map_eq_error_iff]
    exact readTarget_eq_invalidIndexSpec_iff.2 hbad

theorem parse_error_cases {line : String} {e : EditError} (h : parse line = .error e) :
    e = .invalidStatement (Text.trimmed line) ∨
      ∃ spec reason, e = .invalidIndexSpec spec reason := by
  rcases pads_parts_or_invalid line with ⟨p, hp⟩ | hinvalid
  · rw [parse_eq_readLine hp, map_eq_error_iff] at h
    have hline : Text.trimmed line = String.ofList p.line := by
      rw [← Text.trim_eq_iff.2 hp]
      rfl
    rw [hline]
    exact readTarget_error_cases h
  · rw [hinvalid] at h
    cases h
    exact Or.inl rfl

theorem parse_eq_invalidStatement_iff {line : String} :
    parse line = .error (.invalidStatement (Text.trimmed line)) ↔
      (∀ s, ¬ Writes line s) ∧ ∀ spec reason, ¬ WritesBadIndex line spec reason := by
  constructor
  · intro h
    refine ⟨fun s hs => ?_, fun spec reason hbad => ?_⟩
    · rw [parse_eq_ok_iff.2 hs] at h
      cases h
    · rw [parse_eq_invalidIndexSpec_iff.2 hbad] at h
      cases h
  · rintro ⟨hnone, hgood⟩
    cases hparse : parse line with
    | ok s => exact absurd (parse_eq_ok_iff.1 hparse) (hnone s)
    | error e =>
      rcases parse_error_cases hparse with rfl | ⟨spec, reason, rfl⟩
      · rfl
      · exact absurd (parse_eq_invalidIndexSpec_iff.1 hparse) (hgood spec reason)

/-- **Statements are read by their parts.** A line has at most one decomposition into parts. It is
read as the statement that its parts name; where they end in a bad index spec the fault of that
spec is reported, and every other line is reported as a whole. -/
theorem parse_by_parts (line : String) :
    {p : LineParts | Text.Pads line.toList p.line}.Subsingleton ∧
    (∀ s, parse line = .ok s ↔ Writes line s) ∧
    (∀ spec reason, parse line = .error (.invalidIndexSpec spec reason) ↔
      WritesBadIndex line spec reason) ∧
    (parse line = .error (.invalidStatement (Text.trimmed line)) ↔
      (∀ s, ¬ Writes line s) ∧ ∀ spec reason, ¬ WritesBadIndex line spec reason) := by
  refine ⟨fun p hp q hq => ?_, fun _ => parse_eq_ok_iff,
    fun _ _ => parse_eq_invalidIndexSpec_iff, parse_eq_invalidStatement_iff⟩
  have hline : p.line = q.line := by
    rw [← Text.trim_eq_iff.2 hp, ← Text.trim_eq_iff.2 hq]
  exact LineParts.line_injective hline

end SchemaShaper.Statement

import SchemaShaper.Proofs.Edit.Batches
import SchemaShaper.Proofs.Edit.StatementLines
import SchemaShaper.Proofs.Index.RoundTrip

/-!
# Statements read back

The written form of a statement is read as that statement, whenever some line is read as it, and
the statements of a script, written on lines of their own, are read as these statements
(`display_reads_back`). What reading guarantees of the pieces it captures is `Readable`: a pattern
is not empty and has no blank at its ends, the name of a table is one word other than `*`, and no
slice of an index spec has the step zero. Nothing else is needed to write the statement as a line
in its parts (`exists_parts_display`); a pattern may well hold blanks, `#`, or words of the
language.
-/

namespace SchemaShaper

open Statement (Gap Word Label Subject LineParts TargetText)

/-! ## What reading guarantees -/

/-- The targets that texts write. -/
inductive Target.Readable : Target → Prop
  | pattern {name : String} (hne : name.toList ≠ []) (hbare : Text.Bare name.toList) :
      Readable (.pattern (Glob.ofString name))
  | index {spec : Index.Spec} (h : spec.StepsNonzero) : Readable (.index spec)

/-- The choices that words write. -/
inductive TableChoice.Readable : TableChoice → Prop
  | all : Readable .all
  | named (word : Word) (h : word.chars ≠ ['*']) : Readable (.named (String.ofList word.chars))

/-- The statements that lines write. -/
def Statement.Readable : Statement → Prop
  | deleteTables target => target.Readable
  | deleteColumns tables target => tables.Readable ∧ target.Readable
  | deleteKeys target => target.Readable

namespace Statement

theorem TargetText.readable {label : Label} {text : List Char} {target : Target}
    (h : TargetText label text target) : target.Readable := by
  cases h with
  | pattern hblank =>
    have hne : Text.trim text ≠ [] := fun hnil => hblank (Text.trim_eq_nil_iff.1 hnil)
    refine .pattern ?_ ?_
    · rwa [String.toList_ofList]
    · rw [String.toList_ofList]
      exact Text.bare_trim text
  | index hspec => exact .index (Index.Spec.stepsNonzero_of_parse hspec)

theorem readable_of_word (word : Word) : TableChoice.Readable
    (if word.chars = ['*'] then .all else .named (String.ofList word.chars)) := by
  by_cases hstar : word.chars = ['*']
  · rw [if_pos hstar]
    exact .all
  · rw [if_neg hstar]
    exact .named word hstar

theorem readable_of_parse {line : String} {s : Statement} (h : parse line = .ok s) :
    s.Readable := by
  obtain ⟨p, -, target, htarget, rfl⟩ := parse_eq_ok_iff.1 h
  cases p.subject with
  | tables => exact htarget.readable
  | columns gap table => exact ⟨readable_of_word table, htarget.readable⟩
  | keys => exact htarget.readable

/-! ## Parts of a written statement -/

theorem exists_text_of_readable {target : Target} (h : target.Readable) :
    ∃ (label : Label) (text : List Char), target.display.toList = label.word.toList ++ text ∧
      TargetText label text target ∧ ∃ c, text.getLast? = some c ∧ Text.isBlank c = false := by
  cases h with
  | @pattern name hne hbare =>
    have hblank : ¬ Text.Blanks name.toList := fun h => hne (hbare.eq_nil h)
    have htext := TargetText.pattern hblank
    rw [hbare.trim_eq, String.ofList_toList] at htext
    have hlast := List.getLast?_eq_some_getLast hne
    refine ⟨.pattern, name.toList, ?_, htext, _, hlast, hbare.back _ hlast⟩
    simp [Target.display, Glob.ofString, Label.word, String.toList_append]
  | @index spec hsteps =>
    have hparse : Index.Spec.parse (String.ofList spec.display.toList) = .ok spec := by
      rw [String.ofList_toList]
      exact Index.Spec.parse_display hsteps
    refine ⟨.index, spec.display.toList, ?_, .index hparse, ']', ?_, by decide⟩
    · simp [Target.display, Label.word, String.toList_append]
    · rw [Index.Spec.toList_display, ← List.cons_append, List.getLast?_concat]

theorem exists_word_of_readable {tables : TableChoice} (h : tables.Readable) :
    ∃ word : Word, tables.display.toList = word.chars ∧
      tables = if word.chars = ['*'] then .all else .named (String.ofList word.chars) := by
  cases h with
  | all =>
    have hstar : ∀ c ∈ ['*'], Text.isBlank c = false := List.forall_mem_singleton.2 (by decide)
    exact ⟨⟨['*'], by simp, hstar⟩, by simp [TableChoice.display], rfl⟩
  | named word hstar => exact ⟨word, by simp [TableChoice.display], (if_neg hstar).symm⟩

/-- One space, which is how written statements part their words. -/
def Gap.space : Gap := ⟨[' '], by simp, by decide⟩

theorem exists_subject_of_readable {s : Statement} (h : s.Readable) :
    ∃ (subject : Subject) (target : Target), target.Readable ∧ s = subject.statement target ∧
      s.display.toList = "del".toList ++ (Gap.space.chars ++ (subject.text ++
        (Gap.space.chars ++ target.display.toList))) := by
  cases s with
  | deleteTables target =>
    exact ⟨.tables, target, h, rfl, by simp [display, Gap.space]⟩
  | deleteColumns tables target =>
    obtain ⟨word, hword, htables⟩ := exists_word_of_readable h.1
    refine ⟨.columns Gap.space word, target, h.2, ?_, ?_⟩
    · rw [htables]
      rfl
    · simp [display, hword, Gap.space]
  | deleteKeys target => exact ⟨.keys, target, h, rfl, by simp [display, Gap.space]⟩

theorem bare_line {p : LineParts} {c : Char} (hlast : p.text.getLast? = some c)
    (hc : Text.isBlank c = false) : Text.Bare p.line := by
  have hend : p.line.getLast? = some c := by
    simp only [LineParts.line, LineParts.target, ← List.append_assoc]
    rw [List.getLast?_append, hlast]
    rfl
  refine ⟨Text.Bare.head?_append (by decide) (by decide) _, fun x hx => ?_⟩
  rw [hend] at hx
  cases hx
  exact hc

theorem exists_parts_display {s : Statement} (h : s.Readable) :
    ∃ p : LineParts, s.display.toList = p.line ∧ Text.Bare p.line ∧
      ∃ target, TargetText p.label p.text target ∧ s = p.subject.statement target := by
  obtain ⟨subject, target, htarget, hs, hdisplay⟩ := exists_subject_of_readable h
  obtain ⟨label, text, htext, hwrites, c, hlast, hc⟩ := exists_text_of_readable htarget
  rw [htext] at hdisplay
  exact ⟨⟨Gap.space, subject, Gap.space, label, text⟩, hdisplay, bare_line hlast hc, target,
    hwrites, hs⟩

theorem parse_display {s : Statement} (h : s.Readable) : parse s.display = .ok s := by
  obtain ⟨p, hline, hbare, hwrites⟩ := exists_parts_display h
  refine parse_eq_ok_iff.2 ⟨p, ?_, hwrites⟩
  rw [hline]
  exact hbare.pads

/-! ## Scripts -/

theorem newline_not_mem_spec (spec : Index.Spec) : '\n' ∉ spec.display.toList := by
  intro h
  rw [Index.Spec.toList_display] at h
  simp only [List.mem_cons, List.mem_append, List.not_mem_nil, or_false] at h
  rcases h with h | h | h
  · exact absurd h (by decide)
  · exact Index.Spec.not_mem_body (by decide) (by decide) h
  · exact absurd h (by decide)

theorem TargetText.newline_not_mem {label : Label} {text : List Char} {target : Target}
    (h : TargetText label text target) (hfree : '\n' ∉ text) : '\n' ∉ target.display.toList := by
  cases h with
  | pattern hblank =>
    have htrim : '\n' ∉ Text.trim text := fun hmem => hfree (Text.mem_of_mem_trim hmem)
    simp [Target.display, Glob.ofString, String.toList_append, htrim]
  | index hspec => simp [Target.display, String.toList_append, newline_not_mem_spec]

theorem newline_not_mem_choice {word : Word} (hfree : '\n' ∉ word.chars) :
    '\n' ∉ (TableChoice.display
      (if word.chars = ['*'] then .all else .named (String.ofList word.chars))).toList := by
  by_cases hstar : word.chars = ['*']
  · rw [if_pos hstar]
    simp [TableChoice.display]
  · rw [if_neg hstar]
    simp [TableChoice.display, hfree]

/-- A statement on one line is written on one line. -/
theorem newline_not_mem_display {line : String} {s : Statement} (h : parse line = .ok s)
    (hfree : '\n' ∉ line.toList) : '\n' ∉ s.display.toList := by
  obtain ⟨⟨gap, subject, gap', label, text⟩, hpad, target, htarget, rfl⟩ := parse_eq_ok_iff.1 h
  have hline : '\n' ∉ LineParts.line ⟨gap, subject, gap', label, text⟩ :=
    fun hmem => hfree (hpad.subset hmem)
  simp only [LineParts.line, LineParts.target, List.mem_append, not_or] at hline
  obtain ⟨-, -, hsubject, -, -, htext⟩ := hline
  have hnewline := htarget.newline_not_mem htext
  cases subject with
  | tables => simp [Subject.statement, display, String.toList_append, hnewline]
  | columns between table =>
    simp only [Subject.text_columns, List.mem_append, not_or] at hsubject
    have hchoice := newline_not_mem_choice hsubject.2.2
    simp only [Subject.statement, display, String.toList_append, List.mem_append, not_or]
    exact ⟨⟨⟨by decide, hchoice⟩, by decide⟩, hnewline⟩
  | keys => simp [Subject.statement, display, String.toList_append, hnewline]

theorem reads_of_parseEntries {entries : List String} {statements : List Statement}
    (h : parseEntries entries = .ok statements) : Reads entries statements :=
  ((agreesWithReading entries ⟨[]⟩).of_ok statements h).1

/-- Written statements are entries that are not skipped. -/
theorem reads_display {statements : List Statement} (h : ∀ s ∈ statements, s.Readable) :
    Reads (statements.map display) statements := by
  induction statements with
  | nil => exact reads_nil.2 rfl
  | cons s statements ih =>
    obtain ⟨hs, hrest⟩ := List.forall_mem_cons.1 h
    -- The keyword `del` makes it neither blank nor a comment, whatever the target holds.
    have hskip : isSkipped s.display = false := by
      obtain ⟨p, hline, hbare, -⟩ := exists_parts_display hs
      unfold isSkipped
      rw [hline, hbare.trim_eq]
      simp [LineParts.line]
    rw [List.map_cons, reads_cons_act hskip]
    exact ⟨s, statements, parse_display hs, ih hrest, rfl⟩

/-- A text whose lines are the written statements is read as these statements. -/
theorem parseScript_of_linesOf {script : String} {statements : List Statement}
    (hlines : Text.linesOf script = statements.map display)
    (h : ∀ s ∈ statements, s.Readable) : parseScript script = .ok statements := by
  unfold parseScript parseEntries
  rw [hlines]
  exact parseFrom_of_reads (reads_display h) 1

theorem getLast?_display {s : Statement} (h : s.Readable) :
    s.display.toList.getLast? ≠ some '\r' := by
  obtain ⟨p, hline, hbare, -⟩ := exists_parts_display h
  rw [hline]
  intro hlast
  exact absurd (hbare.back _ hlast) (by decide)

theorem display_ne_nil {s : Statement} (h : s.Readable) : s.display.toList ≠ [] := by
  obtain ⟨p, hline, -⟩ := exists_parts_display h
  rw [hline]
  simp [LineParts.line]

/-- **Written statements read back.** A statement that some line writes is read from its written
form, and the statements of a script are read from a text that has them on lines of their own,
whether or not a line feed ends the last line. -/
theorem display_reads_back :
    (∀ line s, parse line = .ok s → parse s.display = .ok s) ∧
    ∀ script statements, parseScript script = .ok statements →
      parseScript (String.join (statements.map fun s => s.display ++ "\n")) = .ok statements ∧
      parseScript (Text.joinWith "\n" (statements.map display)) = .ok statements := by
  refine ⟨fun line s h => parse_display (readable_of_parse h), fun script statements h => ?_⟩
  have hreads := reads_of_parseEntries h
  have hreadable : ∀ s ∈ statements, s.Readable := by
    intro s hs
    obtain ⟨entry, -, hentry⟩ := ReadsAs.exists_entry hreads s hs
    exact readable_of_parse hentry
  have hfree : ∀ row ∈ statements.map display, '\n' ∉ row.toList := by
    refine List.forall_mem_map.2 fun s hs => ?_
    obtain ⟨entry, hmem, hentry⟩ := ReadsAs.exists_entry hreads s hs
    exact newline_not_mem_display hentry (Text.newline_not_mem_linesOf hmem)
  have hend : ∀ row ∈ statements.map display, row.toList.getLast? ≠ some '\r' :=
    List.forall_mem_map.2 fun s hs => getLast?_display (hreadable s hs)
  have hne : ∀ row ∈ statements.map display, row.toList ≠ [] :=
    List.forall_mem_map.2 fun s hs => display_ne_nil (hreadable s hs)
  have hjoin := Text.linesOf_join hfree hend
  rw [List.map_map] at hjoin
  exact ⟨parseScript_of_linesOf hjoin hreadable,
    parseScript_of_linesOf (Text.linesOf_joinWith hfree hend hne) hreadable⟩

/-- A script with a comment, runs of blanks, carriage returns, and a table called `pattern:x`. -/
def looseScript : String :=
  "# drop\r\n\r\n del  column\tpattern:x  pattern:  a # b \r\ndel fk index: [ 0 , +2:-1: ]"

def looseStatements : List Statement :=
  [deleteColumns (.named "pattern:x") (.pattern (.ofString "a # b")),
    deleteKeys (.index ⟨[.single 0, .range ⟨some 2, some (-1), none⟩]⟩)]

/-- The positions from the last to the first, and the first once more. -/
def slicedTarget : Target := .index ⟨[.range ⟨none, none, some (-1)⟩, .single 0]⟩

theorem looseScript_reads_back :
    parse "\tdel  table index:  :: -1 , 0 " = .ok (deleteTables slicedTarget) ∧
    parse (deleteTables slicedTarget).display = .ok (deleteTables slicedTarget) ∧
    parseScript looseScript = .ok looseStatements ∧
    parseScript (String.join (looseStatements.map fun s => s.display ++ "\n")) =
      .ok looseStatements ∧
    parseScript (Text.joinWith "\n" (looseStatements.map display)) = .ok looseStatements := by
  have hline : parse "\tdel  table index:  :: -1 , 0 " = .ok (deleteTables slicedTarget) := rfl
  have hscript : parseScript looseScript = .ok looseStatements := rfl
  exact ⟨hline, display_reads_back.1 _ _ hline, hscript, display_reads_back.2 _ _ hscript⟩

end Statement

end SchemaShaper

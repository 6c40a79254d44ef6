import SchemaShaper.Text.Blank

/-!
# Cutting texts into pieces

Cuts at a class of characters, at one character, at a separating text, at blanks, and into lines.
`splitBy` is the one recursion the others are made of: its pieces are never an empty list, and
putting the separators back between them gives the text again.
-/

namespace SchemaShaper.Text

/-- The pieces between the characters of the class, empty pieces included. -/
def splitBy (p : Char → Bool) : List Char → List (List Char)
  | [] => [[]]
  | c :: cs =>
    match splitBy p cs with
    | [] => [[c]]
    | w :: ws => if p c then [] :: w :: ws else (c :: w) :: ws

/-- The pieces between the occurrences of one character. -/
def splitOn (sep : Char) (cs : List Char) : List (List Char) := splitBy (· == sep) cs

/-- The maximal runs without a blank. -/
def words (cs : List Char) : List (List Char) := (splitBy isBlank cs).filter (!·.isEmpty)

/-- The text before and after the first character of the class, without that character. -/
def cutAt (p : Char → Bool) : List Char → Option (List Char × List Char)
  | [] => none
  | c :: cs => if p c then some ([], cs) else (cutAt p cs).map fun (a, b) => (c :: a, b)

/-- The rest of a text that begins with `lead`. -/
def dropLead (lead : List Char) (cs : List Char) : Option (List Char) :=
  if lead.isPrefixOf cs then some (cs.drop lead.length) else none

/-- Pieces between the occurrences of `sep`, found from the left without overlap; the first `skip`
characters belong to an occurrence already found. -/
def splitOnTextFrom (sep : List Char) : Nat → List Char → List (List Char)
  | _, [] => [[]]
  | skip + 1, _ :: cs => splitOnTextFrom sep skip cs
  | 0, c :: cs =>
    if sep.isPrefixOf (c :: cs) then [] :: splitOnTextFrom sep (sep.length - 1) cs
    else
      match splitOnTextFrom sep 0 cs with
      | [] => [[c]]
      | w :: ws => (c :: w) :: ws

/-- The pieces between the occurrences of a separating text that is not empty. -/
def splitOnText (sep cs : List Char) : List (List Char) := splitOnTextFrom sep 0 cs

/-- Take off one carriage return at the end. -/
def dropReturn (cs : List Char) : List Char :=
  if cs.getLast? = some '\r' then cs.dropLast else cs

/-- The lines of a text. A line ends with a line feed, which may follow a carriage return; what
stands after the last line feed is a line of its own unless it is empty. -/
def lines (cs : List Char) : List (List Char) :=
  let pieces := splitOn '\n' cs
  let last := pieces.getLast?.getD []
  pieces.dropLast.map dropReturn ++ if last.isEmpty then [] else [last]

/-- `lines` on strings. -/
def linesOf (s : String) : List String := (lines s.toList).map String.ofList

/-- Pieces with a separator between them. -/
def joinWith (sep : String) (parts : List String) : String := sep.intercalate parts

/-- The cut is at the first character of the class. -/
theorem cutAt_eq_some_iff {p : Char → Bool} {cs front rest : List Char} :
    cutAt p cs = some (front, rest) ↔
      ∃ c, cs = front ++ c :: rest ∧ p c = true ∧ ∀ x ∈ front, p x = false := by
  induction cs generalizing front with
  | nil => simp [cutAt]
  | cons d cs ih =>
    rw [cutAt]
    split
    · next hd =>
      constructor
      · intro h
        simp only [Option.some.injEq, Prod.mk.injEq] at h
        obtain ⟨rfl, rfl⟩ := h
        exact ⟨d, rfl, hd, by simp⟩
      · rintro ⟨c, h, hc, hfront⟩
        cases front with
        | nil =>
          simp only [List.nil_append, List.cons.injEq] at h
          rw [h.2]
        | cons x front =>
          simp only [List.cons_append, List.cons.injEq] at h
          have hx := hfront x List.mem_cons_self
          rw [← h.1, hd] at hx
          cases hx
    · next hd =>
      constructor
      · intro h
        obtain ⟨⟨a, b⟩, hcut, h⟩ := Option.map_eq_some_iff.1 h
        simp only [Prod.mk.injEq] at h
        obtain ⟨rfl, rfl⟩ := h
        obtain ⟨c, rfl, hc, hfront⟩ := ih.1 hcut
        refine ⟨c, rfl, hc, ?_⟩
        simpa [hd] using hfront
      · rintro ⟨c, h, hc, hfront⟩
        cases front with
        | nil =>
          simp only [List.nil_append, List.cons.injEq] at h
          rw [h.1] at hd
          exact absurd hc hd
        | cons x front =>
          simp only [List.cons_append, List.cons.injEq] at h
          have hcut : cutAt p cs = some (front, rest) :=
            ih.2 ⟨c, h.2, hc, fun y hy => hfront y (List.mem_cons_of_mem _ hy)⟩
          rw [hcut, h.1]
          rfl

theorem splitBy_ne_nil (p : Char → Bool) (cs : List Char) : splitBy p cs ≠ [] := by
  cases cs with
  | nil => simp [splitBy]
  | cons c cs =>
    rw [splitBy]
    split
    · simp
    · split <;> simp

theorem splitBy_cons_of_pos {p : Char → Bool} {c : Char} (cs : List Char) (h : p c = true) :
    splitBy p (c :: cs) = [] :: splitBy p cs := by
  rw [splitBy]
  split
  · next h' => exact absurd h' (splitBy_ne_nil p cs)
  · next w ws h' => simp [h, h']

end SchemaShaper.Text

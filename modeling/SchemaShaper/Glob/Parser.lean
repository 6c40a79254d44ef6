import SchemaShaper.Glob.Basic
import SchemaShaper.Text.Split

/-!
# Reading wildcard patterns

Every text is a pattern. `*` and `?` are wildcards; `[` opens a class when a `]` closes it, and
stands for itself otherwise. A `!` at the front of a class complements it, and a `]` at the front
of its members is a member. Adjacent `*` are one token.
-/

namespace SchemaShaper.Glob

/-- A class behind its `[`: whether it is complemented, its members as written, and the text after
its `]`; none when no `]` closes it. -/
def classBody? (cs : List Char) : Option (Bool × List Char × List Char) :=
  let (negated, cs) := match cs with
    | '!' :: cs => (true, cs)
    | cs => (false, cs)
  match cs with
  | ']' :: cs => (Text.cutAt (· == ']') cs).map fun (body, rest) => (negated, ']' :: body, rest)
  | cs => (Text.cutAt (· == ']') cs).map fun (body, rest) => (negated, body, rest)

/-- The members of a class, read from the left: `x-y` is a range, any other character is itself. -/
def classItems : List Char → List ClassItem
  | lo :: '-' :: hi :: rest => .range lo hi :: classItems rest
  | c :: rest => .char c :: classItems rest
  | [] => []

theorem cutAt_length_lt {p : Char → Bool} {cs body rest : List Char}
    (h : Text.cutAt p cs = some (body, rest)) : rest.length < cs.length := by
  obtain ⟨c, rfl, -⟩ := Text.cutAt_eq_some_iff.1 h
  rw [List.length_append, List.length_cons]
  omega

/-- A class ends behind where it begins. -/
theorem classBody?_length_lt {cs body rest : List Char} {negated : Bool}
    (h : classBody? cs = some (negated, body, rest)) : rest.length < cs.length := by
  unfold classBody? at h
  split at h
  next hd neg tl heq =>
    have hle : tl.length ≤ cs.length := by
      split at heq <;> simp only [Prod.mk.injEq] at heq <;> obtain ⟨-, rfl⟩ := heq <;> simp
    split at h <;> obtain ⟨⟨a, b⟩, hab, h'⟩ := Option.map_eq_some_iff.1 h <;>
      simp only [Prod.mk.injEq] at h' <;> have hlt := cutAt_length_lt hab <;>
      rw [← h'.2.2] <;> simp_all <;> omega

/-- Put a `*` in front of tokens that do not begin with one. -/
def consRun : List Token → List Token
  | .anyRun :: ts => .anyRun :: ts
  | ts => .anyRun :: ts

/-- The tokens of a pattern text. -/
def tokensOf : List Char → List Token
  | [] => []
  | c :: cs =>
    if c = '*' then consRun (tokensOf cs)
    else if c = '?' then .anyChar :: tokensOf cs
    else if c = '[' then
      match _h : classBody? cs with
      | some (negated, body, rest) => .charClass negated (classItems body) :: tokensOf rest
      | none => .literal '[' :: tokensOf cs
    else .literal c :: tokensOf cs
termination_by cs => cs.length
decreasing_by
  all_goals simp_wf
  have := classBody?_length_lt _h
  omega

end SchemaShaper.Glob

namespace SchemaShaper

/-- The pattern that a text writes. -/
def Glob.ofString (s : String) : Glob := ⟨s, Glob.tokensOf s.toList⟩

end SchemaShaper

/-!
# Wildcard patterns

A pattern is a list of tokens: `*` stands for any run of characters, every other token for exactly
one character. `matchesTokens` decides whether a text can be cut into one piece per token. It keeps
a single point to go back to, the last `*` met, and lets that one take a character more whenever a
later token fails.
-/

namespace SchemaShaper.Glob

/-- A member of a character class. -/
inductive ClassItem where
  | char (c : Char)
  | range (lo hi : Char)
  deriving DecidableEq, Repr

/-- Does the member cover the character? A range whose ends are in the wrong order covers none. -/
def ClassItem.covers : ClassItem → Char → Bool
  | char x, c => x == c
  | range lo hi, c => lo ≤ c && c ≤ hi

/-- One token of a pattern. -/
inductive Token where
  | literal (c : Char)
  | anyChar
  | anyRun
  | charClass (negated : Bool) (items : List ClassItem)
  deriving DecidableEq, Repr

namespace Token

/-- Does the token stand for this one character? `anyRun` is no token for one character. -/
def accepts : Token → Char → Bool
  | literal l, c => l == c
  | anyChar, _ => true
  | anyRun, _ => false
  | charClass negated items, c => (items.any (·.covers c)) != negated

/-- Is the token `*`? -/
def isRun : Token → Bool
  | anyRun => true
  | _ => false

end Token

/-- Match behind a `*`. The tokens after that `*` are `resume`; it has taken the text before
`absorbed` so far, and takes one character more when a token fails. -/
def matchAfterRun (resume : List Token) (absorbed : List Char) (ts : List Token)
    (cs : List Char) (h : ts.length ≤ resume.length) : Bool :=
  match cs with
  | [] => ts.all Token.isRun
  | c :: cs =>
    match ts with
    | .anyRun :: ts => matchAfterRun ts (c :: cs) ts (c :: cs) (Nat.le_refl _)
    | t :: ts =>
      if t.accepts c then matchAfterRun resume absorbed ts cs (Nat.le_of_succ_le h)
      else
        match absorbed with
        | [] => false
        | _ :: rest => matchAfterRun resume rest resume rest (Nat.le_refl _)
    | [] =>
      match absorbed with
      | [] => false
      | _ :: rest => matchAfterRun resume rest resume rest (Nat.le_refl _)
termination_by (resume.length, absorbed.length, ts.length)
decreasing_by
  · exact Prod.Lex.left _ _ h
  · exact Prod.Lex.right _ (Prod.Lex.right _ (Nat.lt_succ_self _))
  · exact Prod.Lex.right _ (Prod.Lex.left _ _ (Nat.lt_succ_self _))
  · exact Prod.Lex.right _ (Prod.Lex.left _ _ (Nat.lt_succ_self _))

/-- Can the text be cut into consecutive pieces, one per token? -/
def matchesTokens : List Token → List Char → Bool
  | ts, [] => ts.all Token.isRun
  | .anyRun :: ts, c :: cs => matchAfterRun ts (c :: cs) ts (c :: cs) (Nat.le_refl _)
  | t :: ts, c :: cs => t.accepts c && matchesTokens ts cs
  | [], _ :: _ => false

end SchemaShaper.Glob

namespace SchemaShaper

/-- A wildcard pattern: the text it was written as, and its tokens. -/
structure Glob where
  source : String
  tokens : List Glob.Token
  deriving DecidableEq, Repr

/-- Does the pattern cover the whole text? -/
def Glob.covers (g : Glob) (text : String) : Bool :=
  Glob.matchesTokens g.tokens text.toList

end SchemaShaper

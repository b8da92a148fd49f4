import ReviewDiff.Text.Cut

/-!
# Patterns for file names

A pattern is written as a text.  `?` stands for any character and `*` for any
text, slashes and leading dots included.  `**` has to be a whole component of a
path and stands for any number of them.  `[abc]` and `[a-z]` stand for one
character among those listed, `[!abc]` for one that is not listed.  Every other
character stands for itself.

`Pattern.read?` reads a pattern and `Pattern.accepts` tells which names it fits.
`escape` writes the pattern that fits one name only, and `Pattern.ofText` uses it
for a text that is no pattern.
-/

namespace ReviewDiff.Glob

inductive Range where
  | one (c : Char)
  | between (low high : Char)
  deriving DecidableEq, Repr

inductive Token where
  | char (c : Char)
  | anyChar
  | anyText
  | anyDirectories
  | among (ranges : List Range)
  | notAmong (ranges : List Range)
  deriving DecidableEq, Repr

structure Pattern where
  tokens : List Token
  deriving DecidableEq, Repr

/-! ## Reading -/

/-- The characters listed between brackets.  A hyphen between two characters makes
a range. -/
def ranges : List Char → List Range
  | low :: '-' :: high :: rest => .between low high :: ranges rest
  | c :: rest => .one c :: ranges rest
  | [] => []

/-- The list behind an opening bracket, and what follows its closing bracket.  The
first character of a list never closes it. -/
def readList? : List Char → Option (Token × List Char)
  | '!' :: c :: rest =>
      (Text.cutList? [']'] rest).map fun (inside, rest) =>
        (.notAmong (ranges (c :: inside)), rest)
  | '!' :: [] => none
  | c :: rest =>
      (Text.cutList? [']'] rest).map fun (inside, rest) =>
        (.among (ranges (c :: inside)), rest)
  | [] => none

theorem length_lt_of_cutList? {text before after : List Char}
    (found : Text.cutList? [']'] text = some (before, after)) :
    after.length < text.length := by
  rw [Text.cutList?_eq_append found]
  simp only [List.length_append, List.length_cons, List.length_nil]
  omega

theorem length_lt_of_readList?
    {text rest : List Char} {token : Token} (found : readList? text = some (token, rest)) :
    rest.length < text.length := by
  unfold readList? at found
  split at found
  · obtain ⟨⟨inside, after⟩, cut, same⟩ := Option.map_eq_some_iff.1 found
    simp only [Prod.mk.injEq] at same
    have := length_lt_of_cutList? cut
    simp only [List.length_cons, ← same.2]
    omega
  · simp at found
  · obtain ⟨⟨inside, after⟩, cut, same⟩ := Option.map_eq_some_iff.1 found
    simp only [Prod.mk.injEq] at same
    have := length_lt_of_cutList? cut
    simp only [List.length_cons, ← same.2]
    omega
  · simp at found

/-- The tokens of a pattern, given the character before it. -/
def readTokens? (previous : Option Char) (text : List Char) : Option (List Token) :=
  match text with
  | [] => some []
  | '?' :: rest => (readTokens? (some '?') rest).map (.anyChar :: ·)
  | '[' :: rest =>
      match found : readList? rest with
      | some (token, after) =>
          have : after.length < rest.length := length_lt_of_readList? found
          (readTokens? (some ']') after).map (token :: ·)
      | none => none
  | '*' :: '*' :: '/' :: rest =>
      if previous = none || previous = some '/' then
        (readTokens? (some '/') rest).map (.anyDirectories :: ·)
      else none
  | ['*', '*'] =>
      if previous = none || previous = some '/' then some [.anyDirectories] else none
  | '*' :: '*' :: _ => none
  | '*' :: rest => (readTokens? (some '*') rest).map (.anyText :: ·)
  | c :: rest => (readTokens? (some c) rest).map (.char c :: ·)
  termination_by text.length

def Pattern.read? (text : String) : Option Pattern :=
  (readTokens? none text.toList).map Pattern.mk

/-! ## Names that a pattern fits -/

def Range.has (range : Range) (c : Char) : Bool :=
  match range with
  | .one listed => c = listed
  | .between low high => low ≤ c && c ≤ high

/-- Whether a token that stands for one character stands for this one. -/
def Token.accepts (token : Token) (c : Char) : Bool :=
  match token with
  | .char expected => c = expected
  | .anyChar => true
  | .among ranges => ranges.any (·.has c)
  | .notAmong ranges => !ranges.any (·.has c)
  | .anyText | .anyDirectories => false

/-- Whether the text or one of its endings has a property. -/
def someEnding (property : List Char → Bool) : List Char → Bool
  | [] => property []
  | c :: rest => property (c :: rest) || someEnding property rest

/-- Whether an ending of the text right behind a slash has a property. -/
def someComponent (property : List Char → Bool) : List Char → Bool
  | [] => false
  | c :: rest => c = '/' && property rest || someComponent property rest

def fits : List Token → List Char → Bool
  | [], name => name.isEmpty
  | .anyText :: tokens, name => someEnding (fits tokens) name
  | .anyDirectories :: tokens, name =>
      fits tokens name || someComponent (fits tokens) name || fits tokens []
  | _ :: _, [] => false
  | token :: tokens, c :: name => token.accepts c && fits tokens name

def Pattern.accepts (pattern : Pattern) (name : String) : Bool :=
  fits pattern.tokens name.toList

/-! ## Literal patterns -/

def escapeChar (c : Char) : List Char :=
  if c = '?' || c = '*' || c = '[' || c = ']' then ['[', c, ']'] else [c]

/-- The pattern that fits the text only. -/
def escape (text : String) : String :=
  String.ofList (text.toList.flatMap escapeChar)

/-- The pattern in a text.  A text that is no pattern stands for itself. -/
def Pattern.ofText (text : String) : Pattern :=
  (read? text <|> read? (escape text)).getD ⟨[]⟩

end ReviewDiff.Glob

import ReviewDiff.Text.Number
import ReviewDiff.Toml.Item

/-!
# Texts in a TOML document

A text stands between quotes, in which a backslash escapes, or between
apostrophes, in which nothing does.  Three quotes or apostrophes enclose a text of
several lines; a line feed right behind them does not count, and a backslash at
the end of a line joins it to the next character that is not blank.

Every reader gives back what is left of the document.  A reader that cannot go on
tells the place.
-/

namespace ReviewDiff.Toml

def stuck {α : Type} (rest : List Char) : Except Place α :=
  .error rest.length

def isSpace (c : Char) : Bool :=
  c = ' ' || c = '\t'

def skipSpace (text : List Char) : List Char :=
  text.dropWhile isSpace

/-- Whether a character may stand in a text or a comment as it is: no control
character except a tab. -/
def isPlain (c : Char) : Bool :=
  c = '\t' || (32 ≤ c.toNat && c.toNat ≠ 127)

def afterNewline? : List Char → Option (List Char)
  | '\n' :: rest => some rest
  | '\r' :: '\n' :: rest => some rest
  | _ => none

/-! ## Escapes -/

/-- Reads the code point of a character in the given number of hexadecimal digits.
-/
def readCode (count : Nat) (text : List Char) : Except Place (Char × List Char) :=
  match (text.take count).mapM Text.hexValue? with
  | none => stuck text
  | some digits =>
      let code := digits.foldl (fun value digit => value * 16 + digit) 0
      if digits.length = count && Nat.isValidChar code then
        .ok (Char.ofNat code, text.drop count)
      else stuck text

def readEscape : List Char → Except Place (Char × List Char)
  | 'b' :: rest => .ok ('\x08', rest)
  | 't' :: rest => .ok ('\t', rest)
  | 'n' :: rest => .ok ('\n', rest)
  | 'f' :: rest => .ok ('\x0c', rest)
  | 'r' :: rest => .ok ('\r', rest)
  | '"' :: rest => .ok ('"', rest)
  | '\\' :: rest => .ok ('\\', rest)
  | 'u' :: rest => readCode 4 rest
  | 'U' :: rest => readCode 8 rest
  | _ :: rest => stuck rest
  | [] => stuck []

/-! ## One line -/

/-- Reads a text up to its closing quote; at most `fuel` characters. -/
def readBasic : (fuel : Nat) → List Char → Except Place (List Char × List Char)
  | 0, text => stuck text
  | fuel + 1, text =>
      match text with
      | '"' :: rest => .ok ([], rest)
      | '\\' :: rest => do
          let (c, rest) ← readEscape rest
          let (others, rest) ← readBasic fuel rest
          .ok (c :: others, rest)
      | c :: rest =>
          if isPlain c then do
            let (others, rest) ← readBasic fuel rest
            .ok (c :: others, rest)
          else stuck text
      | [] => stuck []

def readLiteral : List Char → Except Place (List Char × List Char)
  | [] => stuck []
  | c :: rest =>
      if c = '\'' then .ok ([], rest)
      else if isPlain c then do
        let (others, rest) ← readLiteral rest
        .ok (c :: others, rest)
      else stuck (c :: rest)

/-! ## Several lines -/

def runLength (mark : Char) (text : List Char) : Nat :=
  (text.takeWhile (· = mark)).length

/-- The marks at the start that belong to a text of several lines, and what
follows the closing ones; missing when the marks do not close the text.  Up to two
marks can stand right before the closing three. -/
def closing? (mark : Char) (text : List Char) : Option (List Char × List Char) :=
  let count := runLength mark text
  if count < 3 then none
  else
    let inside := min 2 (count - 3)
    some (List.replicate inside mark, text.drop (inside + 3))

/-- The blanks and ends of lines at the start are left out. -/
def skipLines : (fuel : Nat) → List Char → List Char
  | 0, text => text
  | fuel + 1, text =>
      match afterNewline? (skipSpace text) with
      | some rest => skipLines fuel rest
      | none => skipSpace text

/-- Reads a text of several lines up to its closing quotes; at most `fuel` steps.
-/
def readBasicLines : (fuel : Nat) → List Char → Except Place (List Char × List Char)
  | 0, text => stuck text
  | fuel + 1, text =>
      match text with
      | [] => stuck []
      | '"' :: rest =>
          match closing? '"' text with
          | some found => .ok found
          | none => do
              let (others, rest) ← readBasicLines fuel rest
              .ok ('"' :: others, rest)
      | '\\' :: rest =>
          match afterNewline? (skipSpace rest) with
          | some after => readBasicLines fuel (skipLines after.length after)
          | none => do
              let (c, rest) ← readEscape rest
              let (others, rest) ← readBasicLines fuel rest
              .ok (c :: others, rest)
      | c :: rest =>
          match afterNewline? text with
          | some after => do
              let (others, rest) ← readBasicLines fuel after
              .ok ('\n' :: others, rest)
          | none =>
              if isPlain c then do
                let (others, rest) ← readBasicLines fuel rest
                .ok (c :: others, rest)
              else stuck text

def readLiteralLines : (fuel : Nat) → List Char → Except Place (List Char × List Char)
  | 0, text => stuck text
  | fuel + 1, text =>
      match text with
      | [] => stuck []
      | c :: rest =>
          match if c = '\'' then closing? '\'' text else none with
          | some found => .ok found
          | none =>
              match afterNewline? text with
              | some after => do
                  let (others, rest) ← readLiteralLines fuel after
                  .ok ('\n' :: others, rest)
              | none =>
                  if isPlain c then do
                    let (others, rest) ← readLiteralLines fuel rest
                    .ok (c :: others, rest)
                  else stuck text

/-! ## Texts -/

def skipFirstNewline (text : List Char) : List Char :=
  (afterNewline? text).getD text

def readQuoted (text : List Char) : Except Place (String × List Char) := do
  let (chars, rest) ← match text with
    | '"' :: '"' :: '"' :: rest => readBasicLines (text.length + 1) (skipFirstNewline rest)
    | '\'' :: '\'' :: '\'' :: rest =>
        readLiteralLines (text.length + 1) (skipFirstNewline rest)
    | '"' :: rest => readBasic (text.length + 1) rest
    | '\'' :: rest => readLiteral rest
    | _ => stuck text
  .ok (String.ofList chars, rest)

/-! ## Keys -/

/-- Whether a character may stand in a key without quotes. -/
def isBare (c : Char) : Bool :=
  c.isAlphanum || c = '_' || c = '-'

def readKey (text : List Char) : Except Place (Key × List Char) :=
  match text with
  | '"' :: rest => do
      let (chars, after) ← readBasic (text.length + 1) rest
      .ok (⟨String.ofList chars, text.length⟩, after)
  | '\'' :: rest => do
      let (chars, after) ← readLiteral rest
      .ok (⟨String.ofList chars, text.length⟩, after)
  | _ =>
      let name := text.takeWhile isBare
      if name.isEmpty then stuck text
      else .ok (⟨String.ofList name, text.length⟩, text.dropWhile isBare)

/-- How many keys a dotted path has to stay below. -/
def keyLimit : Nat := 80

/-- Reads a dotted path of keys; at most `fuel` keys.  Blanks around the keys do
not count. -/
def readPath : (fuel : Nat) → List Char → Except Place (List Key × List Char)
  | 0, text => stuck text
  | fuel + 1, text => do
      let (key, rest) ← readKey (skipSpace text)
      match skipSpace rest with
      | '.' :: rest =>
          let (others, rest) ← readPath fuel rest
          .ok (key :: others, rest)
      | rest => .ok ([key], rest)

/-- Reads a dotted path of keys and gives its last key apart. -/
def readKeys (text : List Char) : Except Place (List Key × Key × List Char) := do
  let (keys, rest) ← readPath (keyLimit - 1) text
  match keys.getLast? with
  | some key => .ok (keys.dropLast, key, rest)
  | none => stuck text

end ReviewDiff.Toml

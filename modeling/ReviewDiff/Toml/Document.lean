import ReviewDiff.Toml.Number

/-!
# TOML documents

A document is a sequence of lines: a field `path = value`, a header `[path]` or
`[[path]]`, a comment, or nothing.  Only lists and texts in triple quotes go over
several lines.  `readDocument` gives the fields of the document, or the place
where it is wrong.
-/

namespace ReviewDiff.Toml

/-! ## Ends of lines and comments -/

def skipComment (text : List Char) : List Char :=
  match text with
  | '#' :: rest => rest.dropWhile isPlain
  | _ => text

/-- Reads the end of a line, after blanks and a comment. -/
def readLineEnd (text : List Char) : Except Place (List Char) :=
  let rest := skipComment (skipSpace text)
  match afterNewline? rest with
  | some after => .ok after
  | none => if rest.isEmpty then .ok [] else stuck rest

/-- Skips blanks, comments and ends of lines inside a list; at most `fuel` lines.
-/
def skipGap : (fuel : Nat) → List Char → Except Place (List Char)
  | 0, text => stuck text
  | fuel + 1, text =>
      match skipSpace text with
      | '#' :: rest =>
          match afterNewline? (rest.dropWhile isPlain) with
          | some after => skipGap fuel after
          | none => stuck (rest.dropWhile isPlain)
      | rest =>
          match afterNewline? rest with
          | some after => skipGap fuel after
          | none => if rest.head? = some '\r' then stuck rest else .ok rest

def skipGaps (text : List Char) : Except Place (List Char) :=
  skipGap (text.length + 1) text

/-! ## Lists and inline tables -/

/-- Reads the items of a list up to its closing bracket; at most `fuel` items.
What goes wrong right behind an item is reported where the item starts. -/
def readItems (readValue : List Char → Except Place (Item × List Char)) :
    (fuel : Nat) → List Char → Except Place (List Item × List Char)
  | 0, text => stuck text
  | fuel + 1, text => do
      match ← skipGaps text with
      | ']' :: rest => .ok ([], rest)
      | start =>
          let (item, rest) ← readValue start
          match skipGaps rest with
          | .error _ => stuck start
          | .ok (',' :: rest) =>
              let (items, rest) ← readItems readValue fuel rest
              .ok (item :: items, rest)
          | .ok (']' :: rest) => .ok ([item], rest)
          | .ok rest => stuck rest

/-- A field of an inline table: the path to it, its key and its value. -/
abbrev Pair := List Key × Key × Item

/-- Reads the pairs of an inline table behind a pair; at most `fuel` pairs.  A
comma that no key follows is left. -/
def readPairs (readPair : List Char → Except Place (Pair × List Char)) :
    (fuel : Nat) → List Char → Except Place (List Pair × List Char)
  | 0, text => stuck text
  | fuel + 1, text =>
      match text with
      | ',' :: rest =>
          match readKeys rest with
          | .error _ => .ok ([], text)
          | .ok _ => do
              let (pair, rest) ← readPair rest
              let (pairs, rest) ← readPairs readPair fuel rest
              .ok (pair :: pairs, rest)
      | _ => .ok ([], text)

def readPairOf (readValue : List Char → Except Place (Item × List Char)) (text : List Char) :
    Except Place (Pair × List Char) := do
  let (path, key, rest) ← readKeys text
  let rest ← readMark '=' rest
  let (item, rest) ← readValue (skipSpace rest)
  .ok ((path, key, item), skipSpace rest)

def fill (fields : Fields) : List Pair → Option Fields
  | [] => some fields
  | (path, key, item) :: rest =>
      match fields.insert [] path key item with
      | some fields => fill fields rest
      | none => none

def readInline
    (readValue : List Char → Except Place (Item × List Char)) (place : Place)
    (text : List Char) :
    Except Place (Item × List Char) := do
  let (pairs, rest) ← match readKeys text with
    | .error _ => .ok ([], skipSpace text)
    | .ok _ => do
        let (pair, rest) ← readPairOf readValue text
        let (pairs, rest) ← readPairs (readPairOf readValue) (text.length + 1) rest
        .ok (pair :: pairs, rest)
  match fill [] pairs with
  | some fields =>
      let rest ← readMark '\x7d' rest
      .ok (.table .inline (some place) fields, rest)
  | none => stuck text

/-- Reads a value that lies in others, given how many more may lie in each other.
-/
def readValue : (depth : Nat) → List Char → Except Place (Item × List Char)
  | depth, text =>
      match text with
      | '[' :: rest =>
          match depth with
          | 0 => stuck rest
          | depth + 1 => do
              let (items, after) ← readItems (readValue depth) (rest.length + 1) rest
              .ok (.array text.length items, after)
      | '\x7b' :: rest =>
          match depth with
          | 0 => stuck rest
          | depth + 1 => readInline (readValue depth) text.length rest
      | _ => do
          let (value, rest) ← readScalar text
          .ok (.scalar text.length value, rest)

def depthLimit : Nat := 79

/-! ## Documents -/

/-- A document under way: its fields, and the table that the next field belongs
to. -/
structure Draft where
  fields : Fields
  headers : List Key

def readHeader (draft : Draft) (place : Place) (doubled : Bool) (text : List Char) :
    Except Place (Draft × List Char) := do
  let (path, key, rest) ← readKeys text
  let rest ← readMark ']' rest
  let rest ← if doubled then readMark ']' rest else .ok rest
  let rest ← readLineEnd rest
  let opened :=
    if doubled then draft.fields.openElement path key place
    else draft.fields.openTable path key place
  match opened with
  | some fields => .ok (⟨fields, path ++ [key]⟩, rest)
  | none => .error place

def readField (draft : Draft) (text : List Char) : Except Place (Draft × List Char) := do
  let (path, key, rest) ← readKeys text
  let rest ← readMark '=' rest
  let (item, rest) ← readValue depthLimit (skipSpace rest)
  let rest ← readLineEnd rest
  match draft.fields.insert draft.headers path key item with
  | some fields => .ok (⟨fields, draft.headers⟩, rest)
  | none => stuck text

/-- Reads the lines of a document; at most `fuel` lines. -/
def readLines : (fuel : Nat) → Draft → List Char → Except Place Draft
  | 0, _, text => stuck text
  | fuel + 1, draft, text =>
      match skipSpace text with
      | [] => .ok draft
      | '#' :: rest => do
          let rest ← readLineEnd ('#' :: rest)
          readLines fuel draft rest
      | '[' :: '[' :: rest => do
          let (draft, rest) ← readHeader draft (rest.length + 2) true rest
          readLines fuel draft rest
      | '[' :: rest => do
          let (draft, rest) ← readHeader draft (rest.length + 1) false rest
          readLines fuel draft rest
      | start =>
          match afterNewline? start with
          | some rest => readLines fuel draft rest
          | none => do
              let (draft, rest) ← readField draft start
              readLines fuel draft rest

/-- The text without the mark that can stand at its start. -/
def skipByteOrderMark : List Char → List Char
  | '\uFEFF' :: rest => rest
  | text => text

def readDocument (text : List Char) : Except Place Fields := do
  let draft ← readLines (text.length + 1) ⟨[], []⟩ (skipByteOrderMark text)
  .ok draft.fields

end ReviewDiff.Toml

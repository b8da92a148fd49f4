/-!
# UTF-8 as bytes

`Utf8.encode` writes a text as bytes.  `Utf8.pieces` reads bytes one at a time
into characters and malformed places; `Utf8.decode?` refuses a malformed place and
`Utf8.decodeLossy` puts U+FFFD there.  A malformed place is the longest run of
bytes that could still have begun a character.
-/

namespace ReviewDiff

abbrev Bytes := List UInt8

namespace Utf8

def encode (text : String) : Bytes :=
  text.toList.flatMap String.utf8EncodeChar

/-! ## Reading -/

/-- What a lead byte contributes to the code point, and the range of each
continuation byte that must follow; `none` when no character starts with this
byte. -/
def lead (byte : UInt8) : Option (Nat × List (UInt8 × UInt8)) :=
  let tail : UInt8 × UInt8 := (0x80, 0xBF)
  let code := byte.toNat
  if code < 0x80 then some (code, [])
  else if code < 0xC2 then none
  else if code < 0xE0 then some (code % 32, [tail])
  else if code = 0xE0 then some (0, [(0xA0, 0xBF), tail])
  else if code = 0xED then some (code % 16, [(0x80, 0x9F), tail])
  else if code < 0xF0 then some (code % 16, [tail, tail])
  else if code = 0xF0 then some (0, [(0x90, 0xBF), tail, tail])
  else if code < 0xF4 then some (code % 8, [tail, tail, tail])
  else if code = 0xF4 then some (4, [(0x80, 0x8F), tail, tail])
  else none

/-- Where a reader stands: inside a character it knows the bits so far and the
continuation bytes still owed. -/
structure State where
  value : Nat
  owed : List (UInt8 × UInt8)

def State.start : State := ⟨0, []⟩

/-- Reads a byte that starts a character.  A missing character stands for a
malformed place. -/
def State.openWith (byte : UInt8) : List (Option Char) × State :=
  match lead byte with
  | none => ([none], .start)
  | some (value, []) => ([some (Char.ofNat value)], .start)
  | some (value, owed) => ([], ⟨value, owed⟩)

/-- Reads one byte: what became complete, and the state after it. -/
def State.step (state : State) (byte : UInt8) : List (Option Char) × State :=
  match state.owed with
  | [] => State.openWith byte
  | (low, high) :: owed =>
      if low ≤ byte && byte ≤ high then
        let value := state.value * 64 + byte.toNat % 64
        match owed with
        | [] => ([some (Char.ofNat value)], .start)
        | _ => ([], ⟨value, owed⟩)
      else
        let (pieces, next) := State.openWith byte
        (none :: pieces, next)

/-- The characters and malformed places of a byte sequence, in order. -/
def piecesFrom (state : State) : Bytes → List (Option Char)
  | [] => if state.owed.isEmpty then [] else [none]
  | byte :: rest =>
      let (pieces, next) := state.step byte
      pieces ++ piecesFrom next rest

def pieces (bytes : Bytes) : List (Option Char) :=
  piecesFrom .start bytes

/-- The text that the bytes spell, if they are well formed. -/
def decode? (bytes : Bytes) : Option String :=
  ((pieces bytes).mapM id).map String.ofList

/-- The text that the bytes spell, with U+FFFD at every malformed place. -/
def decodeLossy (bytes : Bytes) : String :=
  String.ofList ((pieces bytes).map (·.getD '\uFFFD'))

end Utf8

end ReviewDiff

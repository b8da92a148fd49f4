import ReviewDiff.Text.Hidden
import ReviewDiff.Text.Number

/-!
# Texts in messages, with quotes and escapes

A character that does not show on its own is written by its code point.
-/

namespace ReviewDiff.Text

/-- A character as a message shows it. -/
def debugChar (c : Char) : List Char :=
  match c with
  | '"' => ['\\', '"']
  | '\\' => ['\\', '\\']
  | '\t' => ['\\', 't']
  | '\n' => ['\\', 'n']
  | '\r' => ['\\', 'r']
  | '\x00' => ['\\', '0']
  | c =>
      if isHidden c then
        ['\\', 'u', '\x7b'] ++ hexDigits 1 c.toNat ++ ['\x7d']
      else [c]

def debug (text : String) : String :=
  String.ofList ('"' :: text.toList.flatMap debugChar ++ ['"'])

end ReviewDiff.Text

import PatternLowering.Text
import PatternLowering.Text.Hidden

/-!
# Texts shown to people

A text between quotation marks in which every character can be seen: hidden ones are written by
their number.
-/

namespace PatternLowering.Text

def shownChar (c : Char) : Text :=
  match c with
  | '\x00' => ['\\', '0']
  | '\t' => ['\\', 't']
  | '\n' => ['\\', 'n']
  | '\r' => ['\\', 'r']
  | '"' => ['\\', '"']
  | '\\' => ['\\', '\\']
  | c =>
    if Ranges.hidden.holds c then '\\' :: 'u' :: '{' :: Nat.toDigits 16 c.toNat ++ ['}'] else [c]

def shown (text : Text) : Text := '"' :: text.flatMap shownChar ++ ['"']

end PatternLowering.Text

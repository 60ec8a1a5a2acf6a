import PatternLowering.Text

/-!
# Quoted strings

A string between quotation marks. Only the quotation mark, the backslash and the control characters
are escaped, the common ones by a letter and the others by their number.
-/

namespace PatternLowering.Json

def hexDigit (n : Nat) : Char := if n < 10 then Char.ofNat (48 + n) else Char.ofNat (87 + n)

def escapeChar (c : Char) : Text :=
  match c with
  | '"' => ['\\', '"']
  | '\\' => ['\\', '\\']
  | '\n' => ['\\', 'n']
  | '\r' => ['\\', 'r']
  | '\t' => ['\\', 't']
  | '\x08' => ['\\', 'b']
  | '\x0c' => ['\\', 'f']
  | c =>
    if c < ' ' then ['\\', 'u', '0', '0', hexDigit (c.toNat / 16), hexDigit (c.toNat % 16)] else [c]

def quoted (text : Text) : Text := '"' :: text.flatMap escapeChar ++ ['"']

end PatternLowering.Json

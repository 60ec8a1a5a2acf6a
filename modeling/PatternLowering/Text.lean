/-!
# Texts and byte offsets

A text is a list of characters. Positions in it are counted in bytes of its UTF-8 form, so an
offset may fall inside a character; cutting there gives nothing.

Offsets are natural numbers. They stand for numbers of 32 bits, which are the same for every text of
fewer than `2 ^ 32` bytes; what becomes of a longer text is told by the functions whose names end in
`32`.
-/

namespace PatternLowering

/-- What 32 bits keep of a number. -/
def low32 (n : Nat) : Nat := n % 0x100000000

theorem low32_eq {n : Nat} (small : n < 0x100000000) : low32 n = n := Nat.mod_eq_of_lt small

abbrev Text := List Char

namespace Text

/-- Number of bytes of the UTF-8 form. -/
def size (text : Text) : Nat := text.foldr (fun c total => c.utf8Size + total) 0

/-- What follows the first `count` bytes. -/
def drop? : Nat → Text → Option Text
  | 0, text => some text
  | _ + 1, [] => none
  | count + 1, c :: rest =>
    if c.utf8Size ≤ count + 1 then drop? (count + 1 - c.utf8Size) rest else none

/-- The first `count` bytes. -/
def take? : Nat → Text → Option Text
  | 0, _ => some []
  | _ + 1, [] => none
  | count + 1, c :: rest =>
    if c.utf8Size ≤ count + 1 then (take? (count + 1 - c.utf8Size) rest).map (c :: ·) else none

/-- The bytes from `start` up to `stop`. -/
def slice? (text : Text) (start stop : Nat) : Option Text :=
  if start ≤ stop then (text.drop? start).bind (take? (stop - start)) else none

/-- As `slice?`, with nothing where the cut would split a character or leave the text. -/
def slice (text : Text) (start stop : Nat) : Text := (text.slice? start stop).getD []

/-- The offset is at the start of a character or at the end of the text. -/
def isBoundary (text : Text) (offset : Nat) : Bool := (text.drop? offset).isSome

/-- The order of a dictionary, by the numbers of the characters. -/
def le : Text → Text → Bool
  | [], _ => true
  | _ :: _, [] => false
  | a :: as, b :: bs => if a = b then le as bs else a.toNat < b.toNat

end Text

end PatternLowering

import PatternLowering.Text

/-!
# Cursors

A cursor is a place in a text: how many bytes lie before it and what lies after it. It only ever
moves by whole characters.
-/

namespace PatternLowering

structure Cursor where
  offset : Nat
  rest : Text
deriving DecidableEq, Repr

namespace Cursor

def atStart (text : Text) : Cursor := ⟨0, text⟩

/-- Moves over one character, if there is one. -/
def advance : Cursor → Cursor
  | ⟨offset, c :: rest⟩ => ⟨offset + c.utf8Size, rest⟩
  | ⟨offset, []⟩ => ⟨offset, []⟩

/-- Moves over `count` characters, or as many as there are. -/
def skip (cursor : Cursor) : Nat → Cursor
  | 0 => cursor
  | count + 1 => cursor.advance.skip count

def skipWhileFrom (p : Char → Bool) (offset : Nat) : Text → Cursor
  | [] => ⟨offset, []⟩
  | c :: rest => if p c then skipWhileFrom p (offset + c.utf8Size) rest else ⟨offset, c :: rest⟩

/-- Moves over the longest run of characters that satisfy `p`. -/
def skipWhile (cursor : Cursor) (p : Char → Bool) : Cursor :=
  skipWhileFrom p cursor.offset cursor.rest

def head? (cursor : Cursor) : Option Char := cursor.rest.head?

/-- The text from this cursor to a later one. -/
def textUpTo (cursor later : Cursor) : Text :=
  (cursor.rest.take? (later.offset - cursor.offset)).getD []

end Cursor

end PatternLowering

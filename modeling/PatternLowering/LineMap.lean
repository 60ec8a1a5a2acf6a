import PatternLowering.Text

/-!
# Lines

A line ends at a line feed, at a carriage return, or at the two together, which count once. Lines
and columns are numbered from one; columns count bytes, in 32 bits.
-/

namespace PatternLowering

structure Position where
  line : Nat
  column : Nat
deriving DecidableEq, Repr

/-- The offsets at which the lines of a text start, the first line included. -/
structure LineMap where
  starts : List Nat
deriving DecidableEq, Repr

namespace LineMap

/-- The offsets just past the line breaks of a text that starts at `offset`. -/
def breakEnds (offset : Nat) : Text → List Nat
  | [] => []
  | '\r' :: '\n' :: rest => (offset + 2) :: breakEnds (offset + 2) rest
  | c :: rest =>
    let next := offset + c.utf8Size
    if c = '\n' ∨ c = '\r' then next :: breakEnds next rest else breakEnds next rest

def ofText (text : Text) : LineMap := ⟨0 :: breakEnds 0 text⟩

/-- The starts are kept in 32 bits. -/
def ofText32 (text : Text) : LineMap := ⟨0 :: (breakEnds 0 text).map low32⟩

def count (map : LineMap) : Nat := map.starts.length

/-- The lines that start at or before the offset; the last of them holds it. -/
def upTo (map : LineMap) (offset : Nat) : List Nat := map.starts.takeWhile (· ≤ offset)

def lineOf (map : LineMap) (offset : Nat) : Nat := max 1 (map.upTo offset).length

def lineStart (map : LineMap) (offset : Nat) : Nat := (map.upTo offset).getLastD 0

/-- Columns have numbers below this bound; after the largest comes zero. -/
def columnBound : Nat := 0x100000000

def position (map : LineMap) (offset : Nat) : Position :=
  ⟨map.lineOf offset, (offset - map.lineStart offset + 1) % columnBound⟩

end LineMap

end PatternLowering

import PatternLowering.Text

/-!
# Edits

Pending changes to a text, recorded against offsets of the text as it was. No two replacements
overlap and no insertion lies inside one. A replacement may cover earlier edits: whoever replaces a
range first reads it with those edits applied and takes them over.
-/

namespace PatternLowering

/-- Puts `text` in place of the bytes from `start` up to `stop`; an insertion if these are none. -/
structure Edit where
  start : Nat
  stop : Nat
  text : Text
deriving DecidableEq, Repr

namespace Edit

def isInsertion (e : Edit) : Bool := e.start == e.stop

/-- Edits are applied by offset, insertions before the replacement that starts where they stand. -/
def precedes (e later : Edit) : Bool :=
  e.start < later.start || (e.start == later.start && (e.isInsertion || !later.isInsertion))

/-- The edit has its effect within the range: an insertion strictly inside, a replacement anywhere.
-/
def isWithin (e : Edit) (start stop : Nat) : Bool :=
  if e.isInsertion then start < e.start && e.start < stop else start ≤ e.start && e.stop ≤ stop

/-- A replacement that shares bytes with the range without lying in it. -/
def cuts (e : Edit) (start stop : Nat) : Bool :=
  !(e.isInsertion || e.stop ≤ start || stop ≤ e.start || (start ≤ e.start && e.stop ≤ stop))

/-- A replacement with the offset strictly inside. -/
def covers (e : Edit) (offset : Nat) : Bool :=
  !e.isInsertion && e.start < offset && offset < e.stop

/-- Puts an edit behind those that precede it, the ones recorded before it at its place included. -/
def insertInto (e : Edit) : List Edit → List Edit
  | [] => [e]
  | first :: later =>
    if first.precedes e then first :: e.insertInto later else e :: first :: later

end Edit

inductive EditError where
  | invalidRange (start stop : Nat)
  | overlap (start stop : Nat)
deriving DecidableEq, Repr

/-- The edits stand in the order in which they are applied; `length` is how far the text is read. -/
structure EditBuffer where
  source : Text
  edits : List Edit
  length : Nat
deriving DecidableEq, Repr

namespace EditBuffer

def ofText (source : Text) : EditBuffer := ⟨source, [], source.size⟩

/-- The length of the text is kept in 32 bits. -/
def ofText32 (source : Text) : EditBuffer := ⟨source, [], low32 source.size⟩

theorem ofText32_eq {source : Text} (small : source.size < 0x100000000) :
    ofText32 source = ofText source := by
  rw [ofText32, low32_eq small, ofText]

def size (b : EditBuffer) : Nat := b.edits.length

def replacements (b : EditBuffer) : Nat := b.edits.countP fun e => !e.isInsertion

/-- A range of the text that splits no character. -/
def isRange (b : EditBuffer) (start stop : Nat) : Bool :=
  start ≤ stop && b.source.isBoundary start && b.source.isBoundary stop

/-- Insertions at one offset stay in the order in which they were made. -/
def insert (b : EditBuffer) (offset : Nat) (text : Text) : Except EditError EditBuffer :=
  if !b.isRange offset offset then .error (.invalidRange offset offset)
  else if b.edits.any fun e => e.covers offset then .error (.overlap offset offset)
  else .ok { b with edits := Edit.insertInto ⟨offset, offset, text⟩ b.edits }

/-- Edits inside the range are dropped, insertions at its ends are kept. -/
def replace (b : EditBuffer) (start stop : Nat) (text : Text) : Except EditError EditBuffer :=
  if !b.isRange start stop then .error (.invalidRange start stop)
  else if start = stop then b.insert start text
  else if b.edits.any fun e => e.cuts start stop then .error (.overlap start stop)
  else
    let kept := b.edits.filter fun e => !e.isWithin start stop
    .ok { b with edits := Edit.insertInto ⟨start, stop, text⟩ kept }

/-- The text from `cursor` up to `stop` with the edits applied. -/
def render (source : Text) (stop : Nat) (cursor : Nat) : List Edit → Text
  | [] => source.slice cursor stop
  | e :: later =>
    source.slice cursor e.start ++ e.text ++ render source stop (max cursor e.stop) later

/-- The range with the edits within it applied; what lies past the end of the text is left out. -/
def get (b : EditBuffer) (start stop : Nat) : Text :=
  let stop := min stop b.length
  let start := min start stop
  render b.source stop start (b.edits.filter fun e => e.isWithin start stop)

/-- The whole text with all edits applied. -/
def apply (b : EditBuffer) : Text := render b.source b.length 0 b.edits

end EditBuffer

end PatternLowering

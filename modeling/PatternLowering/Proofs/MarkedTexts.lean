import PatternLowering.Proofs.Rendering

/-!
# Texts with marked declarations

A text in which the inserted declarations are marked can be written in two ways, with them and
without them. The same goes for the edits that put such texts in their places: without the
declarations, what is only an insertion is nothing at all.
-/

namespace PatternLowering

open List

/-- A piece of a text, which may be an inserted declaration. -/
inductive Mark where
  | plain (text : Text)
  | declaration (text : Text)
deriving DecidableEq, Repr

namespace Mark

def full : Mark → Text
  | plain text => text
  | declaration text => text

def bare : Mark → Text
  | plain text => text
  | declaration _ => []

def declaration? : Mark → Option Text
  | plain _ => none
  | declaration text => some text

end Mark

abbrev MarkedText := List Mark

namespace MarkedText

/-- The text with its declarations. -/
def full (text : MarkedText) : Text := text.flatMap Mark.full

/-- The text without its declarations. -/
def bare (text : MarkedText) : Text := text.flatMap Mark.bare

def declarations (text : MarkedText) : List Text := text.filterMap Mark.declaration?

variable (first second : MarkedText)

@[simp] lemma full_append : (first ++ second).full = first.full ++ second.full := flatMap_append

@[simp] lemma bare_append : (first ++ second).bare = first.bare ++ second.bare := flatMap_append

@[simp] lemma declarations_append :
    (first ++ second).declarations = first.declarations ++ second.declarations := filterMap_append

@[simp] lemma full_cons (mark : Mark) (text : MarkedText) :
    full (mark :: text) = mark.full ++ text.full := rfl

@[simp] lemma bare_cons (mark : Mark) (text : MarkedText) :
    bare (mark :: text) = mark.bare ++ text.bare := rfl

@[simp] lemma declarations_plain (piece : Text) (text : MarkedText) :
    declarations (.plain piece :: text) = text.declarations := rfl

@[simp] lemma declarations_declaration (piece : Text) (text : MarkedText) :
    declarations (.declaration piece :: text) = piece :: text.declarations := rfl

@[simp] lemma full_nil : full [] = [] := rfl

@[simp] lemma bare_nil : bare [] = [] := rfl

@[simp] lemma declarations_nil : declarations [] = [] := rfl

end MarkedText

/-- An edit with a marked text. -/
structure MarkedEdit where
  start : Nat
  stop : Nat
  text : MarkedText
deriving DecidableEq, Repr

namespace MarkedEdit

def full (e : MarkedEdit) : Edit := ⟨e.start, e.stop, e.text.full⟩

def bare (e : MarkedEdit) : Edit := ⟨e.start, e.stop, e.text.bare⟩

def isWithin (e : MarkedEdit) (start stop : Nat) : Bool := e.full.isWithin start stop

/-- The declarations in the texts of the edits, in order. -/
def declarations (edits : List MarkedEdit) : List Text := edits.flatMap (·.text.declarations)

/-- The edits in the order in which a buffer holds them. -/
def insertInto (e : MarkedEdit) : List MarkedEdit → List MarkedEdit
  | [] => [e]
  | first :: later =>
    if first.full.precedes e.full then first :: e.insertInto later else e :: first :: later

/-- The text from `cursor` up to `stop` with the edits applied. -/
def render (source : Text) (stop : Nat) : Nat → List MarkedEdit → MarkedText
  | cursor, [] => [.plain (source.slice cursor stop)]
  | cursor, e :: later =>
    .plain (source.slice cursor e.start) :: (e.text ++ render source stop (max cursor e.stop) later)

/-- The edits of a run without declarations. -/
def replacements (edits : List MarkedEdit) : List Edit :=
  (edits.map bare).filter fun e => !e.isInsertion

variable {e : MarkedEdit} {edits : List MarkedEdit} {source : Text} {cursor stop : Nat}

lemma full_insertInto (e : MarkedEdit) (edits : List MarkedEdit) :
    (e.insertInto edits).map full = e.full.insertInto (edits.map full) := by
  induction edits with
  | nil => rfl
  | cons first later ih =>
    rw [insertInto, map_cons, Edit.insertInto]
    split
    · rw [map_cons, ih]
    · rfl

lemma bare_insertInto (e : MarkedEdit) (edits : List MarkedEdit) :
    (e.insertInto edits).map bare = e.bare.insertInto (edits.map bare) := by
  induction edits with
  | nil => rfl
  | cons first later ih =>
    have same : first.bare.precedes e.bare = first.full.precedes e.full := rfl
    rw [insertInto, map_cons, Edit.insertInto, same]
    split
    · rw [map_cons, ih]
    · rfl

lemma insertInto_perm (e : MarkedEdit) (edits : List MarkedEdit) :
    (e.insertInto edits).Perm (e :: edits) := by
  induction edits with
  | nil => exact .refl _
  | cons first later ih =>
    rw [insertInto]
    split
    · exact (ih.cons first).trans (.swap e first later)
    · exact .refl _

lemma declarations_perm {edits' : List MarkedEdit} (perm : edits.Perm edits') :
    (declarations edits).Perm (declarations edits') := perm.flatMap_right _

lemma full_render (source : Text) (stop cursor : Nat) (edits : List MarkedEdit) :
    (render source stop cursor edits).full = EditBuffer.render source stop cursor
      (edits.map full) := by
  induction edits generalizing cursor with
  | nil => simp [render, EditBuffer.render, Mark.full]
  | cons e later ih => simp [render, EditBuffer.render, ih, full, Mark.full]

lemma bare_render (source : Text) (stop cursor : Nat) (edits : List MarkedEdit) :
    (render source stop cursor edits).bare = EditBuffer.render source stop cursor
      (edits.map bare) := by
  induction edits generalizing cursor with
  | nil => simp [render, EditBuffer.render, Mark.bare]
  | cons e later ih => simp [render, EditBuffer.render, ih, bare, Mark.bare]

lemma declarations_render (source : Text) (stop cursor : Nat) (edits : List MarkedEdit) :
    (render source stop cursor edits).declarations = declarations edits := by
  induction edits generalizing cursor with
  | nil => simp [render, declarations]
  | cons e later ih =>
    rw [render, MarkedText.declarations_plain, MarkedText.declarations_append, ih]
    rfl

end MarkedEdit

/-- Insertions of nothing can be left out. -/
lemma EditsFrom.render_replacements {source : Text} {cursor stop : Nat} {edits : List Edit}
    (inOrder : EditsFrom source cursor edits) (opens : source.isBoundary cursor)
    (closes : source.isBoundary stop) (forward : cursor ≤ stop) (upTo : ∀ e ∈ edits, e.stop ≤ stop)
    (nothing : ∀ e ∈ edits, e.isInsertion → e.text = []) :
    EditBuffer.render source stop cursor (edits.filter fun e => !e.isInsertion) =
      EditBuffer.render source stop cursor edits := by
  induction edits generalizing cursor with
  | nil => rfl
  | cons e later ih =>
    obtain ⟨wide, starting, ending⟩ := inOrder.ranges e (by simp)
    have ahead := inOrder.ahead e (by simp)
    have last := upTo e (by simp)
    have rest := ih inOrder.tail ending last (fun e mem => upTo e (by simp [mem]))
      (fun e mem => nothing e (by simp [mem]))
    rw [EditBuffer.render, max_eq_right (ahead.trans wide), ← rest]
    cases insertion : e.isInsertion with
    | true =>
      have same : e.start = e.stop := by simpa [Edit.isInsertion] using insertion
      rw [filter_cons_of_neg (by simp [insertion]), nothing e (by simp) insertion, append_nil, same]
      have later' : EditsFrom source e.stop (later.filter fun e => !e.isInsertion) :=
        inOrder.tail.sublist filter_sublist
      exact later'.render_eq_append opens ending closes (ahead.trans wide) last
    | false =>
      rw [filter_cons_of_pos (by simp [insertion]), EditBuffer.render,
        max_eq_right (ahead.trans wide)]

namespace Edit

variable {e : Edit} {edits : List Edit}

lemma insertInto_of_not_precedes (behind : ∀ f ∈ edits, ¬ f.precedes e) :
    e.insertInto edits = e :: edits := by
  cases edits with
  | nil => rfl
  | cons first later => rw [insertInto, if_neg (behind first (by simp))]

/-- A replacement takes its place among replacements as it does among all edits. -/
lemma filter_insertInto_of_wide (wide : e.start < e.stop) (forward : ∀ f ∈ edits, f.start ≤ f.stop)
    (ordered : edits.Pairwise fun f g => f.stop ≤ g.start) :
    (e.insertInto edits).filter (fun f => !f.isInsertion) =
      e.insertInto (edits.filter fun f => !f.isInsertion) := by
  have isWide : (!e.isInsertion) = true := by simp [isInsertion, wide.ne]
  induction edits with
  | nil => simp [insertInto, isWide]
  | cons first later ih =>
    obtain ⟨before, rest⟩ := pairwise_cons.mp ordered
    have same := ih (fun f mem => forward f (by simp [mem])) rest
    by_cases precedes : first.precedes e
    · rw [insertInto, if_pos precedes]
      by_cases insertion : first.isInsertion
      · rw [filter_cons_of_neg (by simp [insertion]), filter_cons_of_neg (by simp [insertion]),
          same]
      · rw [filter_cons_of_pos (by simp [insertion]), filter_cons_of_pos (by simp [insertion]),
          same, insertInto, if_pos precedes]
    · -- What stands behind the first edit does not precede the replacement either.
      have behind (f : Edit) (mem : f ∈ first :: later) : ¬ f.precedes e := by
        rw [precedes_iff] at precedes ⊢
        rcases mem_cons.mp mem with rfl | mem
        · exact precedes
        · have := before f mem
          have := forward first (by simp)
          omega
      rw [insertInto_of_not_precedes behind, filter_cons_of_pos (by simpa using isWide),
        insertInto_of_not_precedes fun f mem => behind f (mem_filter.mp mem).1]

end Edit

end PatternLowering

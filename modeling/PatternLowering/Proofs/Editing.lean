import Mathlib
import PatternLowering.Edit

/-!
# Edits and ranges

Edits that lie outside of a range or in it never stand in the way of a replacement of the range.
What is read from a buffer consists of stretches of the source and the texts of the edits in the
range, in order and each once.
-/

namespace PatternLowering

namespace Edit

variable {e : Edit} {r r' : Nat × Nat}

/-- The edit has no effect in the range. -/
def Outside (e : Edit) (r : Nat × Nat) : Prop := e.start ≤ e.stop ∧ (e.stop ≤ r.1 ∨ r.2 ≤ e.start)

/-- The edit has its effect in the range. -/
def Inside (e : Edit) (r : Nat × Nat) : Prop := e.start ≤ e.stop ∧ e.isWithin r.1 r.2

lemma isWithin_iff : e.isWithin r.1 r.2 ↔
    (e.start = e.stop ∧ r.1 < e.start ∧ e.start < r.2) ∨
      (e.start ≠ e.stop ∧ r.1 ≤ e.start ∧ e.stop ≤ r.2) := by
  unfold isWithin isInsertion
  by_cases insertion : e.start = e.stop <;> simp [insertion]

lemma Inside.mono (inside : e.Inside r) (before : r'.1 ≤ r.1) (after : r.2 ≤ r'.2) :
    e.Inside r' := by
  unfold Inside at *
  rw [isWithin_iff] at *
  omega

lemma Outside.mono (outside : e.Outside r) (before : r.1 ≤ r'.1) (after : r'.2 ≤ r.2) :
    e.Outside r' := by
  unfold Outside at *
  omega

lemma Inside.outside (inside : e.Inside r) (apart : r.2 ≤ r'.1 ∨ r'.2 ≤ r.1) : e.Outside r' := by
  unfold Inside at inside
  rw [isWithin_iff] at inside
  unfold Outside
  omega

lemma Outside.not_isWithin (outside : e.Outside r) : ¬ e.isWithin r.1 r.2 := by
  rw [isWithin_iff]
  unfold Outside at outside
  omega

lemma cuts_eq_false (fits : e.Outside r ∨ e.Inside r) : e.cuts r.1 r.2 = false := by
  unfold cuts isInsertion
  unfold Outside Inside at fits
  rw [isWithin_iff] at fits
  by_cases insertion : e.start = e.stop
  · simp [insertion]
  · have : (e.start == e.stop) = false := by simpa using insertion
    simp only [this, Bool.false_or, Bool.not_eq_false', Bool.or_eq_true, Bool.and_eq_true,
      decide_eq_true_eq]
    omega

lemma covers_eq_false {offset : Nat}
    (fits : e.start = e.stop ∨ offset ≤ e.start ∨ e.stop ≤ offset) : e.covers offset = false := by
  unfold covers isInsertion
  by_cases insertion : e.start = e.stop
  · simp [insertion]
  · simp only [Bool.and_eq_false_iff, decide_eq_false_iff_not]
    omega

lemma mem_insertInto {e' : Edit} (edits : List Edit) :
    e' ∈ e.insertInto edits ↔ e' = e ∨ e' ∈ edits := by
  induction edits with
  | nil => simp [insertInto]
  | cons first later ih =>
    rw [insertInto]
    split
    · rw [List.mem_cons, ih, List.mem_cons]
      tauto
    · rw [List.mem_cons]

end Edit

namespace EditBuffer

variable {b b' : EditBuffer} {start stop offset : Nat} {text : Text}

/-- A buffer without its edits. -/
def base (b : EditBuffer) : EditBuffer := { b with edits := [] }

lemma source_of_base (isBase : b.base = .ofText text) : b.source = text := congrArg source isBase

lemma length_of_base (isBase : b.base = .ofText text) : b.length = text.size :=
  congrArg length isBase

lemma isRange_eq_true (forward : start ≤ stop) (opens : b.source.isBoundary start)
    (closes : b.source.isBoundary stop) : b.isRange start stop = true := by
  simp [isRange, forward, opens, closes]

/-- A range that no edit cuts can be replaced. -/
lemma replace_eq_ok (wide : start < stop) (opens : b.source.isBoundary start)
    (closes : b.source.isBoundary stop)
    (fits : ∀ e ∈ b.edits, e.Outside (start, stop) ∨ e.Inside (start, stop)) :
    b.replace start stop text = .ok
      { b with
        edits := Edit.insertInto ⟨start, stop, text⟩
          (b.edits.filter fun e => !e.isWithin start stop) } := by
  have range := isRange_eq_true wide.le opens closes
  have noCuts : (b.edits.any fun e => e.cuts start stop) = false := by
    rw [List.any_eq_false]
    intro e mem
    rw [Edit.cuts_eq_false (r := (start, stop)) (fits e mem)]
    exact Bool.false_ne_true
  simp [replace, range, wide.ne, noCuts]

/-- The edits after a range has been replaced. -/
lemma mem_edits_of_replace (wide : start < stop) (done : b.replace start stop text = .ok b') :
    b'.base = b.base ∧ ∀ e, e ∈ b'.edits ↔
      e = ⟨start, stop, text⟩ ∨ e ∈ b.edits ∧ ¬ e.isWithin start stop := by
  unfold replace at done
  split at done
  · cases done
  · rw [if_neg wide.ne] at done
    split at done
    · cases done
    · cases done
      refine ⟨rfl, fun e => ?_⟩
      simp [Edit.mem_insertInto]

/-- An insertion succeeds at a boundary that no replacement covers. -/
lemma insert_eq_ok (boundary : b.source.isBoundary offset)
    (fits : ∀ e ∈ b.edits, e.start = e.stop ∨ offset ≤ e.start ∨ e.stop ≤ offset) :
    b.insert offset text =
      .ok { b with edits := Edit.insertInto ⟨offset, offset, text⟩ b.edits } := by
  have range := isRange_eq_true le_rfl boundary boundary
  have uncovered : (b.edits.any fun e => e.covers offset) = false := by
    rw [List.any_eq_false]
    intro e mem
    rw [Edit.covers_eq_false (fits e mem)]
    exact Bool.false_ne_true
  simp [insert, range, uncovered]

lemma eq_of_insert (done : b.insert offset text = .ok b') :
    b' = { b with edits := Edit.insertInto ⟨offset, offset, text⟩ b.edits } := by
  unfold insert at done
  split at done
  · cases done
  · split at done
    · cases done
    · cases done
      rfl

lemma mem_edits_of_insert (done : b.insert offset text = .ok b') :
    b'.base = b.base ∧ ∀ e, e ∈ b'.edits ↔ e = ⟨offset, offset, text⟩ ∨ e ∈ b.edits := by
  rw [eq_of_insert done]
  exact ⟨rfl, fun e => Edit.mem_insertInto b.edits⟩

end EditBuffer

end PatternLowering

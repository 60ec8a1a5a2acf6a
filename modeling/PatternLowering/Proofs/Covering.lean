import PatternLowering.Proofs.Embedding
import PatternLowering.Proofs.Rendering

/-!
# Replacing a range by its own text

A range that is replaced by what a buffer reads there looks the same as before: the edits that are
dropped are those that were read, and they follow one another in the text. The range falls into
three parts with the edits before it, in it and behind it, and only the middle one changes its form.
-/

namespace PatternLowering

open List Edit

namespace EditsFrom

variable {source : Text} {cursor mid stop : Nat} {before later : List Edit}

/-- Edits that end before an offset, and edits that start behind it. -/
lemma render_append (first : EditsFrom source cursor before) (second : EditsFrom source mid later)
    (ends : ∀ e ∈ before, e.stop ≤ mid) (opens : source.isBoundary cursor)
    (between : source.isBoundary mid) (closes : source.isBoundary stop) (forward : cursor ≤ mid)
    (onward : mid ≤ stop) : EditBuffer.render source stop cursor (before ++ later) =
      EditBuffer.render source mid cursor before ++ EditBuffer.render source stop mid later := by
  induction before generalizing cursor with
  | nil => exact second.render_eq_append opens between closes forward onward
  | cons e more ih =>
    have ahead := first.ahead e (by simp)
    obtain ⟨wide, _, ending⟩ := first.ranges e (by simp)
    have top : max cursor e.stop = e.stop := by omega
    rw [cons_append, EditBuffer.render, EditBuffer.render, top,
      ih first.tail (fun f mem => ends f (by simp [mem])) ending (ends e (by simp))]
    simp

end EditsFrom

namespace Edit

variable {start stop : Nat} {edits before later : List Edit}

/-- Edits in order that do not clash with a range stand before it, in it or behind it. -/
lemma exists_parts (forward : ∀ e ∈ edits, e.start ≤ e.stop)
    (ordered : edits.Pairwise fun e f => e.stop ≤ f.start)
    (free : ∀ e ∈ edits, ¬ e.Clashes start stop) :
    ∃ before inside later, edits = before ++ (inside ++ later) ∧ (∀ e ∈ before, e.stop ≤ start) ∧
      (∀ e ∈ inside, e.isWithin start stop) ∧ ∀ e ∈ later, start < e.stop ∧ stop ≤ e.start := by
  induction edits with
  | nil => exact ⟨[], [], [], rfl, by simp, by simp, by simp⟩
  | cons e more ih =>
    obtain ⟨before, inside, later, rfl, ends, within, starts⟩ :=
      ih (fun f mem => forward f (by simp [mem])) (pairwise_cons.mp ordered).2
        (fun f mem => free f (by simp [mem]))
    have wide := forward e (by simp)
    have next := (pairwise_cons.mp ordered).1
    by_cases earlier : e.stop ≤ start
    · exact ⟨e :: before, inside, later, rfl, by simpa using ⟨earlier, ends⟩, within, starts⟩
    -- What follows an edit that ends behind the start of the range does so too.
    have none : before = [] := by
      rw [eq_nil_iff_forall_not_mem]
      intro f mem
      have := ends f mem
      have := next f (by simp [mem])
      have := forward f (by simp [mem])
      omega
    subst none
    by_cases isInside : e.isWithin start stop
    · exact ⟨[], e :: inside, later, rfl, by simp, by simpa using ⟨isInside, within⟩, starts⟩
    · have behind : stop ≤ e.start := by
        have clear := free e (by simp)
        unfold Clashes at clear
        rw [isWithin_iff (r := (start, stop))] at isInside
        omega
      refine ⟨[], [], e :: (inside ++ later), rfl, by simp, by simp, fun f mem => ?_⟩
      rcases mem_cons.mp mem with rfl | mem
      · omega
      · have := next f mem
        have := forward f (by simp [mem])
        omega

lemma not_isWithin_of_beside {e : Edit} (forward : e.start ≤ e.stop)
    (beside : e.stop ≤ start ∨ start < e.stop ∧ stop ≤ e.start) :
    e.isWithin start stop = false := by
  rw [Bool.eq_false_iff, Ne, isWithin_iff (r := (start, stop))]
  omega

lemma insertInto_append (e : Edit) (behind : ∀ f ∈ before, f.precedes e)
    (ahead : ∀ f ∈ later, ¬ f.precedes e) :
    e.insertInto (before ++ later) = before ++ e :: later := by
  induction before with
  | nil =>
    cases later with
    | nil => rfl
    | cons f more => rw [nil_append, insertInto, if_neg (ahead f (by simp)), nil_append]
  | cons f more ih =>
    rw [cons_append, insertInto, if_pos (behind f (by simp)),
      ih fun g mem => behind g (by simp [mem]), cons_append]

end Edit

namespace EditBuffer

variable {b b' : EditBuffer} {start stop : Nat} {text : Text}

/-- The edits before and after a replacement: those in the range make room for it, and the others
stay on either side. -/
structure Replaces (b b' : EditBuffer) (start stop : Nat) (text : Text)
    (before inside later : List Edit) : Prop where
  base : b'.base = b.base
  old : b.edits = before ++ (inside ++ later)
  new : b'.edits = before ++ ([⟨start, stop, text⟩] ++ later)
  range : start ≤ stop ∧ b.source.isBoundary start ∧ b.source.isBoundary stop
  ends : ∀ e ∈ before, e.stop ≤ start
  within : ∀ e ∈ inside, e.isWithin start stop
  starts : ∀ e ∈ later, start < e.stop ∧ stop ≤ e.start

lemma Orderly.exists_replaces (orderly : b.Orderly) (done : b.replace start stop text = .ok b') :
    ∃ before inside later, Replaces b b' start stop text before inside later := by
  rw [replace_eq orderly] at done
  obtain ⟨⟨range, free⟩, rfl⟩ := answer_eq_ok.mp done
  have range := isRange_iff.mp range
  have forward (e : Edit) (mem : e ∈ b.edits) := (orderly.ranges e mem).1
  obtain ⟨before, inside, later, old, ends, within, starts⟩ :=
    exists_parts forward orderly.ordered free
  refine ⟨before, inside, later, rfl, old, ?_, range, ends, within, starts⟩
  have kept : (b.edits.filter fun e => !e.isWithin start stop) = before ++ later := by
    rw [old, filter_append, filter_append, filter_eq_self.mpr, filter_eq_nil_iff.mpr,
      nil_append, filter_eq_self.mpr]
    · intro e mem
      rw [Edit.not_isWithin_of_beside (forward e (by simp [old, mem])) (.inr (starts e mem))]
      rfl
    · intro e mem
      simp [within e mem]
    · intro e mem
      rw [Edit.not_isWithin_of_beside (forward e (by simp [old, mem])) (.inl (ends e mem))]
      rfl
  change Edit.insertInto _ (b.edits.filter fun e => !e.isWithin start stop) = _
  rw [kept]
  refine insertInto_append _ (fun e mem => ?_) fun e mem => ?_
  · have := ends e mem
    have := forward e (by simp [old, mem])
    rw [precedes_iff]
    omega
  · have := starts e mem
    rw [precedes_iff]
    omega

namespace Replaces

lemma source {before inside later : List Edit}
    (replaces : Replaces b b' start stop text before inside later) : b'.source = b.source :=
  show b'.base.source = b.base.source from congrArg _ replaces.base

variable {p : Edit → Bool} {before inside later : List Edit} (orderly : b.Orderly)
  (replaces : Replaces b b' start stop text before inside later)

include orderly replaces

/-- Reading around a range: what stands before it, in it and behind it. -/
lemma render_around {mid : List Edit} {lo hi : Nat} (opens : b.source.isBoundary lo)
    (closes : b.source.isBoundary hi) (low : lo ≤ start) (high : stop ≤ hi)
    (above : ∀ e ∈ b.edits, p e → lo ≤ e.start) (middle : EditsFrom b.source start mid)
    (ends : ∀ e ∈ mid, e.stop ≤ stop) :
    render b.source hi lo ((before ++ (mid ++ later)).filter p) =
      render b.source start lo (before.filter p) ++
        (render b.source stop start (mid.filter p) ++
          render b.source hi stop (later.filter p)) := by
  obtain ⟨forward, starting, ending⟩ := replaces.range
  have edits := orderly.editsFrom
  rw [replaces.old] at edits
  have first : EditsFrom b.source lo (before.filter p) :=
    (edits.sublist (filter_sublist.trans (sublist_append_left _ _))).mono fun e mem => by
      obtain ⟨mem, isIn⟩ := mem_filter.mp mem
      exact above e (by simp [replaces.old, mem]) isIn
  have last : EditsFrom b.source stop (later.filter p) :=
    (edits.sublist (filter_sublist.trans ((sublist_append_right _ _).trans
      (sublist_append_right _ _)))).mono fun e mem =>
        (replaces.starts e (mem_of_mem_filter mem)).2
  have middle := middle.sublist (filter_sublist (p := p))
  have both : EditsFrom b.source start (mid.filter p ++ later.filter p) := by
    refine ⟨fun e mem => ?_, ?_, fun e mem => ?_⟩
    · exact (mem_append.mp mem).elim (middle.ranges e) (last.ranges e)
    · refine pairwise_append.mpr ⟨middle.ordered, last.ordered, fun e mem f mem' => ?_⟩
      exact (ends e (mem_of_mem_filter mem)).trans (last.ahead f mem')
    · rcases mem_append.mp mem with mem | mem
      · exact middle.ahead e mem
      · exact forward.trans (last.ahead e mem)
  rw [filter_append, filter_append,
    first.render_append both (fun e mem => replaces.ends e (mem_of_mem_filter mem)) opens starting
      closes low (forward.trans high),
    middle.render_append last (fun e mem => ends e (mem_of_mem_filter mem)) starting ending closes
      forward high]

/-- What is read around a range stays the same if that is so for the range itself. -/
lemma render_eq {lo hi : Nat} (opens : b.source.isBoundary lo) (closes : b.source.isBoundary hi)
    (low : lo ≤ start) (high : stop ≤ hi) (above : ∀ e ∈ b.edits, p e → lo ≤ e.start)
    (same : render b.source stop start (inside.filter p) = render b.source stop start
      ([⟨start, stop, text⟩].filter p)) :
    render b'.source hi lo (b'.edits.filter p) = render b.source hi lo (b.edits.filter p) := by
  have old : EditsFrom b.source start inside := by
    have edits := orderly.editsFrom
    rw [replaces.old] at edits
    refine (edits.sublist ((sublist_append_left _ _).trans
      (sublist_append_right _ _))).mono fun e mem => ?_
    have := isWithin_iff (r := (start, stop)).mp (replaces.within e mem)
    omega
  have new : EditsFrom b.source start [⟨start, stop, text⟩] :=
    ⟨by simpa using replaces.range, pairwise_singleton _ _, by simp⟩
  have ends (e : Edit) (mem : e ∈ inside) : e.stop ≤ stop := by
    have := isWithin_iff (r := (start, stop)).mp (replaces.within e mem)
    omega
  rw [replaces.source, replaces.new, replaces.old,
    replaces.render_around orderly opens closes low high above new (by simp),
    replaces.render_around orderly opens closes low high above old ends, same]

lemma editsIn_eq : b.editsIn (start, stop) = inside := by
  have forward (e : Edit) (mem : e ∈ b.edits) := (orderly.ranges e mem).1
  have old := replaces.old
  rw [editsIn, old, filter_append, filter_append, filter_eq_nil_iff.mpr,
    filter_eq_self.mpr replaces.within, filter_eq_nil_iff.mpr, nil_append, append_nil]
  · intro e mem
    rw [Edit.not_isWithin_of_beside (forward e (by simp [old, mem])) (.inr (replaces.starts e mem))]
    exact Bool.false_ne_true
  · intro e mem
    rw [Edit.not_isWithin_of_beside (forward e (by simp [old, mem])) (.inl (replaces.ends e mem))]
    exact Bool.false_ne_true

/-- A range reads the same when its text has been put in its place. -/
lemma render_inside (text_eq : text = render b.source stop start inside) (all : ∀ e ∈ inside, p e)
    (wide : start < stop → p ⟨start, stop, text⟩) :
    render b.source stop start (inside.filter p) =
      render b.source stop start ([⟨start, stop, text⟩].filter p) := by
  have forward := replaces.range.1
  have single : render b.source stop start [⟨start, stop, text⟩] = text := by
    rw [render, render, Text.slice_self, max_eq_right forward, Text.slice_self]
    simp
  rw [filter_eq_self.mpr all, ← text_eq]
  by_cases seen : p ⟨start, stop, text⟩
  · rw [filter_cons_of_pos seen, filter_nil, single]
  · have empty : start = stop := by
      by_contra other
      exact seen (wide (by omega))
    subst empty
    have none : inside = [] := by
      rw [eq_nil_iff_forall_not_mem]
      intro e mem
      have within := replaces.within e mem
      rw [not_isWithin_self (orderly.ranges e (by simp [replaces.old, mem])).1] at within
      cases within
    rw [filter_cons_of_neg seen, text_eq, none]
    rfl

end Replaces

/-- A range of the first buffer is replaced in the second by what was read there. The whole text
reads the same, and so does every range around it that splits no character; what was dropped is what
was read. -/
structure CoversItself (b b' : EditBuffer) (start stop : Nat) : Prop where
  apply : b'.apply = b.apply
  get : ∀ lo hi, lo ≤ start → stop ≤ hi → b.source.isBoundary lo →
    b.source.isBoundary hi ∨ b.source.size ≤ hi → b'.get lo hi = b.get lo hi
  read : ∃ (stretches : List Stretch) (kept : List Edit),
    b.get start stop = stretches.flatMap (Stretch.text b.source) ∧
      b.edits.Perm (stretches.filterMap Stretch.edit? ++ kept) ∧
      b'.edits.Perm (⟨start, stop, b.get start stop⟩ :: kept)

lemma Orderly.coversItself (orderly : b.Orderly) (measured : b.length = b.source.size)
    (done : b.replace start stop (b.get start stop) = .ok b') : CoversItself b b' start stop := by
  obtain ⟨before, inside, later, replaces⟩ := orderly.exists_replaces done
  obtain ⟨forward, starting, ending⟩ := replaces.range
  have top := Text.le_size_of_isBoundary ending
  have measured' : b'.length = b.source.size :=
    (show b'.base.length = b.base.length from congrArg _ replaces.base).trans measured
  have editsIn := replaces.editsIn_eq orderly
  have read := get_eq (b := b) forward (measured ▸ top)
  have text_eq : b.get start stop = render b.source stop start inside := by
    rw [read, text_stretches, editsIn]
  refine ⟨?_, fun lo hi low high opens closes => ?_, ?_⟩
  · have same := replaces.render_inside orderly (p := fun _ => true) text_eq (by simp) (by simp)
    have whole := replaces.render_eq orderly b.source.isBoundary_zero b.source.isBoundary_size
      (Nat.zero_le _) top (by simp) same
    rw [filter_true, filter_true] at whole
    rw [apply, apply, measured, measured', ← whole]
  · have closes : b.source.isBoundary (min hi b.source.size) := by
      rcases closes with closes | beyond
      · rwa [min_eq_left (Text.le_size_of_isBoundary closes)]
      · rw [min_eq_right beyond]
        exact b.source.isBoundary_size
    have high : stop ≤ min hi b.source.size := le_min high top
    have low' : min lo (min hi b.source.size) = lo := by omega
    have around (e : Edit) (inRange : e.start ≤ e.stop) (within : e.isWithin start stop) :
        e.isWithin lo (min hi b.source.size) := by
      have inside : e.Inside (start, stop) := ⟨inRange, within⟩
      exact (inside.mono low high : e.Inside (lo, min hi b.source.size)).2
    have same := replaces.render_inside orderly (p :=
      fun e => e.isWithin lo (min hi b.source.size)) text_eq
      (fun e mem => around e (orderly.ranges e (by simp [replaces.old, mem])).1
        (replaces.within e mem))
      (fun wide => around _ wide.le
        ((isWithin_iff (r := (start, stop))).mpr (.inr ⟨wide.ne, le_rfl, le_rfl⟩)))
    have whole := replaces.render_eq orderly opens closes low high (fun e _ within => by
      have := (isWithin_iff (r := (lo, min hi b.source.size))).mp within
      omega) same
    rw [EditBuffer.get, EditBuffer.get, measured, measured', low', ← whole]
  · refine ⟨_, before ++ later, read, ?_, ?_⟩
    · rw [edits_stretches, editsIn, replaces.old]
      exact (perm_append_comm_assoc before inside later)
    · rw [replaces.new]
      exact perm_middle

end EditBuffer

/-- Two insertions at the ends of the range, one inside and a replacement in it. -/
def touchedRange : List EditCall :=
  [.insert 1 ['<'], .insert 3 ['>'], .replace 1 2 ['x'], .insert 2 ['-']]

end PatternLowering

import PatternLowering.Proofs.Editing
import PatternLowering.Proofs.Slices

/-!
# The text after the edits

The edits of a buffer follow one another in the text: each ends before the next one starts, however
they were recorded. So the edited text can be read off character by character, and the order in
which edits were recorded only shows where several insertions stand at one offset.
-/

namespace PatternLowering

open List Text

/-- What is asked of a buffer. -/
inductive EditCall where
  | replace (start stop : Nat) (text : Text)
  | insert (offset : Nat) (text : Text)
deriving DecidableEq, Repr

/-- What a call records if it succeeds. -/
def EditCall.edit : EditCall → Edit
  | replace start stop text => ⟨start, stop, text⟩
  | insert offset text => ⟨offset, offset, text⟩

namespace Edit

/-- A replacement that shares bytes with the range, or has an empty one strictly inside, without
lying in it. -/
def Clashes (e : Edit) (start stop : Nat) : Prop :=
  e.start < e.stop ∧ e.start < stop ∧ start < e.stop ∧ ¬ (start ≤ e.start ∧ e.stop ≤ stop)

instance (e : Edit) (start stop : Nat) : Decidable (e.Clashes start stop) :=
  inferInstanceAs (Decidable (_ ∧ _))

/-- The insertions at an offset, in the order of the list. -/
def insertionsAt (edits : List Edit) (offset : Nat) : List Edit :=
  edits.filter fun e => e.start = offset ∧ e.stop = offset

/-- The replacement that starts at an offset. -/
def replacementAt? (edits : List Edit) (offset : Nat) : Option Edit :=
  edits.find? fun e => e.start = offset ∧ offset < e.stop

/-- A text that starts at `offset`, with edits applied one character after the other. What lies
before `resume` has been replaced. -/
def walk (edits : List Edit) : Nat → Nat → Text → Text
  | offset, _, [] => (insertionsAt edits offset).flatMap text
  | offset, resume, c :: rest =>
    if offset < resume then walk edits (offset + c.utf8Size) resume rest
    else
      (insertionsAt edits offset).flatMap text ++
        match replacementAt? edits offset with
        | some e => e.text ++ walk edits (offset + c.utf8Size) e.stop rest
        | none => c :: walk edits (offset + c.utf8Size) resume rest

end Edit

namespace EditCall

/-- A call can be served if its range splits no character and no pending edit clashes with it. -/
def Allowed (source : Text) (pending : List Edit) (c : EditCall) : Prop :=
  (c.edit.start ≤ c.edit.stop ∧ source.isBoundary c.edit.start ∧ source.isBoundary c.edit.stop) ∧
    ∀ e ∈ pending, ¬ e.Clashes c.edit.start c.edit.stop

instance (source :
    Text) (pending : List Edit) (c : EditCall) : Decidable (c.Allowed source pending) :=
  inferInstanceAs (Decidable (_ ∧ _))

/-- The pending edits in the order in which they were recorded, after one more call. -/
def record (source : Text) (pending : List Edit) (c : EditCall) : List Edit :=
  if c.Allowed source pending then
    (pending.filter fun e => !e.isWithin c.edit.start c.edit.stop) ++ [c.edit]
  else pending

/-- The pending edits after some calls, in the order in which they were recorded. -/
def recorded (source : Text) (calls : List EditCall) : List Edit := calls.foldl (record source) []

end EditCall

namespace EditBuffer

def call (b : EditBuffer) : EditCall → Except EditError EditBuffer
  | .replace start stop text => b.replace start stop text
  | .insert offset text => b.insert offset text

/-- The buffer after a call, which stays as it is if the call fails. -/
def after (b : EditBuffer) (c : EditCall) : EditBuffer := (b.call c).toOption.getD b

def ofCalls (source : Text) (calls : List EditCall) : EditBuffer :=
  calls.foldl after (ofText source)

/-- As `ofCalls`, with the length of the text in 32 bits. -/
def ofCalls32 (source : Text) (calls : List EditCall) : EditBuffer :=
  calls.foldl after (ofText32 source)

/-- The edits stand in order, and none reaches into the next. -/
structure Orderly (b : EditBuffer) : Prop where
  ranges : ∀ e ∈ b.edits, e.start ≤ e.stop ∧ b.source.isBoundary e.start ∧
    b.source.isBoundary e.stop
  ordered : b.edits.Pairwise fun e f => e.stop ≤ f.start

end EditBuffer

namespace Edit

variable {e f : Edit} {start stop offset : Nat}

lemma precedes_iff : e.precedes f ↔
    e.start < f.start ∨ e.start = f.start ∧ (e.start = e.stop ∨ f.start ≠ f.stop) := by
  simp [precedes, isInsertion]

lemma cuts_iff (forward : e.start ≤ e.stop) : e.cuts start stop ↔ e.Clashes start stop := by
  simp only [cuts, isInsertion, Clashes, Bool.not_eq_true', Bool.or_eq_false_iff,
    beq_eq_false_iff_ne, Bool.and_eq_false_iff, decide_eq_false_iff_not]
  omega

lemma covers_iff (forward : e.start ≤ e.stop) : e.covers offset ↔ e.Clashes offset offset := by
  simp only [covers, isInsertion, Clashes, Bool.and_eq_true, Bool.not_eq_true', beq_eq_false_iff_ne,
    decide_eq_true_eq]
  omega

/-- Nothing has its effect in an empty range. -/
lemma not_isWithin_self (forward : e.start ≤ e.stop) : e.isWithin offset offset = false := by
  rw [Bool.eq_false_iff, Ne, isWithin_iff (r := (offset, offset))]
  omega

/-- An edit takes its place among those that leave room for it. -/
lemma ordered_insertInto {edits : List Edit} (forward : ∀ e ∈ edits, e.start ≤ e.stop)
    (ordered : edits.Pairwise fun e f => e.stop ≤ f.start)
    (behind : ∀ e ∈ edits, e.precedes f → e.stop ≤ f.start)
    (before : ∀ e ∈ edits, ¬ e.precedes f → f.stop ≤ e.start) :
    (f.insertInto edits).Pairwise fun e f => e.stop ≤ f.start := by
  induction edits with
  | nil => exact pairwise_singleton _ _
  | cons first later ih =>
    obtain ⟨first_le, rest⟩ := pairwise_cons.mp ordered
    rw [insertInto]
    split
    · rename_i precedes
      refine pairwise_cons.mpr ⟨fun e mem => ?_, ih (fun e mem => forward e (by simp [mem])) rest
        (fun e mem => behind e (by simp [mem])) (fun e mem => before e (by simp [mem]))⟩
      rcases (mem_insertInto later).mp mem with rfl | mem
      · exact behind first (by simp) precedes
      · exact first_le e mem
    · rename_i precedes
      have next := before first (by simp) precedes
      refine pairwise_cons.mpr ⟨fun e mem => ?_, ordered⟩
      rcases mem_cons.mp mem with rfl | mem
      · exact next
      · exact next.trans ((forward first (by simp)).trans (first_le e mem))

lemma insertInto_perm (e : Edit) (edits : List Edit) : (e.insertInto edits).Perm (e :: edits) := by
  induction edits with
  | nil => exact .refl _
  | cons first later ih =>
    rw [insertInto]
    split
    · exact (ih.cons first).trans (.swap e first later)
    · exact .refl _

lemma filter_insertInto_of_neg {p : Edit → Bool} (e : Edit) (edits : List Edit)
    (out : p e = false) : (e.insertInto edits).filter p = edits.filter p := by
  induction edits with
  | nil => simp [insertInto, out]
  | cons first later ih =>
    rw [insertInto]
    split
    · rw [filter_cons, filter_cons, ih]
    · rw [filter_cons, out]
      rfl

/-- An insertion comes behind those at its offset. -/
lemma insertionsAt_insertInto {edits : List Edit} (forward : ∀ e ∈ edits, e.start ≤ e.stop)
    (ordered : edits.Pairwise fun e f => e.stop ≤ f.start) (e : Edit) (offset : Nat) :
    insertionsAt (e.insertInto edits) offset = insertionsAt (edits ++ [e]) offset := by
  unfold insertionsAt
  by_cases here : e.start = offset ∧ e.stop = offset
  · induction edits with
    | nil => rfl
    | cons first later ih =>
      rw [insertInto]
      split
      · rw [cons_append, filter_cons, filter_cons,
          ih (fun f mem => forward f (by simp [mem])) (pairwise_cons.mp ordered).2]
      · rename_i precedes
        rw [precedes_iff] at precedes
        have wide := forward first (by simp)
        -- From `first` on everything ends behind the offset.
        have none : (first :: later).filter (fun f => f.start = offset ∧ f.stop = offset) = [] := by
          rw [filter_eq_nil_iff]
          intro f mem
          rw [decide_eq_true_iff]
          rcases mem_cons.mp mem with rfl | mem
          · omega
          · have := (pairwise_cons.mp ordered).1 f mem
            omega
        rw [filter_append, none, filter_cons, none]
        simp [here]
  · rw [filter_insertInto_of_neg e edits (decide_eq_false here), filter_append]
    simp [here]

end Edit

namespace EditBuffer

variable {b : EditBuffer} {c : EditCall}

lemma isRange_iff {start stop : Nat} : b.isRange start stop ↔
    start ≤ stop ∧ b.source.isBoundary start ∧ b.source.isBoundary stop := by
  simp [isRange, and_assoc]

/-- What a buffer answers to a call with the given range and text. -/
def answer (b : EditBuffer) (e : Edit) : Except EditError EditBuffer :=
  if b.isRange e.start e.stop then
    if ∃ f ∈ b.edits, f.Clashes e.start e.stop then .error (.overlap e.start e.stop)
    else .ok { b with edits := e.insertInto (b.edits.filter fun f => !f.isWithin e.start e.stop) }
  else .error (.invalidRange e.start e.stop)

lemma insert_eq (orderly : b.Orderly) (offset : Nat) (text : Text) :
    b.insert offset text = b.answer ⟨offset, offset, text⟩ := by
  have clash : (b.edits.any fun e => e.covers offset) =
      decide (∃ e ∈ b.edits, e.Clashes offset offset) := by
    rw [Bool.eq_iff_iff, any_eq_true, decide_eq_true_iff]
    exact exists_congr fun e => and_congr_right fun mem => Edit.covers_iff (orderly.ranges e mem).1
  have all : (b.edits.filter fun e => !e.isWithin offset offset) = b.edits := by
    rw [filter_eq_self]
    intro e mem
    rw [Edit.not_isWithin_self (orderly.ranges e mem).1]
    rfl
  rw [insert, answer, clash, all]
  cases b.isRange offset offset <;> simp

lemma replace_eq (orderly : b.Orderly) (start stop : Nat) (text : Text) :
    b.replace start stop text = b.answer ⟨start, stop, text⟩ := by
  have clash : (b.edits.any fun e => e.cuts start stop) =
      decide (∃ e ∈ b.edits, e.Clashes start stop) := by
    rw [Bool.eq_iff_iff, any_eq_true, decide_eq_true_iff]
    exact exists_congr fun e => and_congr_right fun mem => Edit.cuts_iff (orderly.ranges e mem).1
  by_cases empty : start = stop
  · subst empty
    rw [replace, if_pos rfl, insert_eq orderly, answer]
    cases b.isRange start start <;> rfl
  · rw [replace, answer, clash, if_neg empty]
    cases b.isRange start stop <;> simp

lemma call_eq (orderly : b.Orderly) (c : EditCall) : b.call c = b.answer c.edit := by
  cases c with
  | replace start stop text => exact replace_eq orderly start stop text
  | insert offset text => exact insert_eq orderly offset text

lemma answer_eq_ok {e : Edit} {b' : EditBuffer} : b.answer e = .ok b' ↔
    (b.isRange e.start e.stop ∧ ∀ f ∈ b.edits, ¬ f.Clashes e.start e.stop) ∧
      b' = { b with edits := e.insertInto (b.edits.filter fun f =>
        !f.isWithin e.start e.stop) } := by
  unfold answer
  by_cases range : b.isRange e.start e.stop
  · by_cases clash : ∃ f ∈ b.edits, f.Clashes e.start e.stop
    · rw [if_pos range, if_pos clash]
      constructor
      · nofun
      · rintro ⟨⟨_, none⟩, _⟩
        obtain ⟨f, mem, clashes⟩ := clash
        exact absurd clashes (none f mem)
    · rw [if_pos range, if_neg clash, Except.ok.injEq]
      push Not at clash
      exact ⟨fun same => ⟨⟨range, clash⟩, same.symm⟩, fun same => same.2.symm⟩
  · rw [if_neg range]
    constructor
    · nofun
    · rintro ⟨⟨range', _⟩, _⟩
      exact absurd range' range

/-- What lies in the range of an edit makes room for it, and nothing else is in its way. -/
lemma Orderly.answer (orderly : b.Orderly) {e : Edit} {b' : EditBuffer}
    (done : b.answer e = .ok b') : b'.Orderly := by
  obtain ⟨⟨range, free⟩, rfl⟩ := answer_eq_ok.mp done
  obtain ⟨forward, opens, closes⟩ := isRange_iff.mp range
  have apart (f : Edit) (mem : f ∈ b.edits.filter fun f => !f.isWithin e.start e.stop) :
      f.start ≤ f.stop ∧ (f.precedes e → f.stop ≤ e.start) ∧
        (¬ f.precedes e → e.stop ≤ f.start) := by
    obtain ⟨mem, outside⟩ := mem_filter.mp mem
    have ahead := (orderly.ranges f mem).1
    have noClash := free f mem
    rw [Bool.not_eq_true', Bool.eq_false_iff, Ne, Edit.isWithin_iff (r :=
      (e.start, e.stop))] at outside
    rw [Edit.precedes_iff]
    unfold Edit.Clashes at noClash
    omega
  refine ⟨fun f mem => ?_, ?_⟩
  · rcases (Edit.mem_insertInto _).mp mem with rfl | mem
    · exact ⟨forward, opens, closes⟩
    · exact orderly.ranges f (mem_of_mem_filter mem)
  · exact Edit.ordered_insertInto (fun f mem => (apart f mem).1) (orderly.ordered.filter _)
      (fun f mem => (apart f mem).2.1) (fun f mem => (apart f mem).2.2)

/-- The buffer holds the pending edits, and insertions at one offset in their order. -/
structure Holds (b : EditBuffer) (source : Text) (length : Nat) (pending : List Edit) : Prop where
  source : b.source = source
  length : b.length = length
  orderly : b.Orderly
  perm : b.edits.Perm pending
  insertions : ∀ offset, Edit.insertionsAt b.edits offset = Edit.insertionsAt pending offset

variable {source : Text} {length : Nat} {pending : List Edit}

lemma holds_empty (source : Text) (length : Nat) : Holds ⟨source, [], length⟩ source length [] :=
  ⟨rfl, rfl, ⟨nofun, .nil⟩, .refl _, fun _ => rfl⟩

lemma Holds.allowed_iff (holds : b.Holds source length pending) : c.Allowed source pending ↔
    b.isRange c.edit.start c.edit.stop ∧ ∀ e ∈ b.edits, ¬ e.Clashes c.edit.start c.edit.stop := by
  rw [isRange_iff, holds.source, EditCall.Allowed]
  exact and_congr_right fun _ => forall_congr' fun e => imp_congr_left holds.perm.mem_iff.symm

/-- A call keeps the buffer and the pending edits together, also if it fails. -/
lemma Holds.after (holds : b.Holds source length pending) (c : EditCall) :
    (b.after c).Holds source length (c.record source pending) := by
  by_cases allowed : c.Allowed source pending
  · obtain ⟨b', done⟩ : ∃ b', b.answer c.edit = .ok b' :=
      ⟨_, answer_eq_ok.mpr ⟨holds.allowed_iff.mp allowed, rfl⟩⟩
    have orderly := holds.orderly.answer done
    have same : b.after c = b' := by rw [EditBuffer.after, call_eq holds.orderly, done]; rfl
    obtain ⟨_, rfl⟩ := answer_eq_ok.mp done
    rw [same, EditCall.record, if_pos allowed]
    refine ⟨holds.source, holds.length, orderly, ?_, fun offset => ?_⟩
    · exact (Edit.insertInto_perm _ _).trans
        (((holds.perm.filter _).cons _).trans (perm_append_singleton _ _).symm)
    · have forward : ∀ e ∈ b.edits.filter fun e => !e.isWithin c.edit.start c.edit.stop,
          e.start ≤ e.stop := fun e mem => (holds.orderly.ranges e (mem_of_mem_filter mem)).1
      have kept (edits : List Edit) :
          Edit.insertionsAt (edits.filter fun e => !e.isWithin c.edit.start c.edit.stop) offset =
            (Edit.insertionsAt edits offset).filter fun e => !e.isWithin c.edit.start
              c.edit.stop := by
        rw [Edit.insertionsAt, Edit.insertionsAt, filter_filter, filter_filter]
        simp only [Bool.and_comm]
      have append (edits edits' : List Edit) : Edit.insertionsAt (edits ++ edits') offset =
          Edit.insertionsAt edits offset ++ Edit.insertionsAt edits' offset := filter_append ..
      rw [Edit.insertionsAt_insertInto forward (holds.orderly.ordered.filter _), append,
        append, kept, kept, holds.insertions]
  · have refused : b.after c = b := by
      rw [EditBuffer.after, call_eq holds.orderly]
      cases done : b.answer c.edit with
      | error error => rfl
      | ok b' => exact absurd (holds.allowed_iff.mpr (answer_eq_ok.mp done).1) allowed
    rw [refused, EditCall.record, if_neg allowed]
    exact holds

lemma Holds.calls (holds : b.Holds source length pending) (calls : List EditCall) :
    (calls.foldl EditBuffer.after b).Holds source length
      (calls.foldl (EditCall.record source) pending) := by
  induction calls generalizing b pending with
  | nil => exact holds
  | cons c later ih => exact ih (holds.after c)

lemma holds_ofCalls (source : Text) (calls : List EditCall) :
    (ofCalls source calls).Holds source source.size (EditCall.recorded source calls) :=
  (holds_empty source _).calls calls

lemma holds_ofCalls32 (source : Text) (calls : List EditCall) :
    (ofCalls32 source calls).Holds source (low32 source.size) (EditCall.recorded source calls) :=
  (holds_empty source _).calls calls

end EditBuffer

/-- Edits in order from `cursor` on, each from one boundary to another. -/
structure EditsFrom (source : Text) (cursor : Nat) (edits : List Edit) : Prop where
  ranges : ∀ e ∈ edits, e.start ≤ e.stop ∧ source.isBoundary e.start ∧ source.isBoundary e.stop
  ordered : edits.Pairwise fun e f => e.stop ≤ f.start
  ahead : ∀ e ∈ edits, cursor ≤ e.start

namespace EditsFrom

variable {source taken rest : Text} {cursor mid stop offset : Nat} {edits pending : List Edit}
  {e : Edit}

lemma mono (inOrder : EditsFrom source cursor edits) {cursor' : Nat}
    (ahead : ∀ e ∈ edits, cursor' ≤ e.start) : EditsFrom source cursor' edits :=
  ⟨inOrder.ranges, inOrder.ordered, ahead⟩

lemma sublist (inOrder : EditsFrom source cursor edits) {edits' : List Edit}
    (sublist : edits'.Sublist edits) : EditsFrom source cursor edits' :=
  ⟨fun e mem => inOrder.ranges e (sublist.subset mem), inOrder.ordered.sublist sublist,
    fun e mem => inOrder.ahead e (sublist.subset mem)⟩

lemma tail (inOrder : EditsFrom source cursor (e :: edits)) : EditsFrom source e.stop edits :=
  ⟨fun f mem => inOrder.ranges f (by simp [mem]), (pairwise_cons.mp inOrder.ordered).2,
    (pairwise_cons.mp inOrder.ordered).1⟩

/-- Nothing is edited up to the first edit. -/
lemma render_eq_append (inOrder : EditsFrom source mid edits) (opens : source.isBoundary cursor)
    (between : source.isBoundary mid) (closes : source.isBoundary stop) (forward : cursor ≤ mid)
    (onward : mid ≤ stop) : EditBuffer.render source stop cursor edits =
      source.slice cursor mid ++ EditBuffer.render source stop mid edits := by
  cases edits with
  | nil => exact (slice_append opens between closes forward onward).symm
  | cons e later =>
    have ahead := inOrder.ahead e (by simp)
    obtain ⟨wide, start, _⟩ := inOrder.ranges e (by simp)
    have same : max cursor e.stop = max mid e.stop := by omega
    rw [EditBuffer.render, EditBuffer.render, same,
      ← slice_append opens between start forward ahead]
    simp

/-- Insertions at the cursor are written one after the other. -/
lemma render_insertions (source : Text) (stop cursor : Nat) (edits later : List Edit)
    (here : ∀ e ∈ edits, e.start = cursor ∧ e.stop = cursor) :
    EditBuffer.render source stop cursor (edits ++ later) =
      edits.flatMap (·.text) ++ EditBuffer.render source stop cursor later := by
  induction edits with
  | nil => rfl
  | cons e more ih =>
    obtain ⟨start, stops⟩ := here e (by simp)
    rw [cons_append, EditBuffer.render, start, stops, max_self, slice_self,
      ih fun f mem => here f (by simp [mem])]
    simp

/-- At the end of the text there are only insertions. -/
lemma render_at_size (inOrder : EditsFrom source source.size edits) :
    EditBuffer.render source source.size source.size edits =
      (Edit.insertionsAt edits source.size).flatMap (·.text) := by
  have last (e : Edit) (mem : e ∈ edits) : e.start = source.size ∧ e.stop = source.size := by
    have := inOrder.ahead e mem
    obtain ⟨wide, _, stop⟩ := inOrder.ranges e mem
    have := le_size_of_isBoundary stop
    omega
  have all : Edit.insertionsAt edits source.size = edits := by
    rw [Edit.insertionsAt, filter_eq_self]
    intro e mem
    simp [last e mem]
  have rendered := render_insertions source source.size source.size edits [] last
  rw [append_nil, EditBuffer.render, slice_self, append_nil] at rendered
  rw [all, rendered]

/-- The insertions at the cursor come first. -/
lemma exists_insertions (inOrder : EditsFrom source cursor edits) : ∃ first later,
    edits = first ++ later ∧ first = Edit.insertionsAt edits cursor ∧ ∀ e ∈ later, cursor <
      e.stop := by
  induction edits with
  | nil => exact ⟨[], [], rfl, rfl, by simp⟩
  | cons e more ih =>
    have ahead := inOrder.ahead e (by simp)
    have wide := (inOrder.ranges e (by simp)).1
    by_cases here : e.start = cursor ∧ e.stop = cursor
    · obtain ⟨first, later, rfl, same, behind⟩ := ih (inOrder.sublist (sublist_cons_self e more))
      refine ⟨e :: first, later, rfl, ?_, behind⟩
      rw [Edit.insertionsAt, filter_cons_of_pos (by simp [here]), ← Edit.insertionsAt, ← same]
    · have behind (f : Edit) (mem : f ∈ e :: more) : cursor < f.stop := by
        rcases mem_cons.mp mem with rfl | mem
        · omega
        · have next := (pairwise_cons.mp inOrder.ordered).1 f mem
          have := (inOrder.ranges f (by simp [mem])).1
          omega
      refine ⟨[], e :: more, rfl, ?_, behind⟩
      rw [Edit.insertionsAt, eq_comm, filter_eq_nil_iff]
      intro f mem
      have := behind f mem
      rw [decide_eq_true_iff]
      omega

/-- A replacement at the cursor is the first edit that is no insertion there. -/
lemma eq_cons_of_replacementAt? (inOrder : EditsFrom source cursor edits)
    (behind : ∀ e ∈ edits, cursor < e.stop) (found : Edit.replacementAt? edits cursor = some e) :
    e.start = cursor ∧ ∃ later, edits = e :: later := by
  have isHere := find?_some found
  rw [decide_eq_true_iff] at isHere
  refine ⟨isHere.1, ?_⟩
  cases edits with
  | nil => cases found
  | cons f later =>
    rcases mem_cons.mp (mem_of_find?_eq_some found) with rfl | mem
    · exact ⟨later, rfl⟩
    · have next := (pairwise_cons.mp inOrder.ordered).1 e mem
      have := behind f (by simp)
      omega

lemma lt_start_of_replacementAt?_eq_none (inOrder : EditsFrom source cursor edits)
    (behind : ∀ e ∈ edits, cursor < e.stop) (none : Edit.replacementAt? edits cursor = none)
    (mem : e ∈ edits) : cursor < e.start := by
  have notHere := find?_eq_none.mp none e mem
  rw [decide_eq_true_iff] at notHere
  have := inOrder.ahead e mem
  have := behind e mem
  omega

end EditsFrom

namespace Edit

variable {edits later pending : List Edit} {cursor cursor' : Nat}

/-- At every offset from `cursor` on, both lists have the same edits. -/
def Alike (cursor : Nat) (edits edits' : List Edit) : Prop :=
  ∀ offset, cursor ≤ offset → insertionsAt edits offset = insertionsAt edits' offset ∧
    replacementAt? edits offset = replacementAt? edits' offset

/-- Edits before the cursor do not matter. -/
lemma Alike.drop (alike : Alike cursor pending (edits ++ later)) (forward : cursor ≤ cursor')
    (before : ∀ e ∈ edits, e.start < cursor') : Alike cursor' pending later := by
  intro offset le
  obtain ⟨insertions, replacement⟩ := alike offset (forward.trans le)
  have elsewhere (e : Edit) (mem : e ∈ edits) : e.start ≠ offset := by
    have := before e mem
    omega
  constructor
  · rw [insertions, insertionsAt, filter_append, filter_eq_nil_iff.mpr, nil_append,
      ← insertionsAt]
    intro e mem
    simp [elsewhere e mem]
  · rw [replacement, replacementAt?, find?_append, find?_eq_none.mpr, Option.none_or,
      ← replacementAt?]
    intro e mem
    simp [elsewhere e mem]

lemma replacementAt?_append (here : ∀ e ∈ edits, e.stop = cursor) :
    replacementAt? (edits ++ later) cursor = replacementAt? later cursor := by
  rw [replacementAt?, find?_append, find?_eq_none.mpr, Option.none_or, ← replacementAt?]
  intro e mem
  simp [here e mem]

end Edit

open Edit in
/-- Applying edits in order is the same as going through the text. The induction is on the text; in
the stretch that a replacement stands for, nothing is written. -/
lemma EditsFrom.walk_eq_render {source : Text} {pending edits : List Edit} (taken rest : Text)
    (resume : Nat) (whole : source = taken ++ rest)
    (boundary : source.isBoundary (max taken.size resume))
    (inOrder : EditsFrom source (max taken.size resume) edits)
    (alike : Alike taken.size pending edits) :
    walk pending taken.size resume rest =
      EditBuffer.render source source.size (max taken.size resume) edits := by
  induction rest generalizing taken resume edits with
  | nil =>
    have size : taken.size = source.size := by simp [whole]
    have top : max taken.size resume = source.size := by
      have := le_size_of_isBoundary boundary
      omega
    rw [top] at inOrder ⊢
    rw [walk, (alike _ le_rfl).1, size, inOrder.render_at_size]
  | cons c rest ih =>
    have wide := c.utf8Size_pos
    have next : taken.size + c.utf8Size = (taken ++ [c]).size := by simp
    have whole' : source = (taken ++ [c]) ++ rest := by simp [whole]
    have nextBoundary : source.isBoundary (taken ++ [c]).size :=
      isBoundary_iff.mpr ⟨_, _, whole', rfl⟩
    have beyond {offset : Nat} (isBoundary : source.isBoundary offset)
      (behind : taken.size < offset) :
        max (taken ++ [c]).size offset = offset := by
      rw [whole] at isBoundary
      have := add_utf8Size_le isBoundary behind
      omega
    rw [walk, next]
    by_cases replaced : taken.size < resume
    · rw [max_eq_right replaced.le] at boundary inOrder ⊢
      have top := beyond boundary replaced
      rw [if_pos replaced, ih _ _ whole' (top.symm ▸ boundary) (top.symm ▸ inOrder)
        (fun offset le => alike offset (by omega)), top]
    · rw [max_eq_left (by omega)] at boundary inOrder ⊢
      obtain ⟨first, later, rfl, isFirst, behind⟩ := inOrder.exists_insertions
      have here (e : Edit) (mem : e ∈ first) : e.start = taken.size ∧ e.stop = taken.size := by
        rw [isFirst] at mem
        simpa using of_mem_filter mem
      have inOrder := inOrder.sublist (sublist_append_right first later)
      rw [if_neg replaced, (alike _ le_rfl).1, (alike _ le_rfl).2, ← isFirst,
        replacementAt?_append fun e mem => (here e mem).2, render_insertions _ _ _ _ _ here]
      congr 1
      cases found : replacementAt? later taken.size with
      | some e =>
        obtain ⟨start, more, rfl⟩ := inOrder.eq_cons_of_replacementAt? behind found
        have stops := (inOrder.ranges e (by simp)).2.2
        have top := beyond stops (behind e (by simp))
        rw [append_cons] at alike
        have alike : Alike (taken ++ [c]).size pending more := alike.drop (by omega) fun f mem => by
          rcases mem_append.mp mem with mem | mem
          · have := here f mem
            omega
          · cases mem_singleton.mp mem
            omega
        have after := ih _ _ whole' (top.symm ▸ stops) (top.symm ▸ inOrder.tail) alike
        dsimp only
        rw [after, top, EditBuffer.render, start, slice_self, max_eq_right (by omega)]
        rfl
      | none =>
        have inOrder : EditsFrom source (taken ++ [c]).size later := inOrder.mono fun e mem => by
          have := beyond (inOrder.ranges e mem).2.1
            (inOrder.lt_start_of_replacementAt?_eq_none behind found mem)
          omega
        have top : max (taken ++ [c]).size resume = (taken ++ [c]).size := by omega
        have alike : Alike (taken ++ [c]).size pending later :=
            alike.drop (by omega) fun f mem => by
          have := here f mem
          omega
        have after := ih _ _ whole' (top.symm ▸ nextBoundary) (top.symm ▸ inOrder) alike
        dsimp only
        rw [after, top, inOrder.render_eq_append boundary nextBoundary source.isBoundary_size
          (by omega) (le_size_of_isBoundary nextBoundary), ← next, whole, slice_char]
        rfl

namespace EditBuffer

variable {b : EditBuffer} {source : Text} {length : Nat} {pending : List Edit}

lemma Orderly.apart (orderly : b.Orderly) {e f : Edit} (isEdit : e ∈ b.edits)
    (isEdit' : f ∈ b.edits) (other : e ≠ f) : e.stop ≤ f.start ∨ f.stop ≤ e.start := by
  have : Std.Symm fun e f : Edit => e.stop ≤ f.start ∨ f.stop ≤ e.start := ⟨fun _ _ => Or.symm⟩
  exact (orderly.ordered.imp (S := fun e f : Edit => e.stop ≤ f.start ∨ f.stop ≤ e.start)
    .inl).forall isEdit isEdit' other

lemma Orderly.editsFrom (orderly : b.Orderly) : EditsFrom b.source 0 b.edits :=
  ⟨orderly.ranges, orderly.ordered, fun _ _ => Nat.zero_le _⟩

/-- Which replacement starts at an offset does not depend on the order of the edits. -/
lemma Orderly.replacementAt?_congr (orderly : b.Orderly)
    (same : ∀ e : Edit, e.start < e.stop → (e ∈ b.edits ↔ e ∈ pending)) (offset : Nat) :
    Edit.replacementAt? b.edits offset = Edit.replacementAt? pending offset := by
  have unique {e f : Edit} (isEdit : e ∈ b.edits) (isEdit' : f ∈ b.edits)
      (here : e.start = offset ∧ offset < e.stop) (here' : f.start = offset ∧ offset < f.stop) :
        e = f := by
    by_contra other
    have := orderly.apart isEdit isEdit' other
    omega
  unfold Edit.replacementAt?
  cases found : pending.find? fun e => e.start = offset ∧ offset < e.stop with
  | none =>
    rw [find?_eq_none] at found ⊢
    intro e isEdit isHere
    have here := of_decide_eq_true isHere
    exact found e ((same e (by omega)).mp isEdit) isHere
  | some e =>
    have isHere := find?_some found
    have here := of_decide_eq_true isHere
    have isEdit := (same e (by omega)).mpr (mem_of_find?_eq_some found)
    have some : (b.edits.find? fun e => e.start = offset ∧ offset < e.stop).isSome :=
      find?_isSome.mpr ⟨e, isEdit, isHere⟩
    obtain ⟨f, found'⟩ := Option.isSome_iff_exists.mp some
    have isHere' := find?_some found'
    rw [found', unique (mem_of_find?_eq_some found') isEdit (of_decide_eq_true isHere') here]

lemma Orderly.apply_eq_walk (orderly : b.Orderly) (whole : b.length = b.source.size)
    (insertions : ∀ offset, Edit.insertionsAt b.edits offset = Edit.insertionsAt pending offset)
    (replacements : ∀ e : Edit, e.start < e.stop → (e ∈ b.edits ↔ e ∈ pending)) :
    b.apply = Edit.walk pending 0 0 b.source := by
  have alike : Edit.Alike 0 pending b.edits := fun offset _ =>
    ⟨(insertions offset).symm, (orderly.replacementAt?_congr replacements offset).symm⟩
  rw [apply, whole]
  exact (EditsFrom.walk_eq_render [] b.source 0 rfl b.source.isBoundary_zero
    orderly.editsFrom alike).symm

/-- What a buffer is like that holds pending edits, which are given in the order in which they were
recorded: no two replacements overlap, no insertion lies strictly inside one, every range lies in
the text and splits no character, and calls that fail change nothing. -/
structure Reflects (b : EditBuffer) (source : Text) (pending : List Edit) : Prop where
  kept : b.source = source
  holds : b.edits.Perm pending
  disjoint : b.edits.Pairwise fun e f =>
    e.start < e.stop → f.start < f.stop → e.stop ≤ f.start ∨ f.stop ≤ e.start
  outside : ∀ e ∈ b.edits, ∀ f ∈ b.edits, e.start = e.stop →
    ¬ (f.start < e.start ∧ e.start < f.stop)
  ranges : ∀ e ∈ b.edits, e.start ≤ e.stop ∧ e.stop ≤ source.size ∧
    source.isBoundary e.start ∧ source.isBoundary e.stop
  served : ∀ c : EditCall, (∃ b', b.call c = .ok b') ↔ c.Allowed source pending
  refused : ∀ (c : EditCall) error, b.call c = .error error →
    b.after c = b ∧ c.record source pending = pending

lemma Holds.reflects (holds : b.Holds source length pending) : b.Reflects source pending := by
  obtain ⟨rfl, _, orderly, perm, insertions⟩ := id holds
  have served (c : EditCall) : (∃ b', b.call c = .ok b') ↔ c.Allowed b.source pending := by
    rw [call_eq orderly, holds.allowed_iff]
    constructor
    · rintro ⟨b', done⟩
      exact (answer_eq_ok.mp done).1
    · exact fun allowed => ⟨_, answer_eq_ok.mpr ⟨allowed, rfl⟩⟩
  refine ⟨rfl, perm, orderly.ordered.imp fun before _ _ => .inl before, ?_, ?_, served, ?_⟩
  · intro e isEdit f isEdit' insertion inside
    have other : e ≠ f := by
      rintro rfl
      omega
    have := orderly.apart isEdit isEdit' other
    omega
  · intro e isEdit
    obtain ⟨forward, opens, closes⟩ := orderly.ranges e isEdit
    exact ⟨forward, le_size_of_isBoundary closes, opens, closes⟩
  · intro c error failed
    refine ⟨by rw [EditBuffer.after, failed]; rfl, if_neg fun allowed => ?_⟩
    obtain ⟨b', done⟩ := (served c).mpr allowed
    cases failed.symm.trans done

/-- The edits of a text that is read to its end are applied by going through it once. -/
lemma Holds.apply_eq_walk {edits : List Edit} (holds : b.Holds source source.size pending)
    (insertions : ∀ offset, Edit.insertionsAt pending offset = Edit.insertionsAt edits offset)
    (replacements : ∀ e : Edit, e.start < e.stop → (e ∈ pending ↔ e ∈ edits)) :
    b.apply = Edit.walk edits 0 0 source := by
  have whole : b.length = b.source.size := by rw [holds.length, holds.source]
  rw [holds.orderly.apply_eq_walk whole
    (fun offset => (holds.insertions offset).trans (insertions offset))
    (fun e wide => holds.perm.mem_iff.trans (replacements e wide)), holds.source]

end EditBuffer

/-- Whatever is asked of a buffer, its edits keep clear of each other. If the text has fewer than
`2 ^ 32` bytes, they are applied by going through it once, so that the outcome depends on the order
in which edits were recorded only where insertions stand at one offset. -/
theorem edits_apply_in_one_walk (source : Text) (calls : List EditCall) :
    (EditBuffer.ofCalls32 source calls).Reflects source (EditCall.recorded source calls) ∧
      (source.size < 2 ^ 32 →
        (EditBuffer.ofCalls32 source calls).apply =
          Edit.walk (EditCall.recorded source calls) 0 0 source ∧
        ∀ calls' : List EditCall,
          (∀ offset, Edit.insertionsAt (EditCall.recorded source calls) offset =
            Edit.insertionsAt (EditCall.recorded source calls') offset) →
          (∀ e : Edit, e.start < e.stop →
            (e ∈ EditCall.recorded source calls ↔ e ∈ EditCall.recorded source calls')) →
          (EditBuffer.ofCalls32 source calls).apply =
            (EditBuffer.ofCalls32 source calls').apply) := by
  refine ⟨(EditBuffer.holds_ofCalls32 source calls).reflects, fun small => ?_⟩
  have whole (calls : List EditCall) : (EditBuffer.ofCalls32 source calls).Holds source source.size
      (EditCall.recorded source calls) := by
    have holds := EditBuffer.holds_ofCalls32 source calls
    rwa [low32_eq small] at holds
  have walk := (whole calls).apply_eq_walk (fun _ => rfl) fun _ _ => Iff.rfl
  refine ⟨walk, fun calls' insertions replacements => ?_⟩
  have walk' := (whole calls').apply_eq_walk (fun offset => (insertions offset).symm)
    fun e wide => (replacements e wide).symm
  rw [walk, walk']

/-- A replacement is recorded after the insertion that stands behind it. -/
theorem edits_of_short_text_apply_in_one_walk :
    Text.size "abcd".toList < 2 ^ 32 ∧
      (EditBuffer.ofCalls32 "abcd".toList [.insert 3 ['>'], .replace 1 3 ['x']]).apply =
        Edit.walk (EditCall.recorded "abcd".toList [.insert 3 ['>'], .replace 1 3 ['x']]) 0 0
          "abcd".toList :=
  ⟨by decide, ((edits_apply_in_one_walk _ _).2 (by decide)).1⟩

/-- A text without edits is read as far as 32 bits count its bytes. -/
lemma EditBuffer.apply_ofText32 (source : Text) :
    (ofText32 source).apply = source.slice 0 (low32 source.size) := rfl

/-- Of a text of `2 ^ 32` bytes nothing is left. -/
theorem long_text_is_not_walked :
    (EditBuffer.ofCalls32 (List.replicate (2 ^ 32) ' ') []).apply = [] ∧
      Edit.walk (EditCall.recorded (List.replicate (2 ^ 32) ' ') []) 0 0
        (List.replicate (2 ^ 32) ' ') = List.replicate (2 ^ 32) ' ' := by
  have size : Text.size (List.replicate (2 ^ 32) ' ') = 2 ^ 32 := size_blanks _
  generalize List.replicate (2 ^ 32) ' ' = blanks at size
  constructor
  · change (EditBuffer.ofText32 blanks).apply = []
    rw [EditBuffer.apply_ofText32, size, show low32 (2 ^ 32) = 0 by decide, slice_self]
  · have walk : (EditBuffer.ofCalls blanks []).apply = _ :=
      (EditBuffer.holds_ofCalls blanks []).apply_eq_walk (fun _ => rfl) fun _ _ => Iff.rfl
    rw [← walk]
    exact slice_all blanks

end PatternLowering

import PatternLowering.Proofs.Meaning
import PatternLowering.Proofs.Reading

/-!
# When unwinding comes to an end

Unwinding fails on patterns that nest too deeply and on no others: a value is never read more often
than its reference allows, and an assignment to a temporary is always made.
-/

namespace PatternLowering

namespace Reads

/-- The reads after one of them was made. -/
def served : Reads → Reads
  | repeatable value => repeatable value
  | once _ => once none
  | assigned _ name holder => assigned none name holder

/-- The value can be read this many times. -/
def Serves : Reads → Nat → Prop
  | once (some _), count => count ≤ 1
  | once none, count => count = 0
  | _, _ => True

/-- The reads after this many of them. -/
def after (reads : Reads) (count : Nat) : Reads := if count = 0 then reads else reads.served

lemma after_served (reads : Reads) (count : Nat) :
    reads.served.after count = reads.after (count + 1) := by
  unfold after
  split <;> cases reads <;> rfl

lemma Serves.next {reads : Reads} {count : Nat} (serves : reads.Serves (count + 1)) :
    ∃ value, reads.next = .ok (value, reads.served) ∧ reads.served.Serves count := by
  cases reads with
  | repeatable value => exact ⟨_, rfl, trivial⟩
  | once value =>
    cases value with
    | none => cases serves
    | some value => exact ⟨_, rfl, Nat.le_zero.mp (Nat.le_of_succ_le_succ serves)⟩
  | assigned first name holder => cases first <;> exact ⟨_, rfl, trivial⟩

lemma check_served (reads : Reads) : reads.served.check = .ok () := by
  cases reads <;> rfl

end Reads

namespace Unwind

open EStateM

lemma Resolved.serves {setting : Setting} {pattern : Pattern} {value : Value} {consumers : Nat}
    {w w' : Workbench} {reads : Reads}
    (resolved : Resolved setting pattern value consumers w reads w') : reads.Serves consumers := by
  cases resolved with
  | direct => exact trivial
  | inline once _ => exact once
  | ownName => exact trivial
  | temporary => exact trivial

variable {setting : Setting} {pattern : Pattern} {depth : Nat}

/-- Parts that do not nest too deeply are unwound. -/
def Completes (setting : Setting) (pattern : Pattern) : Prop :=
  ∀ depth trailing reads w, reads.Serves (pattern.reads trailing) →
    depth + pattern.levels ≤ maxPatternDepth → ∃ bindings w',
      parts setting pattern depth trailing reads w =
        .ok (bindings, reads.after (pattern.reads trailing)) w'

lemma level_completes (completes : Completes setting pattern) (value : Value) (isTop : Bool)
    (shallow : depth + pattern.levels ≤ maxPatternDepth) (w : Workbench) :
    ∃ bindings w', level setting pattern value isTop depth
      (parts setting pattern depth (isTop && setting.context = .assignment)) w =
        .ok bindings w' := by
  have here : depth < maxPatternDepth := by
    have := pattern.levels_pos
    omega
  by_cases empty : pattern.count = 0
  · obtain ⟨bindings, w', ran⟩ :
        ∃ bindings w', emptyLevel setting value isTop w = .ok bindings w' := by
      rw [emptyLevel_eq]
      cases setting.context <;> exact ⟨_, _, rfl⟩
    exact ⟨bindings, w', level_eq_ok.mpr ⟨here, .inl ⟨empty, ran⟩⟩⟩
  · obtain ⟨reads, w1, resolve, resolved⟩ :=
      resolve_resolved setting pattern value (consumers setting pattern isTop) w
    obtain ⟨bindings, w2, ran⟩ := completes depth (isTop && setting.context = .assignment) reads
      (logged w1 (.unwinding depth (consumers setting pattern isTop) reads.reference))
      resolved.serves shallow
    have checked : (reads.after (consumers setting pattern isTop)).check = .ok () := by
      have some : consumers setting pattern isTop ≠ 0 := by
        unfold consumers
        omega
      rw [Reads.after, if_neg some]
      exact reads.check_served
    exact ⟨bindings, _, level_eq_ok.mpr
      ⟨here, .inr ⟨empty, reads, w1, _, w2, resolve, ran, checked, rfl⟩⟩⟩

lemma completes (setting : Setting) (pattern : Pattern) : Completes setting pattern := by
  induction pattern with
  | done =>
    intro depth trailing reads w serves _
    cases trailing with
    | true =>
      obtain ⟨value, next, _⟩ := Reads.Serves.next serves
      exact ⟨_, w, parts_done_eq_ok.mpr ⟨rfl, value, next, rfl⟩⟩
    | false => exact ⟨[], w, parts_done_eq_ok.mpr ⟨rfl, rfl, rfl⟩⟩
  | leaf accessor target later ih =>
    intro depth trailing reads w serves shallow
    rw [Pattern.reads_leaf] at serves ⊢
    obtain ⟨value, next, serves⟩ := serves.next
    obtain ⟨bindings, w', ran⟩ := ih depth trailing reads.served w serves shallow
    rw [Reads.after_served] at ran
    exact ⟨_, w', parts_leaf_eq_ok.mpr ⟨value, _, bindings, next, ran, rfl⟩⟩
  | nested accessor inner later ihInner ih =>
    intro depth trailing reads w serves shallow
    rw [Pattern.reads_nested] at serves ⊢
    rw [Pattern.levels] at shallow
    obtain ⟨value, next, serves⟩ := serves.next
    obtain ⟨first, v, unwound⟩ := level_completes ihInner (.part (.access value accessor)) false
      (show depth + 1 + inner.levels ≤ maxPatternDepth by omega) w
    obtain ⟨bindings, w', ran⟩ := ih depth trailing reads.served v serves (by omega)
    rw [Reads.after_served] at ran
    exact ⟨_, w', parts_nested_eq_ok.mpr ⟨value, _, first, v, bindings, next, unwound, ran, rfl⟩⟩

/-- Parts that nest too deeply are given up. -/
def GivesUp (setting : Setting) (pattern : Pattern) : Prop :=
  ∀ depth trailing reads w, reads.Serves (pattern.reads trailing) → depth < maxPatternDepth →
    maxPatternDepth < depth + pattern.levels → ∃ w',
      parts setting pattern depth trailing reads w = .error .tooDeep w'

lemma level_givesUp (givesUp : GivesUp setting pattern) (value : Value) (isTop : Bool)
    (deep : maxPatternDepth < depth + pattern.levels) (w : Workbench) :
    ∃ w', level setting pattern value isTop depth
      (parts setting pattern depth (isTop && setting.context = .assignment)) w =
        .error .tooDeep w' := by
  unfold level
  by_cases here : maxPatternDepth ≤ depth
  · rw [if_pos here]
    exact ⟨w, bind_of_error rfl⟩
  · rw [if_neg here]
    have several : pattern.count ≠ 0 := by
      cases pattern with
      | done => simp only [Pattern.levels] at deep; omega
      | leaf => exact Nat.succ_ne_zero _
      | nested => exact Nat.succ_ne_zero _
    rw [if_neg several]
    obtain ⟨reads, w1, resolve, resolved⟩ :=
      resolve_resolved setting pattern value (consumers setting pattern isTop) w
    obtain ⟨w2, failed⟩ := givesUp depth (isTop && setting.context = .assignment) reads
      (logged w1 (.unwinding depth (consumers setting pattern isTop) reads.reference))
      resolved.serves (by omega) deep
    have released : thenAlways (parts setting pattern depth (isTop && setting.context = .assignment)
        reads) (release setting reads)
        (logged w1 (.unwinding depth (consumers setting pattern isTop) reads.reference)) =
        .error .tooDeep (release setting reads w2) := by
      simp only [thenAlways, failed]
    refine ⟨release setting reads w2, ?_⟩
    exact (bind_of_ok resolve).trans
      ((bind_of_ok (a := ()) (record_eq_ok.mpr rfl)).trans (bind_of_error released))

lemma givesUp (setting : Setting) (pattern : Pattern) : GivesUp setting pattern := by
  induction pattern with
  | done =>
    intro depth trailing reads w _ here deep
    rw [Pattern.levels] at deep
    omega
  | leaf accessor target later ih =>
    intro depth trailing reads w serves here deep
    rw [Pattern.reads_leaf] at serves
    obtain ⟨value, next, serves⟩ := serves.next
    obtain ⟨w', failed⟩ := ih depth trailing reads.served w serves here deep
    rw [parts]
    exact ⟨w', (bind_of_ok (ofExcept_eq_ok.mpr ⟨next, rfl⟩)).trans (bind_of_error failed)⟩
  | nested accessor inner later ihInner ih =>
    intro depth trailing reads w serves here deep
    rw [Pattern.reads_nested] at serves
    rw [Pattern.levels] at deep
    obtain ⟨value, next, serves⟩ := serves.next
    rw [parts]
    by_cases innerDeep : maxPatternDepth < depth + 1 + inner.levels
    · obtain ⟨w', failed⟩ := level_givesUp ihInner (.part (.access value accessor))
        false innerDeep w
      exact ⟨w', (bind_of_ok (ofExcept_eq_ok.mpr ⟨next, rfl⟩)).trans (bind_of_error failed)⟩
    · obtain ⟨first, v, unwound⟩ := level_completes (completes setting inner)
        (.part (.access value accessor)) false (Nat.le_of_not_lt innerDeep) w
      obtain ⟨w', failed⟩ := ih depth trailing reads.served v serves here (by omega)
      exact ⟨w', (bind_of_ok (ofExcept_eq_ok.mpr ⟨next, rfl⟩)).trans
        ((bind_of_ok unwound).trans (bind_of_error failed))⟩

/-- A site is unwound unless its patterns nest too deeply. -/
lemma site_completes (setting : Setting) (value : Value)
    (shallow : pattern.levels ≤ maxPatternDepth) (w : Workbench) :
    ∃ bindings w', site setting pattern value w = .ok bindings w' :=
  level_completes (completes setting pattern) value true (by omega) w

lemma site_givesUp (setting : Setting) (value : Value) (deep : maxPatternDepth < pattern.levels)
    (w : Workbench) : ∃ w', site setting pattern value w = .error .tooDeep w' :=
  level_givesUp (givesUp setting pattern) value true (by omega) w

end Unwind

end PatternLowering

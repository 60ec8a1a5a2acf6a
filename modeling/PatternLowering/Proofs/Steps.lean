import Mathlib

/-!
# Steps that may fail

Reading a pattern is made of steps that may fail; those of parsing and unwinding change a state as
well. What it means that such a step went well is opened here, so that the steps of a longer run can
be taken apart one by one.
-/

namespace Except

variable {ε α β : Type}

lemma bind_eq_ok {x : Except ε α} {f : α → Except ε β} {b : β} :
    (x >>= f) = .ok b ↔ ∃ a, x = .ok a ∧ f a = .ok b := by
  cases x with
  | ok a => simp [bind, Except.bind]
  | error e => simp [bind, Except.bind]

lemma map_eq_ok {x : Except ε α} {f : α → β} {b : β} :
    x.map f = .ok b ↔ ∃ a, x = .ok a ∧ f a = b := by
  cases x with
  | ok a => simp [Except.map]
  | error e => simp [Except.map]

lemma pure_eq_ok {a b : α} : (pure a : Except ε α) = .ok b ↔ a = b := by
  change Except.ok a = .ok b ↔ _
  simp

end Except

namespace EStateM

variable {ε σ α β : Type} {f : α → EStateM ε σ β} {s s' : σ} {x : EStateM ε σ α}

lemma bind_eq_ok {b : β} : (x >>= f) s = .ok b s' ↔ ∃ a v, x s = .ok a v ∧ f a v = .ok b s' := by
  change EStateM.bind x f s = .ok b s' ↔ _
  unfold EStateM.bind
  cases x s with
  | ok a v => simp
  | error e v => simp

lemma bind_of_ok {a : α} (ran : x s = .ok a s') : (x >>= f) s = f a s' := by
  change EStateM.bind x f s = f a s'
  simp [EStateM.bind, ran]

lemma bind_of_error {e : ε} (failed : x s = .error e s') : (x >>= f) s = .error e s' := by
  change EStateM.bind x f s = .error e s'
  simp [EStateM.bind, failed]

lemma bind_congr {x y : EStateM ε σ α} (same : x s = y s) : (x >>= f) s = (y >>= f) s := by
  change EStateM.bind x f s = EStateM.bind y f s
  simp [EStateM.bind, same]

lemma pure_eq_ok {a b : α} : (pure a : EStateM ε σ α) s = .ok b s' ↔ a = b ∧ s = s' := by
  change EStateM.Result.ok a s = .ok b s' ↔ _
  simp

lemma modify_eq_ok {f : σ → σ} {u : PUnit} :
    (modify f : EStateM ε σ PUnit) s = .ok u s' ↔ s' = f s := by
  change EStateM.Result.ok PUnit.unit (f s) = .ok u s' ↔ _
  simp [eq_comm]

end EStateM

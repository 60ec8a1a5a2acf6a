import PatternLowering.Proofs.Unwinding

/-!
# The meaning of flat bindings

Bindings run over a store of variables. What a property or a slice of a value is, is left to a host,
whose answer may depend on everything it was asked before. The same host answers the direct reading
of a pattern, in which a part is read, then assigned or taken apart, before the next one is read.
-/

namespace PatternLowering

inductive PropertyKey where
  | name (name : String)
  | index (index : Nat)
deriving DecidableEq, Repr

/-- One question to the host: a property of a value, or what it holds from some index on. -/
inductive Access (V : Type) where
  | property (object : V) (key : PropertyKey)
  | slice (object : V) (start : Nat)

/-- What bindings run on. `answer` gets the questions asked before; `key` is the property that a
literal in brackets stands for. -/
structure Host (V : Type) where
  answer : List (Access V) → Access V → V
  key : String → PropertyKey

/-- What can be seen of a run: that the site's value was evaluated, a question, an assignment. -/
inductive Effect (V : Type) where
  | evaluated
  | asked (access : Access V)
  | assigned (name : String) (value : V)

def Effect.access? {V : Type} : Effect V → Option (Access V)
  | asked access => some access
  | _ => none

/-- The variables, and everything that happened so far. -/
structure Progress (V : Type) where
  store : String → V
  effects : List (Effect V)

namespace Progress

variable {V : Type}

/-- The questions asked so far. -/
def accesses (p : Progress V) : List (Access V) := p.effects.filterMap Effect.access?

def note (p : Progress V) (effect : Effect V) : Progress V :=
  { p with effects := p.effects ++ [effect] }

def ask (host : Host V) (p : Progress V) (access : Access V) : V × Progress V :=
  (host.answer p.accesses access, p.note (.asked access))

def assign (p : Progress V) (name : String) (value : V) : Progress V :=
  ⟨Function.update p.store name value, p.effects ++ [.assigned name value]⟩

/-- Only variables are part of the store. -/
def assignTo (p : Progress V) (target : Target) (value : V) : Progress V :=
  match target with
  | .named name => p.assign name value
  | .reference _ => p

end Progress

/-- The question that reads a part of `object`. -/
def Accessor.access {V : Type} (host : Host V) (object : V) : Accessor → Access V
  | member name => .property object (.name name)
  | literal text => .property object (host.key text)
  | computed text => .property object (host.key text)
  | item index => .property object (.index index)
  | rest index => .slice object index

/-- Evaluates an expression; `value` is the value of the site. -/
def Expr.eval {V : Type} (host : Host V) (value : V) : Expr → Progress V → V × Progress V
  | source _, p => (value, p.note .evaluated)
  | named name, p => (p.store name, p)
  | parens inside, p => inside.eval host value p
  | assign name inside, p =>
    ((inside.eval host value p).1,
      (inside.eval host value p).2.assign name (inside.eval host value p).1)
  | access object accessor, p =>
    (object.eval host value p).2.ask host
      (accessor.access host (object.eval host value p).1)

/-- Runs one binding and gives the value that it computed. -/
def FlatBinding.exec {V : Type} (host : Host V) (value : V) (b : FlatBinding) (p : Progress V) :
    V × Progress V :=
  match b.target with
  | some target =>
    ((b.value.eval host value p).1,
      (b.value.eval host value p).2.assignTo target (b.value.eval host value p).1)
  | none => b.value.eval host value p

/-- Runs bindings from left to right. The value of the last one is kept: it is the value of them
all. -/
def execAll {V : Type} (host : Host V) (value : V) : List FlatBinding → Option V × Progress V →
    Option V × Progress V
  | [], r => r
  | b :: later, r =>
    execAll host value later (some (b.exec host value r.2).1, (b.exec host value r.2).2)

/-- Reads a pattern directly: part by part, from left to right and in depth. -/
def Pattern.bind {V : Type} (host : Host V) : Pattern → V → Progress V → Progress V
  | done, _, p => p
  | leaf accessor target later, object, p =>
    later.bind host object
      ((p.ask host (accessor.access host object)).2.assignTo target
        (p.ask host (accessor.access host object)).1)
  | nested accessor inner later, object, p =>
    later.bind host object
      (inner.bind host (p.ask host (accessor.access host object)).1
        (p.ask host (accessor.access host object)).2)

variable {V : Type} {host : Host V} {value : V}

lemma execAll_append (xs ys : List FlatBinding) (r : Option V × Progress V) :
    execAll host value (xs ++ ys) r = execAll host value ys (execAll host value xs r) := by
  induction xs generalizing r with
  | nil => rfl
  | cons b later ih => exact ih _

/-- Parentheses do not matter for the value. -/
lemma Value.eval_forAccess (v : Value) (p : Progress V) :
    v.forAccess.eval host value p = v.forItem.eval host value p := by
  cases v with
  | named name => rfl
  | written text wrapped isSequence => cases wrapped <;> cases isSequence <;> rfl
  | part inside => rfl

namespace Progress

/-- The same questions were asked, and the same values are in the variables outside `X`. -/
def Agree (X : String → Prop) (p q : Progress V) : Prop :=
  p.accesses = q.accesses ∧ ∀ x, ¬ X x → p.store x = q.store x

/-- `q` goes on from `p` without evaluating the value of the site. -/
def Quiet (p q : Progress V) : Prop :=
  ∃ later, q.effects = p.effects ++ later ∧ Effect.evaluated ∉ later

lemma Quiet.refl (p : Progress V) : Quiet p p := ⟨[], by simp⟩

lemma Quiet.trans {p q r : Progress V} (first : Quiet p q) (second : Quiet q r) : Quiet p r := by
  obtain ⟨before, eq, none⟩ := first
  obtain ⟨after, eq', none'⟩ := second
  exact ⟨before ++ after, by rw [eq', eq, List.append_assoc], by simp [none, none']⟩

lemma quiet_ask (p : Progress V) (access : Access V) : Quiet p (p.ask host access).2 :=
  ⟨[.asked access], rfl, by simp⟩

lemma quiet_assign (p : Progress V) (name : String) (v : V) : Quiet p (p.assign name v) :=
  ⟨[.assigned name v], rfl, by simp⟩

lemma quiet_assignTo (p : Progress V) (target : Target) (v : V) :
    Quiet p (p.assignTo target v) := by
  cases target with
  | named name => exact p.quiet_assign name v
  | reference text => exact Quiet.refl p

lemma assign_store_of_ne {p : Progress V} {name x : String} (other : x ≠ name) (v : V) :
    (p.assign name v).store x = p.store x := by
  simp [assign, other]

lemma assignTo_store_of_ne {p : Progress V} {target : Target} {x : String}
    (other : target.name? ≠ some x) (v : V) : (p.assignTo target v).store x = p.store x := by
  cases target with
  | named name =>
    exact assign_store_of_ne (fun same => other (by rw [same]; rfl)) v
  | reference text => rfl

variable {p q : Progress V} {X : String → Prop}

lemma Agree.mono {X Y : String → Prop} (agree : Agree X p q) (within : ∀ x, X x → Y x) :
    Agree Y p q :=
  ⟨agree.1, fun x outside => agree.2 x fun inside => outside (within x inside)⟩

lemma Agree.ask (agree : Agree X p q) (host : Host V) (access : Access V) :
    (p.ask host access).1 = (q.ask host access).1 ∧
      Agree X (p.ask host access).2 (q.ask host access).2 := by
  have same := agree.1
  refine ⟨congrArg (fun asked => host.answer asked access) same, ?_, agree.2⟩
  unfold accesses at same ⊢
  simp [Progress.ask, note, same]

lemma accesses_assign (p : Progress V) (name : String) (v : V) :
    (p.assign name v).accesses = p.accesses := by
  simp [accesses, assign, Effect.access?]

/-- Assigning on one side only adds the name to those that may differ. -/
lemma Agree.assign_left (agree : Agree X p q) (name : String) (v : V) :
    Agree (fun x => X x ∨ x = name) (p.assign name v) q := by
  refine ⟨(accesses_assign p name v).trans agree.1, fun x outside => ?_⟩
  rw [not_or] at outside
  exact (assign_store_of_ne outside.2 v).trans (agree.2 x outside.1)

/-- After the same assignment on both sides the variable does not differ any more. -/
lemma Agree.assignTo (agree : Agree X p q) (target : Target) (v : V) :
    Agree (fun x => X x ∧ x ∉ target.name?.toList) (p.assignTo target v) (q.assignTo target v) := by
  cases target with
  | reference text => exact agree.mono fun x inside => ⟨inside, by simp [Target.name?]⟩
  | named name =>
    refine ⟨?_, fun x outside => ?_⟩
    · exact (accesses_assign p name v).trans (agree.1.trans (accesses_assign q name v).symm)
    · change Function.update p.store name v x = Function.update q.store name v x
      by_cases same : x = name
      · subst same
        simp
      · rw [Function.update_of_ne same, Function.update_of_ne same]
        exact agree.2 x fun inside => outside ⟨inside, by simp [Target.name?, same]⟩

end Progress

namespace Pattern

/-- How often a pattern reads its value. -/
def reads (trailing : Bool) (pattern : Pattern) : Nat := pattern.count + if trailing then 1 else 0

lemma reads_leaf (accessor : Accessor) (target : Target) (later : Pattern) (trailing : Bool) :
    (leaf accessor target later).reads trailing = later.reads trailing + 1 := Nat.add_right_comm ..

lemma reads_nested (accessor : Accessor) (inner later : Pattern) (trailing : Bool) :
    (nested accessor inner later).reads trailing = later.reads trailing + 1 := Nat.add_right_comm ..

/-- The variable `x` can hold the value of the pattern: whatever is assigned before the last read,
it is not `x`. -/
def Keeps (x : String) (trailing : Bool) : Pattern → Prop
  | done => True
  | leaf _ target later =>
    (0 < later.reads trailing → target.name? ≠ some x) ∧ later.Keeps x trailing
  | nested _ inner later => (0 < later.reads trailing → x ∉ inner.names) ∧ later.Keeps x trailing

variable {pattern : Pattern} {x : String}

lemma keeps_of_not_mem (absent : x ∉ pattern.names) (trailing : Bool) :
    pattern.Keeps x trailing := by
  induction pattern with
  | done => trivial
  | leaf accessor target later ih =>
    simp only [names, List.mem_append, not_or, Option.mem_toList] at absent
    exact ⟨fun _ => absent.1, ih absent.2⟩
  | nested accessor inner later _ ih =>
    simp only [names, List.mem_append, not_or] at absent
    exact ⟨fun _ => absent.1, ih absent.2⟩

lemma reads_eq_zero {trailing : Bool} (none : pattern.reads trailing = 0) : pattern = done := by
  cases pattern <;> simp [reads, count] at none ⊢

/-- With one read only, every variable will do. -/
lemma keeps_of_reads_le_one {trailing : Bool} (single : pattern.reads trailing ≤ 1) :
    pattern.Keeps x trailing := by
  cases pattern with
  | done => trivial
  | leaf accessor target later =>
    have none : later.reads trailing = 0 := by
      simp only [reads, count] at single ⊢
      omega
    exact ⟨fun h => by omega, reads_eq_zero none ▸ trivial⟩
  | nested accessor inner later =>
    have none : later.reads trailing = 0 := by
      simp only [reads, count] at single ⊢
      omega
    exact ⟨fun h => by omega, reads_eq_zero none ▸ trivial⟩

lemma lastName?_leaf (accessor : Accessor) (target : Target) (later : Pattern) :
    (leaf accessor target later).lastName? =
      if later = done then target.name? else later.lastName? := by
  cases later <;> simp [lastName?]

lemma mem_names_of_lastName? (last : pattern.lastName? = some x) : x ∈ pattern.names := by
  induction pattern with
  | done => cases last
  | leaf accessor target later ih =>
    rw [lastName?_leaf] at last
    split at last
    · simp [names, last]
    · simp [names, ih last]
  | nested accessor inner later _ ih => simp [names, ih last]

/-- The last variable of a pattern, if bound only there, is not assigned before. -/
lemma keeps_lastName? (last : pattern.lastName? = some x) (unique : pattern.names.count x = 1) :
    pattern.Keeps x false := by
  induction pattern with
  | done => trivial
  | leaf accessor target later ih =>
    rw [lastName?_leaf] at last
    split at last
    · rename_i bare
      subst bare
      exact ⟨fun h => by simp [reads, count] at h, trivial⟩
    · have pos := List.count_pos_iff.mpr (mem_names_of_lastName? last)
      simp only [names, List.count_append] at unique
      refine ⟨fun _ same => ?_, ih last (by omega)⟩
      simp only [same, Option.toList_some, List.count_singleton_self] at unique
      omega
  | nested accessor inner later _ ih =>
    simp only [lastName?] at last
    have pos := List.count_pos_iff.mpr (mem_names_of_lastName? last)
    simp only [names, List.count_append] at unique
    refine ⟨fun _ inside => ?_, ih last (by omega)⟩
    have := List.count_pos_iff.mpr inside
    omega

end Pattern

namespace Scopes

/-- The names that a site in the scope must leave alone: those of the file, and the temporaries in
use. -/
def Protected (s : Scopes) (id : ScopeId) (x : String) : Prop :=
  x ∈ s.identifiers ∨ x ∈ s.held id

/-- The scopes `s'` go on from `s`: no temporary that was in use has been given back. -/
structure Continues (id : ScopeId) (s s' : Scopes) : Prop where
  sound : s'.Sound
  identifiers : s'.identifiers = s.identifiers
  held : ∀ x ∈ s.held id, x ∈ s'.held id

variable {id : ScopeId} {s : Scopes}

lemma Continues.refl (sound : s.Sound) : Continues id s s :=
  ⟨sound, rfl, fun _ h => h⟩

lemma Continues.trans {s s' s'' : Scopes} (first : Continues id s s')
    (second : Continues id s' s'') : Continues id s s'' :=
  ⟨second.sound, second.identifiers.trans first.identifiers,
    fun x h => second.held x (first.held x h)⟩

lemma Continues.protected {s s' : Scopes} (continues : Continues id s s') {x : String}
    (h : s.Protected id x) : s'.Protected id x := by
  rcases h with h | h
  · exact .inl (continues.identifiers ▸ h)
  · exact .inr (continues.held x h)

/-- The temporary handed out next is not protected, and is in use afterwards. -/
lemma Sound.acquire_continues (sound : s.Sound) (id : ScopeId) :
    Continues id s (s.acquire id).2 ∧ ¬ s.Protected id (s.acquire id).1 ∧
      (s.acquire id).1 ∈ (s.acquire id).2.held id := by
  have out := TempRegistry.acquire_handedOut (sound.registry id)
  have mem : ∀ x, x ∈ (s.acquire id).2.held id ↔ x = (s.acquire id).1 ∨ x ∈ s.held id := by
    intro x
    unfold Scopes.held
    rw [acquire_registry, acquire_name]
    exact out.held x
  refine ⟨⟨sound.acquire id, s.acquire_identifiers id, fun x h => (mem x).mpr (.inr h)⟩, ?_,
    (mem _).mpr (.inl rfl)⟩
  rw [acquire_name]
  rintro (h | h)
  · exact out.fresh h
  · exact out.unheld h

/-- A claimed name is not protected. -/
lemma Sound.claim_continues (sound : s.Sound) (id : ScopeId) :
    Continues id s (s.claim id).2 ∧ ¬ s.Protected id (s.claim id).1 := by
  obtain ⟨_, fresh, undeclared, slots⟩ := TempRegistry.claim_eq (sound.registry id)
  refine ⟨⟨sound.claim id, s.claim_identifiers id, fun x h => ?_⟩, ?_⟩
  · unfold Scopes.held at h ⊢
    rwa [claim_registry, TempRegistry.mem_held, slots, ← TempRegistry.mem_held]
  · rw [claim_name]
    rintro (h | h)
    · exact fresh h
    · exact undeclared (TempRegistry.mem_declared_of_mem_held h)

/-- Giving back a name leaves all others in use. -/
lemma Continues.release {s s' : Scopes} (continues : Continues id s s') {name : String}
    (unheld : name ∉ s.held id) : Continues id s (s'.release id name).2 := by
  obtain ⟨_, _, held⟩ := TempRegistry.release_eq (continues.sound.registry id) name
  refine ⟨continues.sound.release id name,
    (s'.release_identifiers id name).trans continues.identifiers, fun x h => ?_⟩
  unfold Scopes.held
  rw [release_registry, held]
  exact ⟨fun same => unheld (same ▸ h), continues.held x h⟩

end Scopes

namespace Unwind

/-- A level leaves everything in use that was in use before it chose its reference. -/
lemma Resolved.release_continues {setting : Setting} {pattern : Pattern} {value : Value}
    {consumers : Nat} {w w1 w2 : Workbench} {reads : Reads} (sound : w.scopes.Sound)
    (resolved : Resolved setting pattern value consumers w reads w1)
    (continues : Scopes.Continues setting.scope w1.scopes w2.scopes) :
    Scopes.Continues setting.scope w.scopes (release setting reads w2).scopes := by
  cases resolved with
  | direct name isName stays => exact continues
  | inline once expression => exact continues
  | ownName name several chosen => exact continues
  | temporary several unnamed =>
    obtain ⟨acquired, unprotected, _⟩ := sound.acquire_continues setting.scope
    rw [release_temporary_scopes]
    split
    · exact acquired.trans continues
    · exact (acquired.trans continues).release fun h => unprotected (.inr h)

end Unwind

end PatternLowering

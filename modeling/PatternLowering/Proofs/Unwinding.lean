import PatternLowering.Proofs.Steps
import PatternLowering.Proofs.Temporaries
import PatternLowering.Site.Lowering

/-!
# What unwinding can do

Each step of unwinding is opened here once: what it means that the step went well, and what it then
did. Later proofs cite these facts and never open a step again.
-/

namespace PatternLowering

namespace Unwind

open EStateM

variable {w w' : Workbench} {bindings : List FlatBinding} {setting : Setting} {depth : Nat}
  {reads left : Reads} {trailing : Bool}

lemma ofExcept_eq_ok {α : Type} {e : Except Fault α} {a : α} :
    ofExcept e w = .ok a w' ↔ e = .ok a ∧ w = w' := by
  cases e with
  | ok b => simp [ofExcept, pure_eq_ok]
  | error fault =>
    change EStateM.Result.error fault w = .ok a w' ↔ _
    simp

lemma thenAlways_eq_ok {α : Type} {x : Unwind α} {last : Workbench → Workbench} {a : α} :
    thenAlways x last w = .ok a w' ↔ ∃ v, x w = .ok a v ∧ last v = w' := by
  unfold thenAlways
  cases x w with
  | ok b v => simp
  | error fault v => simp

/-- How many reads a pattern makes of its value. -/
def consumers (setting : Setting) (pattern : Pattern) (isTop : Bool) : Nat :=
  pattern.count + if isTop && setting.context = .assignment then 1 else 0

/-- The bench with one more event in its log. -/
def logged (w : Workbench) (event : Event) : Workbench := { w with log := w.log.push event }

@[simp] lemma logged_scopes (w : Workbench) (event : Event) :
    (logged w event).scopes = w.scopes := rfl

lemma record_eq_ok {event : Event} {u : Unit} :
    record event w = .ok u w' ↔ w' = logged w event := by
  unfold record
  exact modify_eq_ok

lemma level_eq_ok {pattern : Pattern} {value : Value} {isTop : Bool}
    {inside : Reads → Unwind (List FlatBinding × Reads)} :
    level setting pattern value isTop depth inside w = .ok bindings w' ↔
      depth < maxPatternDepth ∧
      ((pattern.count = 0 ∧ emptyLevel setting value isTop w = .ok bindings w') ∨
        (pattern.count ≠ 0 ∧ ∃ reads w1 left w2,
          resolve setting pattern value (consumers setting pattern isTop) w = .ok reads w1 ∧
          inside reads (logged w1 (.unwinding depth (consumers setting pattern isTop)
            reads.reference)) = .ok (bindings, left) w2 ∧
          left.check = .ok () ∧ release setting reads w2 = w')) := by
  unfold level
  by_cases deep : maxPatternDepth ≤ depth
  · have refused : ¬ depth < maxPatternDepth := by omega
    simp only [deep, if_true, bind_eq_ok, refused, false_and, iff_false]
    rintro ⟨_, _, h, _⟩
    cases h
  · have allowed : depth < maxPatternDepth := by omega
    simp only [deep, if_false, allowed, true_and]
    by_cases empty : pattern.count = 0
    · simp [empty]
    · simp only [empty, if_false, bind_eq_ok, pure_eq_ok, thenAlways_eq_ok, ofExcept_eq_ok,
        record_eq_ok]
      constructor
      · rintro ⟨reads, w1, resolved, _, _, rfl, ⟨bindings, left⟩, _, ⟨w2, ran, rfl⟩, _, _,
          ⟨checked, rfl⟩, rfl, rfl⟩
        exact .inr ⟨empty, reads, w1, left, w2, resolved, ran, checked, rfl⟩
      · rintro (⟨impossible, _⟩ | ⟨_, reads, w1, left, w2, resolved, ran, checked, rfl⟩)
        · exact impossible.elim
        · exact ⟨reads, w1, resolved, (), _, rfl, (bindings, left), _, ⟨w2, ran, rfl⟩, (), _,
            ⟨checked, rfl⟩, rfl, rfl⟩

lemma parts_done_eq_ok :
    parts setting .done depth trailing reads w = .ok (bindings, left) w' ↔
      w = w' ∧ if trailing then
          ∃ value, reads.next = .ok (value, left) ∧ bindings = [⟨none, value, true⟩]
        else bindings = [] ∧ left = reads := by
  unfold parts
  cases trailing with
  | true =>
    simp only [if_true, bind_eq_ok, pure_eq_ok, ofExcept_eq_ok]
    constructor
    · rintro ⟨⟨value, reads'⟩, _, ⟨next, rfl⟩, eq, rfl⟩
      obtain ⟨rfl, rfl⟩ := Prod.mk.inj eq
      exact ⟨rfl, value, next, rfl⟩
    · rintro ⟨rfl, value, next, rfl⟩
      exact ⟨(value, left), w, ⟨next, rfl⟩, rfl, rfl⟩
  | false =>
    simp only [Bool.false_eq_true, if_false, pure_eq_ok, Prod.mk.injEq]
    constructor
    · rintro ⟨⟨rfl, rfl⟩, rfl⟩
      exact ⟨rfl, rfl, rfl⟩
    · rintro ⟨rfl, rfl, rfl⟩
      exact ⟨⟨rfl, rfl⟩, rfl⟩

lemma parts_leaf_eq_ok {accessor : Accessor} {target : Target} {later : Pattern} :
    parts setting (.leaf accessor target later) depth trailing reads w = .ok (bindings, left) w' ↔
      ∃ value reads' rest, reads.next = .ok (value, reads') ∧
        parts setting later depth trailing reads' w = .ok (rest, left) w' ∧
        bindings = ⟨some target, .access value accessor, false⟩ :: rest := by
  rw [parts]
  simp only [bind_eq_ok, pure_eq_ok, ofExcept_eq_ok]
  constructor
  · rintro ⟨⟨value, reads'⟩, _, ⟨next, rfl⟩, ⟨rest, left'⟩, _, ran, eq, rfl⟩
    obtain ⟨rfl, rfl⟩ := Prod.mk.inj eq
    exact ⟨value, reads', rest, next, ran, rfl⟩
  · rintro ⟨value, reads', rest, next, ran, rfl⟩
    exact ⟨(value, reads'), w, ⟨next, rfl⟩, (rest, left), w', ran, rfl, rfl⟩

lemma parts_nested_eq_ok {accessor : Accessor} {inner later : Pattern} :
    parts setting (.nested accessor inner later) depth trailing reads w =
        .ok (bindings, left) w' ↔
      ∃ value reads' first v rest, reads.next = .ok (value, reads') ∧
        level setting inner (.part (.access value accessor)) false (depth + 1)
          (parts setting inner (depth + 1) false) w = .ok first v ∧
        parts setting later depth trailing reads' v = .ok (rest, left) w' ∧
        bindings = first ++ rest := by
  rw [parts]
  simp only [bind_eq_ok, pure_eq_ok, ofExcept_eq_ok]
  constructor
  · rintro ⟨⟨value, reads'⟩, _, ⟨next, rfl⟩, first, v, unwound, ⟨rest, left'⟩, _, ran, eq, rfl⟩
    obtain ⟨rfl, rfl⟩ := Prod.mk.inj eq
    exact ⟨value, reads', first, v, rest, next, unwound, ran, rfl⟩
  · rintro ⟨value, reads', first, v, rest, next, unwound, ran, rfl⟩
    exact ⟨(value, reads'), w, ⟨next, rfl⟩, first, v, unwound, (rest, left), w', ran, rfl, rfl⟩

/-- The bench after a temporary has been handed out. -/
def afterAcquire (setting : Setting) (w : Workbench) : Workbench :=
  { w with
    scopes := (w.scopes.acquire setting.scope).2
    temps := w.temps + 1
    log := w.log.push (.acquired ((w.scopes.acquire setting.scope).2.keeper setting.scope)
      (w.scopes.acquire setting.scope).1) }

/-- The four ways in which a value can be read, each with its condition. -/
inductive Resolved (setting : Setting) (pattern : Pattern) (value : Value) (consumers : Nat)
    (w : Workbench) : Reads → Workbench → Prop where
  | direct (name : String) (isName : value = .named name)
    (stays : 1 < consumers → name ∉ pattern.names) :
    Resolved setting pattern value consumers w (.repeatable (.named name)) w
  | inline (once : consumers ≤ 1) (expression : ∀ name, value ≠ .named name) :
    Resolved setting pattern value consumers w (.once (some value.forAccess)) w
  | ownName (name : String) (several : 1 < consumers)
    (chosen : ownName? setting pattern w.reserved = some name) :
    Resolved setting pattern value consumers w
      (.assigned (some (.assign name value.forItem)) name .ownName)
      { w with reserved := name :: w.reserved }
  | temporary (several : 1 < consumers) (unnamed : ownName? setting pattern w.reserved = none) :
    Resolved setting pattern value consumers w
      (.assigned (some (.assign (w.scopes.acquire setting.scope).1 value.forItem))
        (w.scopes.acquire setting.scope).1 .temporary)
      (afterAcquire setting w)

lemma hold_eq (setting : Setting) (pattern : Pattern) (value : Expr) (w : Workbench) :
    hold setting pattern value w =
      match ownName? setting pattern w.reserved with
      | some name => .ok (.assigned (some (.assign name value)) name .ownName)
          { w with reserved := name :: w.reserved }
      | none => .ok (.assigned (some (.assign (w.scopes.acquire setting.scope).1 value))
          (w.scopes.acquire setting.scope).1 .temporary) (afterAcquire setting w) := by
  unfold hold
  simp only [bind, EStateM.bind, get, getThe, MonadStateOf.get, EStateM.get]
  cases ownName? setting pattern w.reserved <;> rfl

/-- Choosing a reference never fails. -/
lemma resolve_resolved (setting : Setting) (pattern : Pattern) (value : Value) (consumers : Nat)
    (w : Workbench) : ∃ reads w', resolve setting pattern value consumers w = .ok reads w' ∧
      Resolved setting pattern value consumers w reads w' := by
  have held : 1 < consumers → ∃ reads w', hold setting pattern value.forItem w = .ok reads w' ∧
      Resolved setting pattern value consumers w reads w' := by
    intro several
    rw [hold_eq]
    cases chosen : ownName? setting pattern w.reserved with
    | some name => exact ⟨_, _, rfl, .ownName name several chosen⟩
    | none => exact ⟨_, _, rfl, .temporary several chosen⟩
  cases value with
  | named name =>
    by_cases again : 1 < consumers ∧ name ∈ pattern.names
    · simpa only [resolve, again, and_self, if_true] using held again.1
    · refine ⟨_, _, by simp only [resolve, again, if_false]; rfl, .direct name rfl ?_⟩
      exact fun several mem => again ⟨several, mem⟩
  | written | part =>
    by_cases once : consumers ≤ 1
    · exact ⟨_, _, by simp only [resolve, once, if_true]; rfl, .inline once (by simp)⟩
    · simpa only [resolve, once, if_false] using held (by omega)

lemma resolved_of_resolve {pattern : Pattern} {value : Value} {consumers : Nat}
    (ran : resolve setting pattern value consumers w = .ok reads w') :
    Resolved setting pattern value consumers w reads w' := by
  obtain ⟨_, _, eq, resolved⟩ := resolve_resolved setting pattern value consumers w
  rw [ran] at eq
  cases eq
  exact resolved

lemma release_temporary_scopes (setting : Setting) (first : Option Expr) (name : String)
    (w : Workbench) : (release setting (.assigned first name .temporary) w).scopes =
      if setting.retain then w.scopes else (w.scopes.release setting.scope name).2 := by
  cases retained : setting.retain <;> simp [release, retained]

lemma emptyLevel_eq (setting : Setting) (value : Value) (isTop : Bool) (w : Workbench) :
    emptyLevel setting value isTop w =
      match setting.context with
      | .declaration _ => .ok
          [⟨some (.named (w.scopes.claim setting.scope).1), value.forItem, false⟩]
          { w with scopes := (w.scopes.claim setting.scope).2 }
      | .assignment => .ok [⟨none, value.forItem, isTop⟩] w := by
  unfold emptyLevel
  cases setting.context <;> rfl

end Unwind

namespace Table

variable {t : Table} {buffer : EditBuffer} {n : NodeId} {retain : Bool} {scopes scopes' : Scopes}

lemma siteParts_eq_ok {place : Lowerable} {whole : Node} {setting : Setting} {pattern : Pattern}
    {value : Value} :
    t.siteParts buffer scopes n retain = .ok (place, whole, setting, pattern, value) ↔
      t.lowerable n = .ok place ∧ t.get? place.whole = some whole ∧ Pattern.read t buffer n =
        .ok pattern ∧
        t.siteValue buffer place.value = .ok value ∧
        setting = ⟨place.context, scopes.closest t n, retain, t.hasComputedKeys n⟩ := by
  constructor
  · intro found
    unfold siteParts at found
    obtain ⟨place', isPlace, found⟩ := Except.bind_eq_ok.mp found
    split at found
    · rename_i whole' isWhole
      obtain ⟨pattern', read, found⟩ := Except.bind_eq_ok.mp found
      obtain ⟨value', isValue, found⟩ := Except.bind_eq_ok.mp found
      cases Except.pure_eq_ok.mp found
      refine ⟨isPlace, isWhole, ?_, ?_, rfl⟩
      · cases found : Pattern.read t buffer n <;> simp_all [Except.mapError]
      · cases found : t.siteValue buffer place.value <;> simp_all [Except.mapError]
    · cases found
  · rintro ⟨ok, isWhole, read, isValue, rfl⟩
    simp [siteParts, ok, isWhole, read, isValue, Except.mapError, bind, Except.bind, pure,
      Except.pure]

/-- What a lowered site was made of. -/
lemma lowerSite_eq_ok {log log' : Array Event} {site : LoweredSite}
    (lowered : t.lowerSite buffer n retain scopes log = (.ok site, scopes', log')) :
    ∃ place whole pattern value w, t.lowerable n = .ok place ∧
      t.get? place.whole = some whole ∧ Pattern.read t buffer n = .ok pattern ∧
      t.siteValue buffer place.value = .ok value ∧
      site.start = whole.start ∧ site.stop = whole.stop ∧
      Unwind.site ⟨place.context, scopes.closest t n, retain, t.hasComputedKeys n⟩ pattern value
        ⟨scopes, [], 0, log⟩ = .ok site.bindings w := by
  unfold lowerSite at lowered
  split at lowered
  · cases lowered
  · rename_i place whole setting pattern value parts
    obtain ⟨isPlace, isWhole, read, isValue, rfl⟩ := siteParts_eq_ok.mp parts
    split at lowered
    · cases lowered
    · rename_i bindings w unwound
      cases lowered
      exact ⟨place, whole, pattern, value, w, isPlace, isWhole, read, isValue, rfl, rfl, unwound⟩

end Table

end PatternLowering

import PatternLowering.Proofs.Registers

/-!
# Temporaries in balance

A level of a pattern that takes a temporary gives it back when its parts are done, and until then no
level inside it is given the same one. So a site leaves the names in use as they were, whether it
fails or not. If its temporaries are retained, they are all different and all in use at its end. The
log of a site tells its levels, each before those that it encloses.
-/

namespace PatternLowering

open List

namespace Scopes

variable {id other : ScopeId} {s s' s'' : Scopes}

/-- The scopes differ at most in the temporaries of one. -/
structure OnlyAt (id : ScopeId) (s s' : Scopes) : Prop where
  identifiers : s'.identifiers = s.identifiers
  size : s'.entries.size = s.entries.size
  others : ∀ other, other ≠ id → s'.get? other = s.get? other
  own : ∃ temps, s'.get? id = (s.get? id).map fun scope => { scope with temps := temps }

lemma OnlyAt.refl (known : id < s.entries.size) : OnlyAt id s s := by
  refine ⟨rfl, rfl, fun _ _ => rfl, s.temps id, ?_⟩
  simp [temps, get?, known]

lemma OnlyAt.trans (first : OnlyAt id s s') (second : OnlyAt id s' s'') : OnlyAt id s s'' := by
  obtain ⟨temps, own⟩ := first.own
  obtain ⟨temps', own'⟩ := second.own
  refine ⟨second.identifiers.trans first.identifiers, second.size.trans first.size,
    fun other apart => (second.others other apart).trans (first.others other apart), temps', ?_⟩
  rw [own', own, Option.map_map]
  rfl

lemma onlyAt_setTemps (known : id < s.entries.size) (r : TempRegistry) :
    OnlyAt id s (s.ensured.setTemps (s.ensured.keeper id) r) := by
  have pos : 0 < s.entries.size := Nat.zero_lt_of_lt known
  have here : s.keeper id = id := if_pos known
  rw [ensured_eq_of_pos pos, here]
  refine ⟨s.setTemps_identifiers id r, s.setTemps_size id r,
    fun other apart => get?_setTemps r apart, r, ?_⟩
  simp [setTemps, update, get?, known]

/-- What is in use elsewhere is untouched. -/
lemma OnlyAt.held (only : OnlyAt id s s') (known : id < s.entries.size)
    (own : ∀ x, x ∈ s'.held id ↔ x ∈ s.held id) (other : ScopeId) (x : String) :
    x ∈ s'.held other ↔ x ∈ s.held other := by
  have pos : 0 < s.entries.size := Nat.zero_lt_of_lt known
  have pos' : 0 < s'.entries.size := only.size ▸ pos
  have same : s'.keeper other = s.keeper other := by rw [keeper, keeper, only.size]
  have own' := own x
  unfold Scopes.held registry at own' ⊢
  rw [ensured_eq_of_pos pos, ensured_eq_of_pos pos'] at own' ⊢
  rw [show s.keeper id = id from if_pos known,
    show s'.keeper id = id from if_pos (only.size ▸ known)] at own'
  rw [same]
  by_cases here : s.keeper other = id
  · rw [here]
    exact own'
  · rw [temps, temps, only.others _ here]

lemma Sound.held_acquire (sound : s.Sound) (id : ScopeId) :
    (s.acquire id).1 ∉ s.held id ∧
      ∀ x, x ∈ (s.acquire id).2.held id ↔ x = (s.acquire id).1 ∨ x ∈ s.held id := by
  have out := TempRegistry.acquire_handedOut (sound.registry id)
  unfold Scopes.held
  rw [acquire_name, acquire_registry]
  exact ⟨out.unheld, out.held⟩

lemma Sound.held_claim (sound : s.Sound) (id : ScopeId) (x : String) :
    x ∈ (s.claim id).2.held id ↔ x ∈ s.held id := by
  obtain ⟨_, _, _, slots⟩ := TempRegistry.claim_eq (sound.registry id)
  unfold Scopes.held
  rw [claim_registry, TempRegistry.mem_held, slots, ← TempRegistry.mem_held]

lemma Sound.held_release (sound : s.Sound) (id : ScopeId) (name : String) :
    ((s.release id name).1 = true ↔ name ∈ s.held id) ∧
      ∀ x, x ∈ (s.release id name).2.held id ↔ x ≠ name ∧ x ∈ s.held id := by
  obtain ⟨_, known, held⟩ := TempRegistry.release_eq (sound.registry id) name
  unfold Scopes.held
  rw [release_registry]
  exact ⟨known, held⟩

lemma Reachable.size_pos {t : Table} {root : NodeId} (reached : Reachable t root s) :
    0 < s.entries.size := by
  cases reached with
  | bound => exact ofTable_size_pos t root
  | acquire => exact (setTemps_size ..).symm ▸ ensured_size_pos _
  | claim => exact (setTemps_size ..).symm ▸ ensured_size_pos _
  | release => exact (setTemps_size ..).symm ▸ ensured_size_pos _

/-- A node lies in a scope that there is. -/
lemma closest_lt_size (pos : 0 < s.entries.size) (t : Table) (n : NodeId) :
    s.closest t n < s.entries.size := by
  unfold closest
  cases found : (t.ancestors n).findSome? s.opened? with
  | none => exact pos
  | some id =>
    obtain ⟨_, _, opened⟩ := exists_of_findSome?_eq_some found
    exact (Array.findIdx?_eq_some_iff_getElem.mp opened).1

end Scopes

/-- A level of a pattern, as it is begun: how deep it lies, how often and by which means it reads
its value, and the temporary that it holds. -/
structure PatternLevel where
  depth : Nat
  consumers : Nat
  reference : Reference
  temp : Option String
deriving DecidableEq, Repr

namespace PatternLevel

/-- What the log tells of a level in a scope. -/
def events (scope : ScopeId) (level : PatternLevel) : List Event :=
  (level.temp.map (Event.acquired scope)).toList ++
    [.unwinding level.depth level.consumers level.reference]

/-- The temporaries that levels hold, in their order. -/
def names (levels : List PatternLevel) : List String := levels.filterMap temp

/-- The levels that one encloses are those that follow it, as long as they lie deeper. -/
def enclosed (outer : PatternLevel) (later : List PatternLevel) : List PatternLevel :=
  later.takeWhile fun inner => outer.depth < inner.depth

/-- No level holds the same temporary as one that encloses it. -/
def Apart : List PatternLevel → Prop
  | [] => True
  | outer :: later => (∀ x ∈ outer.temp, x ∉ names (outer.enclosed later)) ∧ Apart later

variable {levels levels' : List PatternLevel} {outer : PatternLevel}

@[simp] lemma names_nil : names [] = [] := rfl

@[simp] lemma names_append : names (levels ++ levels') = names levels ++ names levels' :=
  filterMap_append

lemma names_enclosed_subset (outer : PatternLevel) (later : List PatternLevel) :
    names (outer.enclosed later) ⊆ names later :=
  ((takeWhile_sublist _).filterMap temp).subset

/-- A level at the depth of an earlier one ends what that one encloses. -/
lemma enclosed_append (ends : ∀ level ∈ levels'.head?, level.depth ≤ outer.depth) :
    outer.enclosed (levels ++ levels') = outer.enclosed levels := by
  have stops : levels'.takeWhile (fun inner => outer.depth < inner.depth) = [] := by
    cases levels' with
    | nil => rfl
    | cons level later =>
      have := ends level rfl
      rw [takeWhile_cons_of_neg (by simpa using this)]
  unfold enclosed
  rw [takeWhile_append]
  split
  · rename_i whole
    rw [stops, append_nil]
    exact ((List.takeWhile_prefix _).eq_of_length whole).symm
  · rfl

lemma Apart.append (first : Apart levels) (second : Apart levels')
    (ends : ∀ outer ∈ levels, ∀ level ∈ levels'.head?, level.depth ≤ outer.depth) :
    Apart (levels ++ levels') := by
  induction levels with
  | nil => exact second
  | cons outer later ih =>
    refine ⟨fun x holds => ?_, ih first.2 fun level mem => ends level (by simp [mem])⟩
    change x ∉ names (outer.enclosed (later ++ levels'))
    rw [enclosed_append (ends outer (by simp))]
    exact first.1 x holds

lemma Apart.cons (apart : Apart levels) (fresh : ∀ x ∈ outer.temp, x ∉ names levels) :
    Apart (outer :: levels) :=
  ⟨fun x holds mem => fresh x holds (names_enclosed_subset _ _ mem), apart⟩

end PatternLevel

/-- How deep the patterns inside a pattern at `depth` lie that have parts, each before those in
it. -/
def Pattern.depths (depth : Nat) : Pattern → List Nat
  | done => []
  | leaf _ _ later => later.depths depth
  | nested _ inner later =>
    (if inner.count = 0 then [] else (depth + 1) :: inner.depths (depth + 1)) ++ later.depths depth

namespace Pattern

lemma lt_of_mem_depths {pattern : Pattern} {depth k : Nat} (mem : k ∈ pattern.depths depth) :
    depth < k := by
  induction pattern generalizing depth with
  | done => cases mem
  | leaf accessor target later ih => exact ih mem
  | nested accessor inner later ihInner ih =>
    rcases mem_append.mp mem with mem | mem
    · split at mem
      · cases mem
      · rcases mem_cons.mp mem with rfl | mem
        · exact Nat.lt_succ_self depth
        · exact Nat.lt_of_succ_lt (ihInner mem)
    · exact ih mem

lemma depths_head? {pattern : Pattern} {depth k : Nat} (first : k ∈ (pattern.depths depth).head?) :
    k = depth + 1 := by
  induction pattern generalizing depth with
  | done => cases first
  | leaf accessor target later ih => exact ih first
  | nested accessor inner later ihInner ih =>
    unfold depths at first
    split at first
    · exact ih first
    · exact (Option.some.inj first).symm

end Pattern

namespace Unwind

open EStateM Scopes PatternLevel

variable {setting : Setting} {α β : Type}

/-- The scope of the setting is one of the scopes, and these keep their promises. -/
structure Ready (setting : Setting) (w : Workbench) : Prop where
  sound : w.scopes.Sound
  known : setting.scope < w.scopes.entries.size

/-- What happens to the bench while levels are begun and ended. With `retain` their temporaries stay
in use. -/
structure Balanced (setting : Setting) (levels : List PatternLevel) (w w' : Workbench) : Prop where
  sound : w'.scopes.Sound
  only : OnlyAt setting.scope w.scopes w'.scopes
  log : w'.log.toList = w.log.toList ++ levels.flatMap (events setting.scope)
  count : w'.temps = w.temps + (names levels).length
  fresh : ∀ x ∈ names levels, x ∉ w.scopes.held setting.scope
  held : ∀ x, x ∈ w'.scopes.held setting.scope ↔
    x ∈ w.scopes.held setting.scope ∨ (setting.retain = true ∧ x ∈ names levels)
  nodup : setting.retain = true → (names levels).Nodup
  told : ∀ level ∈ levels, level.temp.isSome ↔ level.reference = .temporary

namespace Balanced

variable {levels levels' : List PatternLevel} {w w' w'' : Workbench}

lemma refl (ready : Ready setting w) : Balanced setting [] w w :=
  ⟨ready.sound, .refl ready.known, by simp, by simp, by simp, by simp, by simp, by simp⟩

lemma ready (balanced : Balanced setting levels w w') (ready : Ready setting w) :
    Ready setting w' :=
  ⟨balanced.sound, balanced.only.size.symm ▸ ready.known⟩

lemma trans (first : Balanced setting levels w w') (second : Balanced setting levels' w' w'') :
    Balanced setting (levels ++ levels') w w'' := by
  refine ⟨second.sound, first.only.trans second.only, ?_, ?_, fun x mem => ?_, fun x => ?_,
    fun retained => ?_,
    fun level mem => (mem_append.mp mem).elim (first.told level) (second.told level)⟩
  · rw [second.log, first.log, flatMap_append, append_assoc]
  · rw [second.count, first.count, names_append, length_append, Nat.add_assoc]
  · rcases mem_append.mp (names_append ▸ mem) with mem | mem
    · exact first.fresh x mem
    · exact fun held => second.fresh x mem ((first.held x).mpr (.inl held))
  · rw [second.held, first.held, names_append, mem_append]
    tauto
  · rw [names_append]
    refine (first.nodup retained).append (second.nodup retained) fun x mem mem' => ?_
    exact second.fresh x mem' ((first.held x).mpr (.inr ⟨retained, mem⟩))

end Balanced

/-- Whether the step fails or not, it begins and ends levels at these depths in turn, and all of
them if it does not fail. -/
def Balances (setting : Setting) (depths : List Nat) (x : Unwind α) : Prop :=
  ∀ w, Ready setting w → ∃ levels, Balanced setting levels w (x w).state ∧ Apart levels ∧
    levels.map depth <+: depths ∧ ∀ a w', x w = .ok a w' → levels.map depth = depths

namespace Balances

variable {depths depths' : List Nat}

lemma pure (a : α) : Balances setting [] (pure a : Unwind α) := fun _ ready =>
  ⟨[], .refl ready, trivial, nil_prefix, fun _ _ _ => rfl⟩

lemma throw (fault : Fault) : Balances setting depths (throw fault : Unwind α) := by
  intro w ready
  refine ⟨[], .refl ready, trivial, nil_prefix, fun a w' ran => ?_⟩
  cases ran

lemma ofExcept (e : Except Fault α) : Balances setting [] (ofExcept e) := by
  cases e with
  | ok a => exact pure a
  | error fault => exact throw fault

variable {f : α → Unwind β}

lemma bind {x : Unwind α} (first : Balances setting depths x)
    (later : ∀ a, Balances setting depths' (f a))
    (ends : ∀ k ∈ depths, ∀ k' ∈ depths'.head?, k' ≤ k) :
    Balances setting (depths ++ depths') (x >>= f) := by
  intro w ready
  obtain ⟨levels, balanced, apart, within, all⟩ := first w ready
  cases ran : x w with
  | ok a w' =>
    rw [ran] at balanced
    obtain ⟨levels', balanced', apart', within', all'⟩ := later a w' (balanced.ready ready)
    have begun := all a w' ran
    rw [bind_of_ok ran]
    refine ⟨levels ++ levels', balanced.trans balanced',
      apart.append apart' fun outer mem level next => ?_, ?_, fun b w'' ran' => ?_⟩
    · refine ends outer.depth (begun ▸ mem_map_of_mem mem) level.depth ?_
      obtain ⟨rest, rfl⟩ := within'
      obtain ⟨later, rfl⟩ := head?_eq_some_iff.mp next
      rfl
    · rw [map_append, begun]
      exact (prefix_append_right_inj _).mpr within'
    · rw [map_append, begun, all' b w'' ran']
  | error fault w' =>
    rw [ran] at balanced
    rw [bind_of_error ran]
    exact ⟨levels, balanced, apart, within.trans (prefix_append _ _),
      fun _ _ impossible => by cases impossible⟩

lemma bind_right {x : Unwind α} (first : Balances setting [] x)
    (later : ∀ a, Balances setting depths (f a)) : Balances setting depths (x >>= f) :=
  bind first later (by simp)

lemma bind_left {x : Unwind α} (first : Balances setting depths x)
    (later : ∀ a, Balances setting [] (f a)) : Balances setting depths (x >>= f) := by
  simpa using bind first later (by simp)

end Balances

variable {pattern : Pattern} {value : Value} {count : Nat} {w w1 w2 : Workbench} {reads : Reads}
  {levels : List PatternLevel}

/-- A level that takes no temporary. -/
lemma balanced_plain (ready : Ready setting w) (scopes : w1.scopes = w.scopes)
    (log : w1.log = w.log) (count : w1.temps = w.temps) (depth reads : Nat) (reference : Reference)
    (other : reference ≠ .temporary) :
    Balanced setting [⟨depth, reads, reference, none⟩] w
      (logged w1 (.unwinding depth reads reference)) := by
  constructor
  · exact scopes.symm ▸ ready.sound
  · exact scopes.symm ▸ .refl ready.known
  · simp [logged, log, events]
  · simp [logged, count, names]
  · simp [names]
  · simp [logged, scopes, names]
  · simp [names]
  · simpa using other

/-- A level that takes a temporary for the time being. -/
structure Taken (setting : Setting) (w : Workbench) (x : String) (w1 : Workbench) : Prop where
  sound : w1.scopes.Sound
  only : OnlyAt setting.scope w.scopes w1.scopes
  log : w1.log = w.log.push (.acquired setting.scope x)
  count : w1.temps = w.temps + 1
  fresh : x ∉ w.scopes.held setting.scope
  held : ∀ y, y ∈ w1.scopes.held setting.scope ↔ y = x ∨ y ∈ w.scopes.held setting.scope

lemma taken_acquire (ready : Ready setting w) :
    Taken setting w (w.scopes.acquire setting.scope).1 (afterAcquire setting w) := by
  obtain ⟨fresh, held⟩ := ready.sound.held_acquire setting.scope
  have only : OnlyAt setting.scope w.scopes (w.scopes.acquire setting.scope).2 :=
    onlyAt_setTemps ready.known _
  refine ⟨ready.sound.acquire _, only, ?_, rfl, fresh, held⟩
  have here : (w.scopes.acquire setting.scope).2.keeper setting.scope = setting.scope :=
    if_pos (only.size.symm ▸ ready.known)
  simp [afterAcquire, here]

namespace Taken

variable {x : String} (taken : Taken setting w x w1) {depth : Nat}
  (inside : Balanced setting levels (logged w1 (.unwinding depth count .temporary)) w2)

include taken inside

/-- No level inside is given the name. -/
lemma not_mem : x ∉ names levels := fun mem =>
  inside.fresh x mem ((taken.held x).mpr (.inl rfl))

lemma balanced_retained (retained : setting.retain = true) :
    Balanced setting (⟨depth, count, .temporary, some x⟩ :: levels) w w2 := by
  suffices begun : Balanced setting [⟨depth, count, .temporary, some x⟩] w
      (logged w1 (.unwinding depth count .temporary)) from begun.trans inside
  refine ⟨?_, ?_, ?_, ?_, ?_, fun y => ?_, ?_, ?_⟩
  · exact taken.sound
  · exact taken.only
  · simp [logged, taken.log, events]
  · simp [logged, taken.count, names]
  · simpa [names] using taken.fresh
  · simp [logged, taken.held, retained, names, or_comm]
  · simp [names]
  · simp

lemma balanced_released (ready : Ready setting w) (retained : setting.retain = false) :
    Balanced setting (⟨depth, count, .temporary, some x⟩ :: levels) w
      { w2 with scopes := (w2.scopes.release setting.scope x).2 } := by
  have ready2 : setting.scope < w2.scopes.entries.size := by
    rw [inside.only.size, logged_scopes, taken.only.size]
    exact ready.known
  refine ⟨inside.sound.release _ x, (taken.only.trans inside.only).trans (onlyAt_setTemps ready2 _),
    ?_, ?_, fun y mem => ?_, fun y => ?_, by simp [retained], by simpa using inside.told⟩
  · simp [inside.log, logged, taken.log, events]
  · simp [inside.count, logged, taken.count, names]
    omega
  · rcases mem_cons.mp mem with rfl | mem
    · exact taken.fresh
    · exact fun held => inside.fresh y mem ((taken.held y).mpr (.inr held))
  · rw [(inside.sound.held_release _ x).2, inside.held, logged_scopes, taken.held, retained]
    constructor
    · rintro ⟨other, (same | held) | ⟨impossible, _⟩⟩
      · exact absurd same other
      · exact .inl held
      · cases impossible
    · rintro (held | ⟨impossible, _⟩)
      · exact ⟨fun same => taken.fresh (same ▸ held), .inl (.inr held)⟩
      · cases impossible

end Taken

/-- A level takes at most one temporary, which none inside it is given, and gives it back. -/
lemma Resolved.balanced (resolved : Resolved setting pattern value count w reads w1)
    (ready : Ready setting w) (depth : Nat)
    (inside : Balanced setting levels (logged w1 (.unwinding depth count reads.reference)) w2) :
    ∃ temp, (∀ x ∈ temp, x ∉ names levels) ∧
      Balanced setting (⟨depth, count, reads.reference, temp⟩ :: levels) w
        (release setting reads w2) := by
  cases resolved with
  | direct =>
    exact ⟨none, by simp,
      (balanced_plain ready rfl rfl rfl depth count .direct (by decide)).trans inside⟩
  | inline =>
    exact ⟨none, by simp,
      (balanced_plain ready rfl rfl rfl depth count .inline (by decide)).trans inside⟩
  | ownName name =>
    have begun (v : Workbench) (scopes : v.scopes = w.scopes) (log : v.log = w.log)
      (temps : v.temps = w.temps) :=
      balanced_plain ready scopes log temps depth count .ownName (by decide)
    have whole := (begun { w with reserved := name :: w.reserved } rfl rfl rfl).trans inside
    exact ⟨none, by simp, whole.sound, whole.only, whole.log, whole.count, whole.fresh, whole.held,
      whole.nodup, whole.told⟩
  | temporary =>
    have taken := taken_acquire ready
    refine ⟨some (w.scopes.acquire setting.scope).1, by simpa using taken.not_mem inside, ?_⟩
    change Balanced setting (⟨depth, count, .temporary, _⟩ :: levels) w _
    cases retained : setting.retain with
    | true => simpa [release, retained] using taken.balanced_retained inside retained
    | false =>
      have known :
          (w2.scopes.release setting.scope (w.scopes.acquire setting.scope).1).1 = true := by
        rw [(inside.sound.held_release _ _).1, inside.held]
        exact .inl ((taken.held _).mpr (.inl rfl))
      simpa [release, retained, known] using taken.balanced_released inside ready retained

lemma level_balances (pattern : Pattern) (value : Value) (isTop : Bool) (depth : Nat)
    {depths : List Nat} {inside : Reads → Unwind (List FlatBinding × Reads)}
    (parts : ∀ reads, Balances setting depths (inside reads)) :
    Balances setting (if pattern.count = 0 then [] else depth :: depths)
      (level setting pattern value isTop depth inside) := by
  intro w ready
  by_cases deep : maxPatternDepth ≤ depth
  · refine ⟨[], ?_, trivial, nil_prefix, fun a w' ran => ?_⟩
    · unfold level
      rw [if_pos deep]
      exact .refl ready
    · exact absurd (level_eq_ok.mp ran).1 (Nat.not_lt.mpr deep)
  · by_cases empty : pattern.count = 0
    · rw [if_pos empty]
      refine ⟨[], ?_, trivial, nil_prefix, fun _ _ _ => rfl⟩
      unfold level
      rw [if_neg deep, if_pos empty]
      change Balanced setting [] w (emptyLevel setting value isTop w).state
      rw [emptyLevel_eq]
      split
      · exact ⟨ready.sound.claim _, onlyAt_setTemps ready.known _, by simp [Result.state],
          by simp [Result.state],
          by simp, by simpa [Result.state] using ready.sound.held_claim setting.scope,
          by simp, by simp⟩
      · exact .refl ready
    · rw [if_neg empty]
      obtain ⟨reads, w1, ran, resolved⟩ := resolve_resolved setting pattern value
        (consumers setting pattern isTop) w
      have begun :
          Ready setting (logged w1 (.unwinding depth (consumers setting pattern isTop)
            reads.reference)) := by
        cases resolved with
        | direct => exact ⟨ready.sound, ready.known⟩
        | inline => exact ⟨ready.sound, ready.known⟩
        | ownName => exact ⟨ready.sound, ready.known⟩
        | temporary =>
          have taken := taken_acquire ready
          exact ⟨taken.sound, taken.only.size.symm ▸ ready.known⟩
      obtain ⟨levels, balanced, apart, within, all⟩ := parts reads _ begun
      obtain ⟨temp, fresh, whole⟩ := resolved.balanced ready depth balanced
      rw [level_state deep empty ran]
      refine ⟨_, whole, apart.cons fresh, cons_prefix_cons.mpr ⟨rfl, within⟩,
        fun bindings w' good => ?_⟩
      obtain ⟨_, ⟨none, _⟩ | ⟨_, reads', w1', left, w2, ran', good', _⟩⟩ := level_eq_ok.mp good
      · exact absurd none empty
      · cases ran.symm.trans ran'
        exact congrArg (depth :: ·) (all _ _ good')

lemma parts_balances (pattern : Pattern) :
    ∀ depth trailing reads,
      Balances setting (pattern.depths depth) (parts setting pattern depth trailing reads) := by
  induction pattern with
  | done =>
    intro depth trailing reads
    rw [parts]
    split
    · exact .bind_right (.ofExcept _) fun _ => .pure _
    · exact .pure _
  | leaf accessor target later ih =>
    intro depth trailing reads
    rw [parts]
    exact .bind_right (.ofExcept _) fun _ => .bind_left (ih _ _ _) fun _ => .pure _
  | nested accessor inner later ihInner ih =>
    intro depth trailing reads
    rw [parts]
    refine .bind_right (.ofExcept _) fun _ => .bind (level_balances inner _ false _ (ihInner _ _))
      (fun _ => .bind_left (ih _ _ _) fun _ => .pure _) fun k mem k' next => ?_
    rw [Pattern.depths_head? next]
    split at mem
    · cases mem
    · rcases mem_cons.mp mem with rfl | mem
      · exact Nat.le_refl _
      · exact Nat.le_of_lt (Pattern.lt_of_mem_depths mem)

lemma site_balances (setting : Setting) (pattern : Pattern) (value : Value) :
    Balances setting (if pattern.count = 0 then [] else 0 :: pattern.depths 0)
      (site setting pattern value) :=
  level_balances pattern value true 0 (parts_balances pattern _ _)

end Unwind

/-- How deep the levels lie that a site has: the pattern itself at depth 0 and those in it, without
those that have no parts. -/
def Table.levelDepths (t : Table) (buffer : EditBuffer) (n : NodeId) : List Nat :=
  match Pattern.read t buffer n with
  | .ok pattern => if pattern.count = 0 then [] else 0 :: pattern.depths 0
  | .error _ => []

/-- What the last event of a site tells. -/
def LoweredSite.event (site : LoweredSite) : Event :=
  .lowered site.start site.context site.bindings.length site.temps

/-- What a site does to the temporaries. The `levels` are those that its log tells, up to where it
failed. -/
structure SiteBalance (t : Table) (buffer : EditBuffer) (n : NodeId) (retain : Bool)
    (scopes : Scopes) (log : Array Event) (outcome : Except Failure LoweredSite) (scopes' : Scopes)
    (log' : Array Event) (levels : List PatternLevel) : Prop where
  only : Scopes.OnlyAt (scopes.closest t n) scopes scopes'
  events : log'.toList = log.toList ++ (levels.flatMap (PatternLevel.events (scopes.closest t n)) ++
    (outcome.toOption.map LoweredSite.event).toList)
  told : ∀ level ∈ levels, level.temp.isSome ↔ level.reference = .temporary
  depths : levels.map PatternLevel.depth <+: t.levelDepths buffer n
  complete : ∀ site, outcome = .ok site → levels.map PatternLevel.depth = t.levelDepths buffer n
  apart : PatternLevel.Apart levels
  known : ∀ scope name, .notInUse scope name ∉ log'.toList.drop log.size
  returned : retain = false → ∀ id x, x ∈ scopes'.held id ↔ x ∈ scopes.held id
  count : ∀ site, outcome = .ok site → site.temps = (PatternLevel.names levels).length
  fresh : ∀ x ∈ PatternLevel.names levels, x ∉ scopes.held (scopes.closest t n)
  nodup : retain = true → (PatternLevel.names levels).Nodup
  retained : retain = true → ∀ x, x ∈ scopes'.held (scopes.closest t n) ↔
    x ∈ scopes.held (scopes.closest t n) ∨ x ∈ PatternLevel.names levels

lemma PatternLevel.notInUse_not_mem (levels : List PatternLevel)
    (outcome : Except Failure LoweredSite) (id scope : ScopeId) (name : String) :
    .notInUse scope name ∉ levels.flatMap (events id) ++
      (outcome.toOption.map LoweredSite.event).toList := by
  intro mem
  rcases mem_append.mp mem with mem | mem
  · obtain ⟨level, _, mem⟩ := mem_flatMap.mp mem
    simp [events] at mem
  · simp [LoweredSite.event] at mem

/-- A balanced run of the levels gives a balanced site. -/
lemma Unwind.Balanced.site {t : Table} {buffer : EditBuffer} {n : NodeId} {setting : Setting}
    {retain : Bool} {scopes : Scopes} {log : Array Event} {levels : List PatternLevel}
    {w : Workbench} {outcome : Except Failure LoweredSite} {log' : Array Event}
    (inScope : setting.scope = scopes.closest t n) (retains : setting.retain = retain)
    (known : scopes.closest t n < scopes.entries.size)
    (balanced : Balanced setting levels ⟨scopes, [], 0, log⟩ w) (apart : PatternLevel.Apart levels)
    (depths : levels.map PatternLevel.depth <+: t.levelDepths buffer n)
    (complete : ∀ site, outcome = .ok site → levels.map PatternLevel.depth = t.levelDepths buffer n)
    (count : ∀ site, outcome = .ok site → site.temps = w.temps)
    (logged : log'.toList = w.log.toList ++ (outcome.toOption.map LoweredSite.event).toList) :
    SiteBalance t buffer n retain scopes log outcome w.scopes log' levels := by
  obtain ⟨_, only, told, counted, fresh, held, nodup, references⟩ := balanced
  rw [inScope] at only told fresh held
  rw [retains] at held nodup
  have whole :
      log'.toList = log.toList ++ (levels.flatMap (PatternLevel.events (scopes.closest t n)) ++
        (outcome.toOption.map LoweredSite.event).toList) := by
    rw [logged, told, append_assoc]
  refine ⟨only, whole, references, depths, complete, apart, fun scope name => ?_,
    fun released id x => ?_, fun site isSite => ?_, fresh, nodup, fun kept x => ?_⟩
  · rw [whole, ← Array.length_toList, drop_left]
    exact PatternLevel.notInUse_not_mem levels outcome _ scope name
  · exact only.held known (by simpa [released] using held) id x
  · simpa using (count site isSite).trans counted
  · simpa [kept] using held x

lemma Table.exists_siteBalance {t : Table} {scopes : Scopes} (sound : scopes.Sound)
    (pos : 0 < scopes.entries.size) (buffer : EditBuffer) (n : NodeId) (retain : Bool)
    (log : Array Event) :
    ∃ levels, SiteBalance t buffer n retain scopes log (t.lowerSite buffer n retain scopes log).1
      (t.lowerSite buffer n retain scopes log).2.1 (t.lowerSite buffer n retain scopes log).2.2
        levels := by
  have known := Scopes.closest_lt_size pos t n
  unfold Table.lowerSite
  cases found : t.siteParts buffer scopes n retain with
  | error failure =>
    have begun :
        Unwind.Balanced ⟨.assignment, scopes.closest t n, retain, false⟩ [] ⟨scopes, [], 0, log⟩
          ⟨scopes, [], 0, log⟩ := .refl ⟨sound, known⟩
    exact ⟨[], begun.site rfl rfl known trivial nil_prefix (fun _ impossible => by cases impossible)
      (fun _ impossible => by cases impossible) (by simp [Except.toOption])⟩
  | ok parts =>
    obtain ⟨place, whole, setting, pattern, value⟩ := parts
    obtain ⟨_, _, read, _, same⟩ := Table.siteParts_eq_ok.mp found
    have inScope : setting.scope = scopes.closest t n := by rw [same]
    have retains : setting.retain = retain := by rw [same]
    have levelDepths :
        t.levelDepths buffer n = if pattern.count = 0 then [] else 0 :: pattern.depths 0 := by
      rw [Table.levelDepths, read]
    obtain ⟨levels, balanced, apart, depths, complete⟩ := Unwind.site_balances setting pattern value
      ⟨scopes, [], 0, log⟩ ⟨sound, inScope ▸ known⟩
    rw [← levelDepths] at depths complete
    dsimp only
    cases ran : Unwind.site setting pattern value ⟨scopes, [], 0, log⟩ with
    | ok bindings w =>
      rw [ran] at balanced
      refine ⟨levels, balanced.site inScope retains known apart depths (fun _ _ => complete _ _ ran)
        (fun site isSite => ?_) ?_⟩
      · cases isSite
        rfl
      · simp [Except.toOption, LoweredSite.event]
    | error fault w =>
      rw [ran] at balanced
      exact ⟨levels, balanced.site inScope retains known apart depths
        (fun _ impossible => by cases impossible)
        (fun _ impossible => by cases impossible) (by simp [Except.toOption])⟩

/-- Lowering a site balances its temporaries, whether it fails or not. -/
theorem lowerSite_balances_temporaries {t : Table} {root : NodeId} {scopes : Scopes}
    (reachable : Scopes.Reachable t root scopes) (buffer : EditBuffer) (n : NodeId) (retain : Bool)
    (log : Array Event) :
    ∃ levels, SiteBalance t buffer n retain scopes log (t.lowerSite buffer n retain scopes log).1
      (t.lowerSite buffer n retain scopes log).2.1
        (t.lowerSite buffer n retain scopes log).2.2 levels :=
  Table.exists_siteBalance reachable.sound.1 reachable.size_pos buffer n retain log

/-- An assignment with two patterns in its pattern. -/
def siblingPatterns : String := "[[a, b], [c, d]] = f();"

theorem siblingPatterns_balance :
    ∃ t root scopes, (Parsed.ofText siblingPatterns.toList).table = t ∧
      Scopes.Reachable t root scopes ∧
      ((t.lowerSite (.ofText siblingPatterns.toList) 6 true scopes #[]).1.toOption.map
        LoweredSite.temps) = some 3 ∧
      ∃ levels, SiteBalance t (.ofText siblingPatterns.toList) 6 true scopes #[]
        (t.lowerSite (.ofText siblingPatterns.toList) 6 true scopes #[]).1
        (t.lowerSite (.ofText siblingPatterns.toList) 6 true scopes #[]).2.1
        (t.lowerSite (.ofText siblingPatterns.toList) 6 true scopes #[]).2.2 levels :=
  ⟨_, (Parsed.ofText siblingPatterns.toList).root, _, rfl, .bound, by decide +kernel,
    lowerSite_balances_temporaries .bound _ 6 true #[]⟩

end PatternLowering

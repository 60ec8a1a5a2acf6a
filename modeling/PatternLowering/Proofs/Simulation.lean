import PatternLowering.Proofs.Meaning

/-!
# Flat bindings do what the pattern says

The bindings of a pattern ask the same questions as the pattern read directly, and leave the same
values in its variables. The induction is on the pattern. What carries it is that the name under
which a level finds its value is not assigned before the level's last read: by no part of the level,
because of the choice of the name, and by no deeper reference, because that is either a variable of
the deeper pattern or a temporary that was not in use.
-/

namespace PatternLowering

open Progress

variable {V : Type} {host : Host V} {value : V}

namespace Reads

/-- The next read, in progress `p`, gives `v` and progress `p1`. -/
def Gives (host : Host V) (value v : V) (p p1 : Progress V) : Reads → Prop
  | repeatable e => (∃ x, e = .named x ∧ p.store x = v) ∧ p1 = p
  | once (some e) => e.eval host value p = (v, p1)
  | once none => False
  | assigned (some e) x _ => e.eval host value p = (v, p1) ∧ p1.store x = v
  | assigned none x _ => p.store x = v ∧ p1 = p

/-- The variable that reads after the first one go to. -/
def holder? : Reads → Option String
  | repeatable (.named x) => some x
  | repeatable _ => none
  | once _ => none
  | assigned _ x _ => some x

lemma Gives.next {reads reads' : Reads} {v : V} {p p1 : Progress V} {e : Expr}
    (gives : reads.Gives host value v p p1) (next : reads.next = .ok (e, reads')) :
    e.eval host value p = (v, p1) ∧ reads'.holder? = reads.holder? ∧
      ∀ x, reads.holder? = some x → p1.store x = v ∧
        ∀ p', p'.store x = v → reads'.Gives host value v p' p' := by
  cases reads with
  | repeatable e =>
    obtain ⟨⟨x, rfl, found⟩, rfl⟩ := gives
    cases next
    refine ⟨by simp [Expr.eval, found], rfl, fun y holder => ?_⟩
    cases holder
    exact ⟨found, fun p' found => ⟨⟨x, rfl, found⟩, rfl⟩⟩
  | once slot =>
    cases slot with
    | none => exact gives.elim
    | some e =>
      cases next
      exact ⟨gives, rfl, fun y holder => by cases holder⟩
  | assigned slot x holder =>
    cases slot with
    | none =>
      obtain ⟨found, rfl⟩ := gives
      cases next
      refine ⟨by simp [Expr.eval, found], rfl, fun y holder => ?_⟩
      cases holder
      exact ⟨found, fun p' found => ⟨found, rfl⟩⟩
    | some e =>
      cases next
      refine ⟨gives.1, rfl, fun y holder => ?_⟩
      cases holder
      exact ⟨gives.2, fun p' found => ⟨found, rfl⟩⟩

end Reads

namespace Unwind

/-- From `p` on, the run came to `p'` and the direct reading to `q'`: they agree outside `X` and on
all of `names`, no other protected name was assigned, and nothing in use was given back. -/
structure Carried (id : ScopeId) (s s' : Scopes) (names : List String) (X : String → Prop)
    (p p' q' : Progress V) : Prop where
  agree : Agree (fun x => X x ∧ x ∉ names) p' q'
  frame : ∀ x, s.Protected id x → x ∉ names → p'.store x = p.store x
  quiet : Quiet p p'
  continues : Scopes.Continues id s s'

variable {X : String → Prop} {setting : Setting} {bindings : List FlatBinding}
  {r : Option V × Progress V} {p1 q : Progress V} {pattern : Pattern} {name : String} {item : Value}
  {v : V}

lemma Carried.trans {id : ScopeId} {s s' s'' : Scopes} {names names' : List String}
    {p p' p'' q' q'' : Progress V} (first : Carried id s s' names X p p' q')
    (second : Carried id s' s'' names' (fun x => X x ∧ x ∉ names) p' p'' q'') :
    Carried id s s'' (names ++ names') X p p'' q'' := by
  refine ⟨second.agree.mono ?_, ?_, first.quiet.trans second.quiet,
    first.continues.trans second.continues⟩
  · rintro x ⟨⟨inside, absent⟩, absent'⟩
    exact ⟨inside, by simp [absent, absent']⟩
  · intro x safe absent
    rw [List.mem_append, not_or] at absent
    exact (second.frame x (first.continues.protected safe) absent.2).trans
      (first.frame x safe absent.1)

/-- What the reads of a pattern have to be like. -/
structure Supplied (host : Host V) (value : V) (id : ScopeId) (s : Scopes) (pattern : Pattern)
    (trailing : Bool) (reads : Reads) (v : V) (p p1 : Progress V) : Prop where
  gives : 0 < pattern.reads trailing → reads.Gives host value v p p1
  idle : pattern.reads trailing = 0 → p1 = p
  keeps : ∀ x, reads.holder? = some x → pattern.Keeps x trailing ∧ s.Protected id x
  single : reads.holder? = none → pattern.reads trailing ≤ 1

/-- The statement of the induction, for one pattern. -/
def Carries (host : Host V) (value : V) (setting : Setting) (pattern : Pattern) : Prop :=
  ∀ (depth : Nat) (trailing : Bool) (reads left : Reads) (w w' : Workbench)
    (bindings : List FlatBinding) (v : V) (r : Option V × Progress V) (p1 q : Progress V)
    (X : String → Prop),
    parts setting pattern depth trailing reads w = .ok (bindings, left) w' →
    w.scopes.Sound → (∀ x ∈ pattern.names, x ∈ w.scopes.identifiers) →
    Supplied host value setting.scope w.scopes pattern trailing reads v r.2 p1 →
    (∀ x, ¬ w.scopes.Protected setting.scope x → X x) → Agree X p1 q →
    Carried setting.scope w.scopes w'.scopes pattern.names X p1
      (execAll host value bindings r).2 (pattern.bind host v q) ∧
    (trailing = true → (execAll host value bindings r).1 = some v)

lemma carries_done (setting : Setting) : Carries host value setting .done := by
  intro depth trailing reads left w w' bindings v r p1 q X ran sound _ supplied _ agree
  obtain ⟨rfl, done⟩ := parts_done_eq_ok.mp ran
  have same : ∀ p : Progress V, p = p1 →
      Carried setting.scope w.scopes w.scopes [] X p1 p q := by
    rintro p rfl
    exact ⟨agree.mono fun x inside => ⟨inside, by simp⟩, fun _ _ _ => rfl, Quiet.refl _,
      Scopes.Continues.refl sound⟩
  cases trailing with
  | false =>
    obtain ⟨rfl, _⟩ := done
    exact ⟨same _ (supplied.idle (by simp [Pattern.reads, Pattern.count])).symm, by simp⟩
  | true =>
    obtain ⟨e, next, rfl⟩ := done
    have evaluates := ((supplied.gives (by simp [Pattern.reads])).next next).1
    simp only [execAll, FlatBinding.exec, evaluates]
    exact ⟨same _ rfl, fun _ => trivial⟩

/-- The parts behind a first one that has assigned `names`: its reference still holds the value. -/
lemma Carries.later {later : Pattern} {depth : Nat} {trailing : Bool} {reads reads' left : Reads}
    {e : Expr} {s : Scopes} {w1 w' : Workbench} {names : List String} {r2 : Option V × Progress V}
    (carries : Carries host value setting later)
    (supplied : Supplied host value setting.scope s pattern trailing reads v r.2 p1)
    (next : reads.next = .ok (e, reads'))
    (count : pattern.reads trailing = later.reads trailing + 1)
    (keeps : ∀ x, pattern.Keeps x trailing →
      (0 < later.reads trailing → x ∉ names) ∧ later.Keeps x trailing)
    (named : ∀ x ∈ names ++ later.names, x ∈ s.identifiers)
    (spare : ∀ x, ¬ s.Protected setting.scope x → X x)
    (carried : Carried setting.scope s w1.scopes names X p1 r2.2 q)
    (ran : parts setting later depth trailing reads' w1 = .ok (bindings, left) w') :
    Carried setting.scope s w'.scopes (names ++ later.names) X p1
        (execAll host value bindings r2).2 (later.bind host v q) ∧
      (trailing = true → (execAll host value bindings r2).1 = some v) := by
  obtain ⟨_, holder, again⟩ := (supplied.gives (by omega)).next next
  have after : Supplied host value setting.scope w1.scopes later trailing reads' v r2.2 r2.2 := by
    refine ⟨fun more => ?_, fun _ => rfl, fun x held => ?_, fun unheld => ?_⟩
    · cases held : reads.holder? with
      | none =>
        have := supplied.single held
        omega
      | some x =>
        obtain ⟨kept, safe⟩ := supplied.keeps x held
        exact (again x held).2 r2.2
          ((carried.frame x safe ((keeps x kept).1 more)).trans (again x held).1)
    · obtain ⟨kept, safe⟩ := supplied.keeps x (holder ▸ held)
      exact ⟨(keeps x kept).2, carried.continues.protected safe⟩
    · have := supplied.single (holder ▸ unheld)
      omega
  have apart : ∀ x, ¬ w1.scopes.Protected setting.scope x → X x ∧ x ∉ names := by
    intro x free
    have free : ¬ s.Protected setting.scope x := fun safe => free (carried.continues.protected safe)
    exact ⟨spare x free, fun mem => free (.inl (named x (List.mem_append_left _ mem)))⟩
  obtain ⟨second, result⟩ := carries depth trailing reads' left w1 w' bindings v r2 r2.2 _ _ ran
    carried.continues.sound
    (fun x mem => carried.continues.identifiers ▸ named x (List.mem_append_right _ mem)) after apart
    carried.agree
  exact ⟨carried.trans second, result⟩

lemma carries_leaf (setting : Setting) (accessor : Accessor) (target : Target) {later : Pattern}
    (ih : Carries host value setting later) :
    Carries host value setting (.leaf accessor target later) := by
  intro depth trailing reads left w w' bindings v r p1 q X ran sound named supplied spare agree
  obtain ⟨e, reads', rest, next, more, rfl⟩ := parts_leaf_eq_ok.mp ran
  have evaluates :=
    ((supplied.gives (by simp only [Pattern.reads, Pattern.count]; omega)).next next).1
  obtain ⟨part, agree⟩ := agree.ask host (accessor.access host v)
  -- Both sides read the part, assign it, and go on from there.
  have agree := agree.assignTo target (p1.ask host (accessor.access host v)).1
  generalize mid : (p1.ask host (accessor.access host v)).2.assignTo target
    (p1.ask host (accessor.access host v)).1 = p2 at agree
  have step : execAll host value (⟨some target, .access e accessor, false⟩ :: rest) r =
      execAll host value rest (some (p1.ask host (accessor.access host v)).1, p2) := by
    simp only [execAll, FlatBinding.exec, Expr.eval, evaluates, ← mid]
  have first : Carried setting.scope w.scopes w.scopes target.name?.toList X p1 p2
      ((q.ask host (accessor.access host v)).2.assignTo target
        (p1.ask host (accessor.access host v)).1) := by
    refine ⟨agree, fun x _ absent => ?_, ?_, Scopes.Continues.refl sound⟩
    · rw [← mid]
      exact assignTo_store_of_ne (by simpa using absent) _
    · rw [← mid]
      exact (quiet_ask p1 _).trans (quiet_assignTo _ target _)
  rw [step, Pattern.bind, ← part]
  exact ih.later supplied next (Pattern.reads_leaf ..) (by simp [Pattern.Keeps]) named
    spare first more

/-- The assignment of a level's value to its reference can be counted to the level: the reference is
one of its variables or a name that nobody else cares for. -/
lemma Carried.ofAssigned {id : ScopeId} {s s1 s2 s' : Scopes} {names : List String}
    {p p' q' : Progress V}
    (carried : Carried id s1 s2 names (fun x => X x ∨ x = name) (p.assign name v) p' q')
    (safe : ∀ x, s.Protected id x → s1.Protected id x)
    (own : name ∈ names ∨ (X name ∧ ¬ s.Protected id name)) (continues : Scopes.Continues id s s') :
    Carried id s s' names X p p' q' := by
  refine ⟨carried.agree.mono ?_, fun x known absent => ?_, (quiet_assign p name v).trans
    carried.quiet, continues⟩
  · rintro x ⟨inside | rfl, absent⟩
    · exact ⟨inside, absent⟩
    · rcases own with mem | ⟨inside, _⟩
      · exact absurd mem absent
      · exact ⟨inside, absent⟩
  · have other : x ≠ name := by
      rintro rfl
      rcases own with mem | ⟨_, free⟩
      · exact absent mem
      · exact free known
    exact (carried.frame x (safe x known) absent).trans (assign_store_of_ne other v)

lemma ownName?_eq_some {reserved : List String}
    (chosen : ownName? setting pattern reserved = some name) :
    setting.context = .declaration .var ∧ setting.computedKeys = false ∧
      pattern.lastName? = some name ∧ pattern.names.count name = 1 ∧ name ∉ reserved := by
  unfold ownName? at chosen
  split at chosen
  · rename_i allowed
    split at chosen
    · rename_i last found
      split at chosen
      · rename_i unique
        cases chosen
        exact ⟨allowed.1, by simpa using allowed.2, found, unique.1, unique.2⟩
      · cases chosen
    · cases chosen
  · cases chosen

section Evaluated

variable (evaluates : item.forItem.eval host value r.2 = (v, p1)) (agree : Agree X p1 q)

include evaluates agree

lemma carried_emptyLevel {isTop : Bool} {w w' : Workbench}
    (ran : emptyLevel setting item isTop w = .ok bindings w') (sound : w.scopes.Sound)
    (spare : ∀ x, ¬ w.scopes.Protected setting.scope x → X x) :
    Carried setting.scope w.scopes w'.scopes [] X p1 (execAll host value bindings r).2 q ∧
      (execAll host value bindings r).1 = some v := by
  rw [emptyLevel_eq] at ran
  split at ran
  · cases ran
    obtain ⟨continues, free⟩ := sound.claim_continues setting.scope
    simp only [execAll, FlatBinding.exec, evaluates]
    have all : Carried setting.scope w.scopes w.scopes []
        (fun x => X x ∨ x = (w.scopes.claim setting.scope).1)
        (p1.assign (w.scopes.claim setting.scope).1 v)
        (p1.assign (w.scopes.claim setting.scope).1 v) q :=
      ⟨(agree.assign_left _ v).mono fun x inside => ⟨inside, by simp⟩, fun _ _ _ => rfl,
        Quiet.refl _, Scopes.Continues.refl sound⟩
    exact ⟨all.ofAssigned (fun _ h => h) (.inr ⟨spare _ free, free⟩) continues, trivial⟩
  · cases ran
    simp only [execAll, FlatBinding.exec, evaluates]
    exact ⟨⟨agree.mono fun x inside => ⟨inside, by simp⟩, fun _ _ _ => rfl, Quiet.refl _,
      Scopes.Continues.refl sound⟩, trivial⟩

/-- A level that assigns its value to a name first, whichever name it is. -/
lemma carried_assigned {trailing : Bool} {depth : Nat} {w1 w2 : Workbench} {s s' : Scopes}
    {left : Reads} {holder : Holder} (carries : Carries host value setting pattern)
    (pos : 0 < pattern.reads trailing)
    (ran : parts setting pattern depth trailing
      (.assigned (some (.assign name item.forItem)) name holder) w1 =
      .ok (bindings, left) w2) (named : ∀ x ∈ pattern.names, x ∈ s.identifiers)
    (spare : ∀ x, ¬ s.Protected setting.scope x → X x)
    (chosen : Scopes.Continues setting.scope s w1.scopes) (keeps : pattern.Keeps name trailing)
    (known : w1.scopes.Protected setting.scope name)
    (own : name ∈ pattern.names ∨ (X name ∧ ¬ s.Protected setting.scope name))
    (released : Scopes.Continues setting.scope w1.scopes w2.scopes →
      Scopes.Continues setting.scope s s') :
    Carried setting.scope s s' pattern.names X p1 (execAll host value bindings r).2
        (pattern.bind host v q) ∧
      (trailing = true → (execAll host value bindings r).1 = some v) := by
  have first : (Expr.assign name item.forItem).eval host value r.2 = (v, p1.assign name v) := by
    simp only [Expr.eval, evaluates]
  have supplied : Supplied host value setting.scope w1.scopes pattern trailing
      (.assigned (some (.assign name item.forItem)) name holder) v r.2 (p1.assign name v) := by
    refine ⟨fun _ => ⟨first, by simp [assign]⟩, fun none => by omega, fun x held => ?_,
      fun unheld => by cases unheld⟩
    cases held
    exact ⟨keeps, known⟩
  obtain ⟨carried, result⟩ := carries depth trailing _ left w1 w2 bindings v r
    (p1.assign name v) q (fun x => X x ∨ x = name) ran chosen.sound
    (fun x mem => chosen.identifiers ▸ named x mem) supplied
    (fun x free => .inl (spare x fun safe => free (chosen.protected safe)))
    (agree.assign_left name v)
  exact ⟨carried.ofAssigned (fun _ safe => chosen.protected safe) own
    (released carried.continues), result⟩

/-- From the parts of a pattern to the level that they make up. -/
lemma carried_level {isTop trailing : Bool} {depth : Nat} {w w' : Workbench}
    (carries : Carries host value setting pattern)
    (flag : trailing = (isTop && setting.context = .assignment))
    (ran : level setting pattern item isTop depth (parts setting pattern depth trailing) w =
      .ok bindings w') (sound : w.scopes.Sound)
    (named : ∀ x ∈ pattern.names, x ∈ w.scopes.identifiers)
    (spelled : ∀ x, item = .named x → x ∈ w.scopes.identifiers)
    (spare : ∀ x, ¬ w.scopes.Protected setting.scope x → X x) :
    Carried setting.scope w.scopes w'.scopes pattern.names X p1
        (execAll host value bindings r).2 (pattern.bind host v q) ∧
      (trailing = true → (execAll host value bindings r).1 = some v) := by
  rcases (level_eq_ok.mp ran).2 with
    ⟨empty, forced⟩ | ⟨nonempty, reads, w1, left, w2, resolve, inside, _, rfl⟩
  · have bare : pattern = .done := by
      cases pattern <;> simp [Pattern.count] at empty ⊢
    subst bare
    obtain ⟨carried, result⟩ := carried_emptyLevel evaluates agree forced sound spare
    exact ⟨carried, fun _ => result⟩
  have resolved := resolved_of_resolve resolve
  rw [show consumers setting pattern isTop = pattern.reads trailing by rw [flag]; rfl] at resolved
  have pos : 0 < pattern.reads trailing := by
    simp only [Pattern.reads]
    omega
  have release (continues : Scopes.Continues setting.scope w1.scopes w2.scopes) :=
    resolved.release_continues sound continues
  cases resolved with
  | direct name isName stays =>
    have found : r.2.store name = v ∧ p1 = r.2 := by
      rw [isName] at evaluates
      simpa [Value.forItem, Expr.eval, eq_comm] using evaluates
    have keeps : pattern.Keeps name trailing := by
      by_cases several : 1 < pattern.reads trailing
      · exact Pattern.keeps_of_not_mem (stays several) trailing
      · exact Pattern.keeps_of_reads_le_one (by omega)
    refine carries depth trailing _ left (logged w _) w2 bindings v r p1 q X inside sound named ?_
      spare agree
    refine ⟨fun _ => ⟨⟨name, rfl, found.1⟩, found.2⟩, fun none => by omega, fun x held => ?_,
      fun unheld => by cases unheld⟩
    cases held
    exact ⟨keeps, .inl (spelled name isName)⟩
  | inline once expression =>
    refine carries depth trailing _ left (logged w _) w2 bindings v r p1 q X inside sound named ?_
      spare agree
    exact ⟨fun _ => (item.eval_forAccess r.2).trans evaluates, fun none => by omega,
      fun x held => (by cases held), fun _ => once⟩
  | ownName name several chosen =>
    obtain ⟨context, _, last, unique, _⟩ := ownName?_eq_some chosen
    have plain : trailing = false := by simp [flag, context]
    have mem := Pattern.mem_names_of_lastName? last
    exact carried_assigned evaluates agree carries pos inside named spare
      (Scopes.Continues.refl sound) (plain ▸ Pattern.keeps_lastName? last unique)
      (.inl (named name mem)) (.inl mem) release
  | temporary several unnamed =>
    obtain ⟨continues, free, used⟩ := sound.acquire_continues setting.scope
    have absent : (w.scopes.acquire setting.scope).1 ∉ pattern.names :=
      fun mem => free (.inl (named _ mem))
    exact carried_assigned evaluates agree carries pos inside named spare continues
      (Pattern.keeps_of_not_mem absent trailing) (.inr used) (.inr ⟨spare _ free, free⟩) release

end Evaluated

lemma carries_nested (setting : Setting) (accessor : Accessor) {inner later : Pattern}
    (inside : Carries host value setting inner) (ih : Carries host value setting later) :
    Carries host value setting (.nested accessor inner later) := by
  intro depth trailing reads left w w' bindings v r p1 q X ran sound named supplied spare agree
  obtain ⟨e, reads', first, w1, rest, next, unwound, more, rfl⟩ := parts_nested_eq_ok.mp ran
  have evaluates :=
    ((supplied.gives (by simp only [Pattern.reads, Pattern.count]; omega)).next next).1
  obtain ⟨part, agree⟩ := agree.ask host (accessor.access host v)
  have isPart : (Expr.access e accessor).eval host value r.2 =
      ((p1.ask host (accessor.access host v)).1, (p1.ask host (accessor.access host v)).2) := by
    simp only [Expr.eval, evaluates]
  obtain ⟨carried, _⟩ := carried_level isPart agree inside (by simp) unwound sound
    (fun x mem => named x (List.mem_append_left _ mem)) (fun x other => by cases other) spare
  rw [execAll_append, Pattern.bind, ← part]
  -- The question for the part changes no variable.
  exact ih.later supplied next (Pattern.reads_nested ..) (fun _ keeps => keeps) named spare
    ⟨carried.agree, carried.frame, (quiet_ask p1 _).trans carried.quiet, carried.continues⟩ more

lemma carries (host : Host V) (value : V) (setting : Setting) (pattern : Pattern) :
    Carries host value setting pattern := by
  induction pattern with
  | done => exact carries_done setting
  | leaf accessor target later ih => exact carries_leaf setting accessor target ih
  | nested accessor inner later inside ih => exact carries_nested setting accessor inside ih

end Unwind

end PatternLowering

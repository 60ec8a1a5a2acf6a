import PatternLowering.Proofs.Bindings
import PatternLowering.Proofs.Destructuring

/-!
# Variables that are read again

A site whose value is a variable reads that variable as often as its pattern has parts, and once
more for its result. Until the last of these reads the variable must keep its value. The variables
that a pattern assigns by their names are seen to; a variable in parentheses is not recognised as
one, and nobody looks for assignments in keys and in the objects of targets.
-/

namespace PatternLowering

open List

/-- What a node assigns to. A declaration makes variables of its own. -/
def Form.targets : Form → List NodeId
  | assignment target _ _ => [target]
  | update operand _ => [operand]
  | unary (.update _) operand => [operand]
  | forEach _ head _ _ => [head]
  | _ => []

namespace Table

def standsForWithin (t : Table) : Nat → NodeId → Option String
  | 0, _ => none
  | bound + 1, n =>
    match t.form? n with
    | some (.identifier name) => some name
    | some (.parenthesized expression) => t.standsForWithin bound expression
    | _ => none

/-- The variable that a target stands for, in parentheses or not. -/
def standsFor? (t : Table) (n : NodeId) : Option String := t.standsForWithin (t.size + 1) n

/-- Some node under `n` assigns a variable of this name, alone or as a part of a pattern. -/
def writes (t : Table) (x : String) (n : NodeId) : Bool :=
  (List.range t.size).any fun m => (t.ancestors m).contains n &&
    (((t.form? m).map Form.targets).getD []).any fun target =>
      (t.patternParts target).any fun part => t.standsFor? part = some x

end Table

/-- The variable is copied into another name, or is itself the name that holds another value. -/
def Expr.moves (x : String) : Expr → Bool
  | source _ => false
  | named _ => false
  | parens inside => inside.moves x
  | assign name value => name = x || value = named x || value.moves x
  | access object _ => object.moves x

/-- The binding assigns the variable: by its name, as a target of the pattern `n` that only stands
for it, or inside an expression of that pattern. -/
inductive FlatBinding.Assigns (t : Table) (buffer : EditBuffer) (n : NodeId) (x : String)
    (b : FlatBinding) : Prop where
  | byName (assigned : x ∈ b.assigned)
  | asTarget {m : NodeId} (isPart : m ∈ t.patternParts n) (standsFor : t.standsFor? m = some x)
    (nameless : t.name? m = none) (isTarget : b.target = some (.reference (t.textOf buffer m)))
  | within {m : NodeId} (isExpression : m ∈ t.patternExpressions n) (writes : t.writes x m)
    (taken : t.textOf buffer m ∈ b.written)

lemma Expr.not_mem_sets {x : String} {e : Expr} (stays : e.moves x = false) : x ∉ e.sets := by
  induction e with
  | source text => exact not_mem_nil
  | named name => exact not_mem_nil
  | parens inside ih => exact ih stays
  | assign name value ih =>
    simp only [moves, Bool.or_eq_false_iff, decide_eq_false_iff_not] at stays
    simp only [sets, mem_append, mem_singleton, not_or]
    exact ⟨ih stays.2, fun same => stays.1.1 same.symm⟩
  | access object accessor ih => exact ih stays

/-- No read to come starts at the variable. -/
def Reads.Avoids (x : String) : Reads → Prop
  | repeatable value => value.base ≠ .named x
  | once value => ∀ e ∈ value, e.base ≠ .named x
  | assigned first name _ => (∀ e ∈ first, e.base ≠ .named x) ∧ name ≠ x

lemma Reads.Avoids.next {x : String} {reads reads' : Reads} {e : Expr} (avoids : reads.Avoids x)
    (next : reads.next = .ok (e, reads')) : e.base ≠ .named x ∧ reads'.Avoids x := by
  cases reads with
  | repeatable value =>
    cases next
    exact ⟨avoids, avoids⟩
  | once value =>
    cases value with
    | none => cases next
    | some value =>
      cases next
      exact ⟨avoids _ rfl, by simp [Avoids]⟩
  | assigned first name holder =>
    obtain ⟨now, other⟩ := avoids
    cases first with
    | none =>
      cases next
      exact ⟨fun same => other (Expr.named.inj same), now, other⟩
    | some first =>
      cases next
      exact ⟨now _ rfl, by simp, other⟩

namespace Unwind

variable {setting : Setting} {pattern : Pattern} {value : Value} {x : String} {count depth : Nat}
  {isTop trailing : Bool} {reads reads' left : Reads} {e : Expr} {w w' : Workbench}
  {bindings : List FlatBinding}

lemma upward_moves (x : String) : Upward fun e => e.moves x := by
  constructor
  · intro e name moves
    simp [Expr.moves, moves]
  · intro e accessor moves
    exact moves

lemma upward_base (x : String) : Upward fun e => e.base ≠ .named x := ⟨fun _ => id, fun _ => id⟩

lemma upward_sets (name : String) : Upward fun e => name ∈ e.sets := by
  constructor
  · intro e other mem
    exact mem_append_left _ mem
  · intro e accessor mem
    exact mem

lemma reads_pos (several : pattern.count ≠ 0) : 0 < pattern.reads trailing :=
  Nat.add_pos_left (Nat.pos_of_ne_zero several) _

/-- No value of the bindings goes through the variable on its way. -/
def Spares (x : String) (bindings : List FlatBinding) : Prop := ∀ b ∈ bindings, x ∉ b.value.sets

/-- A name that holds a value is assigned by the first binding, so it is not the variable. -/
lemma Spares.holder_ne {name : String} {holder : Holder} (spares : Spares x bindings)
    (nonzero : 0 < pattern.reads trailing)
    (ran : parts setting pattern depth trailing (.assigned (some (.assign name e)) name holder) w =
      .ok (bindings, left) w') : name ≠ x := by
  rintro rfl
  obtain ⟨b, later, rfl, mem, _⟩ := parts_opens (upward_sets name) setting pattern nonzero rfl
    (by simp [Expr.sets]) ran
  exact spares b mem_cons_self mem

/-- A part of another value is got at once, and by the name that holds it from then on. -/
lemma Resolved.later_avoids (resolved : Resolved setting pattern (.part e) count w reads w')
    (holder : ∀ first name holder, reads = .assigned (some (.assign name first)) name holder →
      name ≠ x) {first : Expr} (next : reads.next = .ok (first, reads')) : reads'.Avoids x := by
  cases resolved with
  | direct name isName => cases isName
  | inline =>
    cases next
    rintro e ⟨⟩
  | ownName =>
    cases next
    exact ⟨by simp, holder _ _ _ rfl⟩
  | temporary =>
    cases next
    exact ⟨by simp, holder _ _ _ rfl⟩

/-- No binding reads the variable. -/
def Passes (x : String) (bindings : List FlatBinding) : Prop :=
  ∀ b ∈ bindings, b.value.base ≠ .named x

/-- Where there is a binding there is a read. -/
lemma next_of_parts {b : FlatBinding}
    (whole : parts setting pattern depth trailing reads w = .ok (b :: bindings, left) w') :
    0 < pattern.reads trailing ∧ ∃ e reads', reads.next = .ok (e, reads') := by
  cases pattern with
  | done =>
    obtain ⟨_, ran⟩ := parts_done_eq_ok.mp whole
    cases trailing with
    | false => cases ran.1
    | true =>
      obtain ⟨value, next, _⟩ := ran
      exact ⟨Nat.one_pos, value, left, next⟩
  | leaf accessor target later =>
    obtain ⟨value, reads', _, next, _⟩ := parts_leaf_eq_ok.mp whole
    exact ⟨reads_pos (Nat.succ_ne_zero _), value, reads', next⟩
  | nested accessor inner later =>
    obtain ⟨value, reads', _, _, _, next, _⟩ := parts_nested_eq_ok.mp whole
    exact ⟨reads_pos (Nat.succ_ne_zero _), value, reads', next⟩

/-- If the reads avoid the variable, so does the first binding. -/
lemma Passes.of_tail (avoids : reads.Avoids x)
    (whole : parts setting pattern depth trailing reads w = .ok (bindings, left) w')
    (tail : Passes x bindings.tail) : Passes x bindings := by
  cases bindings with
  | nil => exact forall_mem_nil _
  | cons b others =>
    obtain ⟨nonzero, e, reads', next⟩ := next_of_parts whole
    obtain ⟨_, _, same, other, _⟩ := parts_opens (upward_base x) setting pattern nonzero next
      (avoids.next next).1 whole
    cases same
    exact forall_mem_cons.mpr ⟨other, tail⟩

lemma parts_done_tail
    (whole : parts setting .done depth trailing reads w = .ok (bindings, left) w') :
    bindings.tail = [] := by
  obtain ⟨_, ran⟩ := parts_done_eq_ok.mp whole
  cases trailing with
  | false => rw [ran.1, tail_nil]
  | true =>
    obtain ⟨value, _, rfl⟩ := ran
    rfl

lemma level_passes_tail (spares : Spares x bindings)
    (inside : ∀ {reads left : Reads} {w w' : Workbench},
      (∀ {e reads'}, reads.next = .ok (e, reads') → reads'.Avoids x) →
      parts setting pattern depth (isTop && setting.context = .assignment) reads w =
        .ok (bindings, left) w' → Passes x bindings.tail)
    (whole : level setting pattern (.part e) isTop depth
      (parts setting pattern depth (isTop && setting.context = .assignment)) w = .ok bindings w') :
    Passes x bindings.tail := by
  obtain ⟨_, ⟨_, ran⟩ | ⟨several, reads, w1, left, w2, resolve, ran, _, _⟩⟩ := level_eq_ok.mp whole
  · rw [emptyLevel_eq] at ran
    split at ran <;> cases ran <;> exact forall_mem_nil _
  · refine inside ((resolved_of_resolve resolve).later_avoids ?_) ran
    rintro first name holder rfl
    exact spares.holder_ne (reads_pos several) ran

/-- If only the first read may start at the variable, only the first binding reads it. -/
lemma parts_passes_tail (setting : Setting) (pattern : Pattern)
    (spares : Spares x bindings)
    (avoids : ∀ {e reads'}, reads.next = .ok (e, reads') → reads'.Avoids x)
    (whole : parts setting pattern depth trailing reads w = .ok (bindings, left) w') :
    Passes x bindings.tail := by
  induction pattern generalizing depth trailing reads left w w' bindings with
  | done =>
    rw [parts_done_tail whole]
    exact forall_mem_nil _
  | leaf accessor target later ih =>
    obtain ⟨value, reads', rest, next, ran, rfl⟩ := parts_leaf_eq_ok.mp whole
    have after := avoids next
    exact .of_tail after ran
      (ih (forall_mem_cons.mp spares).2 (fun next => (after.next next).2) ran)
  | nested accessor inner later ihInner ih =>
    obtain ⟨value, reads', first, v, rest, next, unwound, ran, rfl⟩ := parts_nested_eq_ok.mp whole
    obtain ⟨sparesFirst, sparesRest⟩ := forall_mem_append.mp spares
    have passesFirst : Passes x first.tail :=
      level_passes_tail sparesFirst (fun avoids ran => ihInner sparesFirst avoids ran) unwound
    have after := avoids next
    have passesRest : Passes x rest :=
      .of_tail after ran (ih sparesRest (fun next => (after.next next).2) ran)
    intro b isBinding
    cases first with
    | nil => exact passesRest b (mem_of_mem_tail isBinding)
    | cons c others =>
      exact forall_mem_append.mpr ⟨passesFirst, passesRest⟩ b isBinding

/-- If the variable is read just once, only the first binding reads it. -/
lemma parts_passes_tail_of_single (single : pattern.reads trailing ≤ 1) (spares : Spares x bindings)
    (whole : parts setting pattern depth trailing (.repeatable (.named x)) w =
      .ok (bindings, left) w') : Passes x bindings.tail := by
  have nothing {later : Pattern} {reads : Reads} {rest : List FlatBinding} {v : Workbench}
      (none : later.reads trailing = 0)
      (ran : parts setting later depth trailing reads v = .ok (rest, left) w') : rest = [] := by
    cases later with
    | done =>
      obtain ⟨_, ended⟩ := parts_done_eq_ok.mp ran
      cases trailing <;> [exact ended.1; cases none]
    | leaf accessor target later => cases (Pattern.reads_leaf ..).symm.trans none
    | nested accessor inner later => cases (Pattern.reads_nested ..).symm.trans none
  cases pattern with
  | done =>
    rw [parts_done_tail whole]
    exact forall_mem_nil _
  | leaf accessor target later =>
    obtain ⟨value, reads', rest, _, ran, rfl⟩ := parts_leaf_eq_ok.mp whole
    rw [Pattern.reads_leaf] at single
    obtain rfl := nothing (Nat.le_zero.mp (Nat.le_of_succ_le_succ single)) ran
    exact forall_mem_nil _
  | nested accessor inner later =>
    obtain ⟨value, reads', first, v, rest, next, unwound, ran, rfl⟩ := parts_nested_eq_ok.mp whole
    rw [Pattern.reads_nested] at single
    obtain rfl := nothing (Nat.le_zero.mp (Nat.le_of_succ_le_succ single)) ran
    rw [append_nil] at spares ⊢
    exact level_passes_tail spares
      (fun avoids ran => parts_passes_tail setting inner spares avoids ran) unwound

/-- If the variable `x` is unwound without being copied, no binding assigns it by name, or only the
first one reads it. -/
lemma site_spares_variable {names : List String} (fresh : Fresh names w.scopes)
    (spelled : x ∈ names) (unwound : site setting pattern (.named x) w = .ok bindings w')
    (direct : ∀ b ∈ bindings, b.value.moves x = false) :
    (∀ b ∈ bindings, x ∉ b.assigned) ∨ Passes x bindings.tail := by
  have spares : Spares x bindings := fun b isBinding => Expr.not_mem_sets (direct b isBinding)
  obtain ⟨_, ⟨_, ran⟩ | ⟨several, reads, w1, left, w2, resolve, ran, _, _⟩⟩ :=
    level_eq_ok.mp unwound
  · rw [emptyLevel_eq] at ran
    right
    split at ran <;> cases ran <;> exact forall_mem_nil _
  · -- A copy would show in the first binding.
    have copied {name : String} {holder : Holder}
        (isReads : reads = .assigned (some (.assign name (.named x))) name holder) : False := by
      subst isReads
      obtain ⟨b, later, rfl, moves, _⟩ := parts_opens (upward_moves x) setting pattern
        (reads_pos several) rfl (by simp [Expr.moves]) ran
      simp [direct b mem_cons_self] at moves
    cases resolved_of_resolve resolve with
    | direct name isName stays =>
      cases isName
      by_cases again : 1 < consumers setting pattern true
      · left
        intro b isBinding assigned
        have within := parts_assigns setting pattern (w := logged w _) fresh ran b
          isBinding x assigned spelled
        exact stays again (by simpa [Reads.sets, Expr.sets] using within)
      · right
        exact parts_passes_tail_of_single (by simpa [consumers, Pattern.reads] using again)
          spares ran
    | inline _ expression => exact absurd rfl (expression x)
    | ownName name => exact (copied rfl).elim
    | temporary => exact (copied rfl).elim

end Unwind

/-- A site whose value is the variable `x`, which it reads directly, never overwrites `x` while it
is still needed: no binding that comes before a read of `x` assigns it. No target of the pattern may
be `x` in parentheses, and no key and no target may assign `x` inside. -/
theorem variable_keeps_value_until_last_read {t : Table} {root n : NodeId} {buffer : EditBuffer}
    {retain : Bool} {scopes scopes' : Scopes} {log log' : Array Event} {site : LoweredSite}
    {place : Lowerable} {x : String} (reachable : Scopes.Reachable t root scopes)
    (lowered : t.lowerSite buffer n retain scopes log = (.ok site, scopes', log'))
    (isPlace : t.lowerable n = .ok place) (isVariable : t.name? place.value = some x)
    (direct : ∀ b ∈ site.bindings, b.value.moves x = false)
    (bare : ∀ m ∈ t.patternParts n, t.standsFor? m = some x → t.name? m = some x)
    (quiet : ∀ m ∈ t.patternExpressions n, t.writes x m = false) :
    site.bindings.Pairwise fun earlier later =>
      later.value.base = .named x → ¬ earlier.Assigns t buffer n x := by
  obtain ⟨place', whole, pattern, value, w, isPlace', _, read, isValue, _, _, unwound⟩ :=
    Table.lowerSite_eq_ok lowered
  cases isPlace.symm.trans isPlace'
  obtain rfl : value = .named x := by
    simp only [Table.siteValue, isVariable] at isValue
    cases isValue
    rfl
  obtain ⟨sound, identifiers⟩ := reachable.sound
  rcases Unwind.site_spares_variable ⟨sound, identifiers⟩ (Table.mem_spellings isVariable) unwound
    direct with unassigned | once
  · refine pairwise_of_forall_mem_list fun b isBinding _ _ _ assigns => ?_
    cases assigns with
    | byName assigned => exact unassigned b isBinding assigned
    | asTarget isPart standsFor nameless => cases nameless.symm.trans (bare _ isPart standsFor)
    | within isExpression writes => cases (quiet _ isExpression).symm.trans writes
  · generalize site.bindings = bindings at once
    cases bindings with
    | nil => exact .nil
    | cons first others =>
      refine pairwise_cons.mpr ⟨fun c mem isRead => absurd isRead (once c mem), ?_⟩
      exact pairwise_of_forall_mem_list fun _ _ c mem isRead => absurd isRead (once c mem)

attribute [local irreducible] Parsed.ofText

/-- The table of `[a[i++], b] = x`. -/
def reread : Table := (Parsed.ofText "[a[i++], b] = x".toList).table

/-- The target of the first binding assigns another variable. -/
theorem reread_keeps_value_until_last_read :
    Scopes.Reachable reread 9 (Binding.ofTable reread 9).scopes ∧
    reread.lowerable 5 = .ok ⟨.assignment, 7, 6⟩ ∧ reread.name? 6 = some "x" ∧
    (∀ m ∈ reread.patternParts 5, reread.standsFor? m = some "x" → reread.name? m = some "x") ∧
    (∀ m ∈ reread.patternExpressions 5, reread.writes "x" m = false) ∧
    ∃ site scopes log,
      reread.lowerSite (.ofText "[a[i++], b] = x".toList) 5 false
        (Binding.ofTable reread 9).scopes #[] =
        (.ok site, scopes, log) ∧
      (∀ b ∈ site.bindings, b.value.moves "x" = false) ∧
      site.bindings.Pairwise fun earlier later => later.value.base = .named "x" →
        ¬ earlier.Assigns reread (.ofText "[a[i++], b] = x".toList) 5 "x" := by
  obtain ⟨isPlace, isVariable, bare, quiet, good⟩ : reread.lowerable 5 = .ok ⟨.assignment, 7, 6⟩ ∧
      reread.name? 6 = some "x" ∧
      (∀ m ∈ reread.patternParts 5, reread.standsFor? m = some "x" → reread.name? m = some "x") ∧
      (∀ m ∈ reread.patternExpressions 5, reread.writes "x" m = false) ∧
      (reread.lowerSite (.ofText "[a[i++], b] = x".toList) 5 false
        (Binding.ofTable reread 9).scopes #[]).1.toOption.any
          fun site => site.bindings.all fun b => !b.value.moves "x" := by decide +kernel
  refine ⟨.bound, isPlace, isVariable, bare, quiet, ?_⟩
  generalize lowered : reread.lowerSite _ 5 false _ #[] = outcome at good ⊢
  obtain ⟨failure | site, scopes, log⟩ := outcome
  · cases good
  · have direct : ∀ b ∈ site.bindings, b.value.moves "x" = false := by
      simpa [Except.toOption] using good
    exact ⟨site, scopes, log, rfl, direct,
      variable_keeps_value_until_last_read .bound lowered isPlace isVariable direct bare quiet⟩

/-- The table of `[(x), y] = x`. -/
def overwritten : Table := (Parsed.ofText "[(x), y] = x".toList).table

/-- The first of three bindings assigns `x`, and the other two read it. -/
theorem parenthesized_variable_is_overwritten :
    overwritten.lowerable 3 = .ok ⟨.assignment, 5, 4⟩ ∧ overwritten.name? 4 = some "x" ∧
    ∃ site scopes log b c d,
      overwritten.lowerSite (.ofText "[(x), y] = x".toList) 3 false
        (Binding.ofTable overwritten 7).scopes #[] = (.ok site, scopes, log) ∧
      site.bindings = [b, c, d] ∧ (∀ b ∈ site.bindings, b.value.moves "x" = false) ∧
      b.Assigns overwritten (.ofText "[(x), y] = x".toList) 3 "x" ∧
      c.value.base = .named "x" ∧ d.value.base = .named "x" := by
  refine ⟨by decide +kernel, by decide +kernel, ?_⟩
  have bindings : (overwritten.lowerSite (.ofText "[(x), y] = x".toList) 3 false
      (Binding.ofTable overwritten 7).scopes #[]).1.toOption.map (·.bindings) = some
        [⟨some (.reference "(x)"), .access (.named "x") (.item 0), false⟩,
          ⟨some (.named "y"), .access (.named "x") (.item 1), false⟩,
          ⟨none, .named "x", true⟩] := by decide +kernel
  generalize overwritten.lowerSite _ 3 false _ #[] = outcome at bindings ⊢
  obtain ⟨failure | site, scopes, log⟩ := outcome
  · cases bindings
  · have isBindings : site.bindings = _ := Option.some.inj bindings
    have assigned : ∃ m ∈ overwritten.patternParts 3, overwritten.standsFor? m = some "x" ∧
        overwritten.name? m = none ∧
        "(x)" = overwritten.textOf (.ofText "[(x), y] = x".toList) m := by decide +kernel
    obtain ⟨m, isPart, standsFor, nameless, text⟩ := assigned
    refine ⟨site, scopes, log, _, _, _, rfl, isBindings, ?_,
      .asTarget isPart standsFor nameless (by rw [text]), rfl, rfl⟩
    rw [isBindings]
    decide

end PatternLowering

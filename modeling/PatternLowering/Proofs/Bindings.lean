import PatternLowering.Proofs.Completion
import PatternLowering.Proofs.Registers
import PatternLowering.Proofs.Simulation

/-!
# What the bindings of a site are made of

A binding reads one value, through accesses and on the way into names. Three things are followed
through unwinding: which value the first binding reads, which names the bindings assign, and which
pieces of the source text they take over.
-/

namespace PatternLowering

open List

namespace Expr

/-- The value that is read, without what is done to it. -/
def base : Expr → Expr
  | source text => source text
  | named name => named name
  | parens inside => inside.base
  | assign _ value => value.base
  | access object _ => object.base

/-- The names that are assigned on the way. -/
def sets : Expr → List String
  | source _ => []
  | named _ => []
  | parens inside => inside.sets
  | assign name value => value.sets ++ [name]
  | access object _ => object.sets

/-- The pieces of source text in the expression. -/
def written : Expr → List String
  | source text => [text]
  | named _ => []
  | parens inside => inside.written
  | assign _ value => value.written
  | access object accessor => object.written ++ accessor.written

end Expr

namespace FlatBinding

/-- The variables that a binding assigns by their names. -/
def assigned (b : FlatBinding) : List String := b.value.sets ++ (b.target.bind Target.name?).toList

/-- The pieces of source text in a binding. -/
def written (b : FlatBinding) : List String :=
  (b.target.map Target.written).getD [] ++ b.value.written

end FlatBinding

/-- The target of the first binding in an assignment; an empty pattern has none. -/
def Pattern.opening? : Pattern → Option Target
  | done => none
  | leaf _ target _ => some target
  | nested _ inner _ => inner.opening?

namespace Value

variable (value : Value)

lemma sets_forAccess : value.forAccess.sets = value.forItem.sets := by
  cases value with
  | named name => rfl
  | written text wrapped isSequence => cases wrapped <;> cases isSequence <;> rfl
  | part value => rfl

lemma written_forAccess : value.forAccess.written = value.forItem.written := by
  cases value with
  | named name => rfl
  | written text wrapped isSequence => cases wrapped <;> cases isSequence <;> rfl
  | part value => rfl

end Value

namespace Reads

/-- The names that the reads still to come assign. -/
def sets : Reads → List String
  | repeatable value => value.sets
  | once value => (value.map Expr.sets).getD []
  | assigned first _ _ => (first.map Expr.sets).getD []

/-- The pieces of source text in the reads still to come. -/
def written : Reads → List String
  | repeatable value => value.written
  | once value => (value.map Expr.written).getD []
  | assigned first _ _ => (first.map Expr.written).getD []

/-- What can be read again is no piece of source text. -/
def Plain : Reads → Prop
  | repeatable value => value.written = []
  | _ => True

variable {reads reads' : Reads} {e : Expr}

lemma sets_next (next : reads.next = .ok (e, reads')) :
    (∀ y ∈ e.sets, y ∈ reads.sets) ∧ ∀ y ∈ reads'.sets, y ∈ reads.sets := by
  cases reads with
  | repeatable value =>
    cases next
    exact ⟨fun _ mem => mem, fun _ mem => mem⟩
  | once value =>
    cases value with
    | none => cases next
    | some value =>
      cases next
      exact ⟨fun _ mem => mem, by simp [sets]⟩
  | assigned first name holder =>
    cases first with
    | none =>
      cases next
      exact ⟨by simp [Expr.sets], fun _ mem => mem⟩
    | some first =>
      cases next
      exact ⟨fun _ mem => mem, by simp [sets]⟩

/-- A read takes all pieces at once. -/
lemma written_next (plain : reads.Plain) (next : reads.next = .ok (e, reads')) :
    e.written = reads.written ∧ reads'.written = [] ∧ reads'.Plain := by
  cases reads with
  | repeatable value =>
    cases next
    exact ⟨rfl, plain, plain⟩
  | once value =>
    cases value with
    | none => cases next
    | some value =>
      cases next
      exact ⟨rfl, rfl, trivial⟩
  | assigned first name holder =>
    cases first <;> cases next <;> exact ⟨rfl, rfl, trivial⟩

end Reads

namespace Unwind

variable {setting : Setting} {pattern : Pattern} {value : Value} {count depth : Nat}
  {isTop trailing : Bool} {w w' : Workbench} {reads reads' left : Reads} {e : Expr}
  {bindings : List FlatBinding}

/-- What holds of a value also holds of the expressions that start at it. -/
structure Upward (Q : Expr → Prop) : Prop where
  assign : ∀ {e} (name : String), Q e → Q (.assign name e)
  access : ∀ {e} (accessor : Accessor), Q e → Q (.access e accessor)

variable {Q : Expr → Prop}

lemma Resolved.next_upward (upward : Upward Q) (item : Q value.forItem) (access : Q value.forAccess)
    (resolved : Resolved setting pattern value count w reads w')
    (next : reads.next = .ok (e, reads')) : Q e := by
  cases resolved with
  | direct name isName =>
    cases next
    rw [isName] at item
    exact item
  | inline =>
    cases next
    exact access
  | ownName =>
    cases next
    exact upward.assign _ item
  | temporary =>
    cases next
    exact upward.assign _ item

lemma Resolved.written (resolved : Resolved setting pattern value count w reads w') :
    reads.written = value.forItem.written ∧ reads.Plain := by
  cases resolved with
  | direct name isName =>
    rw [isName]
    exact ⟨rfl, rfl⟩
  | inline => exact ⟨value.written_forAccess, trivial⟩
  | ownName => exact ⟨rfl, trivial⟩
  | temporary => exact ⟨rfl, trivial⟩

/-- There is a first binding; its value has the property and it goes to the first target of the
pattern. -/
def Opens (setting : Setting) (pattern : Pattern) (Q : Expr → Prop) (bindings : List FlatBinding) :
    Prop :=
  ∃ b later, bindings = b :: later ∧ Q b.value ∧
    (setting.context = .assignment → b.target = pattern.opening?)

lemma level_opens (upward : Upward Q) (item : Q value.forItem) (access : Q value.forAccess)
    (inside : ∀ {reads reads' left : Reads} {e : Expr} {w w' : Workbench},
      0 < pattern.reads (isTop && setting.context = .assignment) → reads.next = .ok
        (e, reads') → Q e →
      parts setting pattern depth (isTop && setting.context = .assignment) reads w = .ok
        (bindings, left) w' →
      Opens setting pattern Q bindings) (whole : level setting pattern value isTop depth
      (parts setting pattern depth (isTop && setting.context = .assignment)) w = .ok bindings w') :
    Opens setting pattern Q bindings := by
  obtain ⟨_, ⟨empty, ran⟩ | ⟨several, reads, w1, left, w2, resolve, ran, _, _⟩⟩ :=
    level_eq_ok.mp whole
  · obtain rfl : pattern = .done := by cases pattern <;> first | rfl | cases empty
    rw [emptyLevel_eq] at ran
    split at ran
    · rename_i isDeclaration
      cases ran
      exact ⟨_, _, rfl, item, fun isAssignment => by cases isDeclaration.symm.trans isAssignment⟩
    · cases ran
      exact ⟨_, _, rfl, item, fun _ => rfl⟩
  · have resolved := resolved_of_resolve resolve
    have nonzero : pattern.reads (isTop && setting.context = .assignment) ≠ 0 := by
      unfold Pattern.reads
      omega
    have serves : reads.Serves (pattern.reads (isTop && setting.context = .assignment)) :=
      resolved.serves
    obtain ⟨others, isSucc⟩ := Nat.exists_eq_succ_of_ne_zero nonzero
    rw [isSucc] at serves
    obtain ⟨e, next, _⟩ := serves.next
    exact inside (Nat.pos_of_ne_zero nonzero) next
      (resolved.next_upward upward item access next) ran

lemma parts_opens (upward : Upward Q) (setting : Setting) (pattern : Pattern)
    (nonzero : 0 < pattern.reads trailing) (next : reads.next = .ok (e, reads')) (starts : Q e)
    (whole : parts setting pattern depth trailing reads w = .ok (bindings, left) w') :
    Opens setting pattern Q bindings := by
  induction pattern generalizing depth trailing reads reads' left e w w' bindings with
  | done =>
    obtain ⟨rfl, ran⟩ := parts_done_eq_ok.mp whole
    cases trailing with
    | false => simp [Pattern.reads, Pattern.count] at nonzero
    | true =>
      obtain ⟨value, next', rfl⟩ := ran
      cases next.symm.trans next'
      exact ⟨_, _, rfl, starts, fun _ => rfl⟩
  | leaf accessor target later ih =>
    obtain ⟨value, reads'', rest, next', _, rfl⟩ := parts_leaf_eq_ok.mp whole
    cases next.symm.trans next'
    exact ⟨_, _, rfl, upward.access accessor starts, fun _ => rfl⟩
  | nested accessor inner later ihInner ih =>
    obtain ⟨value, reads'', first, v, rest, next', unwound, _, rfl⟩ := parts_nested_eq_ok.mp whole
    cases next.symm.trans next'
    have item : Q (Value.part (.access e accessor)).forItem := upward.access accessor starts
    have opens : Opens setting inner Q first :=
      level_opens upward item item (fun nonzero next starts ran => ihInner nonzero next starts ran)
        unwound
    obtain ⟨b, others, rfl, holds, target⟩ := opens
    exact ⟨b, others ++ rest, rfl, holds, target⟩

/-- Scopes that hand out no name of the file. -/
def Fresh (names : List String) (s : Scopes) : Prop := s.Sound ∧ s.identifiers = names

lemma fresh_stable (id : ScopeId) (names : List String) : Scopes.Stable id (Fresh names) where
  acquire fresh := ⟨fresh.1.acquire id, (Scopes.acquire_identifiers ..).trans fresh.2⟩
  claim fresh := ⟨fresh.1.claim id, (Scopes.claim_identifiers ..).trans fresh.2⟩
  release name fresh := ⟨fresh.1.release id name, (Scopes.release_identifiers ..).trans fresh.2⟩

variable {names : List String}

lemma Fresh.acquire_not_mem {s : Scopes} (fresh : Fresh names s) (id : ScopeId) :
    (s.acquire id).1 ∉ names := fun mem =>
  (fresh.1.acquire_continues id).2.1 (.inl (fresh.2 ▸ mem))

lemma Fresh.claim_not_mem {s : Scopes} (fresh : Fresh names s) (id : ScopeId) :
    (s.claim id).1 ∉ names := fun mem =>
  (fresh.1.claim_continues id).2 (.inl (fresh.2 ▸ mem))

/-- Of the names in the file, the reads assign only variables of the pattern and what the value
assigns. -/
lemma Resolved.sets (resolved : Resolved setting pattern value count w reads w')
    (fresh : Fresh names w.scopes) {y : String} (mem : y ∈ reads.sets) (spelled : y ∈ names) :
    y ∈ value.forItem.sets ∨ y ∈ pattern.names := by
  cases resolved with
  | direct => simp [Reads.sets, Expr.sets] at mem
  | inline => exact .inl (value.sets_forAccess ▸ mem)
  | ownName name _ chosen =>
    simp only [Reads.sets, Option.map_some, Option.getD_some, Expr.sets, mem_append,
      mem_singleton] at mem
    rcases mem with mem | rfl
    · exact .inl mem
    · exact .inr (Pattern.mem_names_of_lastName? (ownName?_eq_some chosen).2.2.1)
  | temporary =>
    simp only [Reads.sets, Option.map_some, Option.getD_some, Expr.sets, mem_append,
      mem_singleton] at mem
    rcases mem with mem | rfl
    · exact .inl mem
    · exact absurd spelled (fresh.acquire_not_mem _)

/-- Of the names in the file, the bindings assign only those in `allowed`. -/
def AssignsWithin (names allowed : List String) (bindings : List FlatBinding) : Prop :=
  ∀ b ∈ bindings, ∀ y ∈ b.assigned, y ∈ names → y ∈ allowed

lemma level_assigns (fresh : Fresh names w.scopes)
    (inside : ∀ {reads left : Reads} {w w' : Workbench}, Fresh names w.scopes →
      parts setting pattern depth trailing reads w = .ok (bindings, left) w' →
      AssignsWithin names (reads.sets ++ pattern.names) bindings)
    (whole : level setting pattern value isTop depth (parts setting pattern depth trailing) w =
      .ok bindings w') : AssignsWithin names (value.forItem.sets ++ pattern.names) bindings := by
  obtain ⟨_, ⟨_, ran⟩ | ⟨_, reads, w1, left, w2, resolve, ran, _, _⟩⟩ := level_eq_ok.mp whole
  · rw [emptyLevel_eq] at ran
    intro b isBinding y mem spelled
    split at ran
    · cases ran
      cases mem_singleton.mp isBinding
      simp only [FlatBinding.assigned, Option.bind_some, Target.name?, Option.toList_some,
        mem_append, mem_singleton] at mem
      rcases mem with mem | rfl
      · exact mem_append_left _ mem
      · exact absurd spelled (fresh.claim_not_mem _)
    · cases ran
      cases mem_singleton.mp isBinding
      simp only [FlatBinding.assigned, Option.bind_none, Option.toList_none, append_nil] at mem
      exact mem_append_left _ mem
  · have resolved := resolved_of_resolve resolve
    have fresh1 : Fresh names (logged w1
        (.unwinding depth (consumers setting pattern isTop) reads.reference)).scopes :=
      resolved.keeping (fresh_stable _ _) fresh
    intro b isBinding y mem spelled
    have within := inside fresh1 ran b isBinding y mem spelled
    rcases mem_append.mp within with mem | mem
    · exact mem_append.mpr (resolved.sets fresh mem spelled)
    · exact mem_append_right _ mem

/-- A level takes no name of the file. -/
lemma Fresh.level (fresh : Fresh names w.scopes)
    (unwound : level setting pattern value isTop depth (parts setting pattern depth trailing) w =
      .ok bindings w') : Fresh names w'.scopes := by
  have stable := fresh_stable setting.scope names
  have kept := level_preserves stable pattern value isTop depth
    (parts_preserves stable pattern depth trailing) w fresh
  rwa [unwound] at kept

lemma parts_assigns (setting : Setting) (pattern : Pattern)
    (fresh : Fresh names w.scopes)
    (whole : parts setting pattern depth trailing reads w = .ok (bindings, left) w') :
    AssignsWithin names (reads.sets ++ pattern.names) bindings := by
  induction pattern generalizing depth trailing reads left w w' bindings with
  | done =>
    intro b isBinding y mem _
    obtain ⟨rfl, ran⟩ := parts_done_eq_ok.mp whole
    cases trailing with
    | false =>
      obtain ⟨rfl, rfl⟩ := ran
      cases isBinding
    | true =>
      obtain ⟨value, next, rfl⟩ := ran
      cases mem_singleton.mp isBinding
      simp only [FlatBinding.assigned, Option.bind_none, Option.toList_none, append_nil] at mem
      exact mem_append_left _ ((Reads.sets_next next).1 y mem)
  | leaf accessor target later ih =>
    intro b isBinding y mem spelled
    obtain ⟨value, reads', rest, next, ran, rfl⟩ := parts_leaf_eq_ok.mp whole
    obtain ⟨now, after⟩ := Reads.sets_next next
    simp only [Pattern.names, mem_append]
    rcases mem_cons.mp isBinding with rfl | isBinding
    · simp only [FlatBinding.assigned, Option.bind_some, Expr.sets, mem_append] at mem
      exact mem.imp (now y) .inl
    · have within := ih fresh ran b isBinding y mem spelled
      exact (mem_append.mp within).imp (after y) .inr
  | nested accessor inner later ihInner ih =>
    intro b isBinding y mem spelled
    obtain ⟨value, reads', first, v, rest, next, unwound, ran, rfl⟩ := parts_nested_eq_ok.mp whole
    obtain ⟨now, after⟩ := Reads.sets_next next
    simp only [Pattern.names, mem_append]
    rcases mem_append.mp isBinding with isBinding | isBinding
    · have within := level_assigns fresh (fun fresh ran => ihInner fresh ran) unwound b
        isBinding y mem spelled
      exact (mem_append.mp within).imp (now y) .inl
    · have within := ih (fresh.level unwound) ran b isBinding y mem spelled
      exact (mem_append.mp within).imp (after y) .inr

/-- The bindings take over each piece of source text in the value and in the pattern once. -/
def Takes (bindings : List FlatBinding) (pieces : List String) : Prop :=
  (bindings.flatMap FlatBinding.written).Perm pieces

lemma level_takes
    (inside : ∀ {reads left : Reads} {w w' : Workbench}, reads.Plain →
      reads.written = [] ∨ 0 < pattern.reads trailing →
      parts setting pattern depth trailing reads w = .ok (bindings, left) w' →
      Takes bindings (reads.written ++ pattern.written))
    (whole : level setting pattern value isTop depth (parts setting pattern depth trailing) w =
      .ok bindings w') : Takes bindings (value.forItem.written ++ pattern.written) := by
  obtain ⟨_, ⟨empty, ran⟩ | ⟨several, reads, w1, left, w2, resolve, ran, _, _⟩⟩ :=
    level_eq_ok.mp whole
  · obtain rfl : pattern = .done := by cases pattern <;> first | rfl | cases empty
    rw [emptyLevel_eq] at ran
    split at ran <;> cases ran <;>
      simp [Takes, FlatBinding.written, Target.written, Pattern.written]
  · obtain ⟨same, plain⟩ := (resolved_of_resolve resolve).written
    rw [← same]
    refine inside plain (.inr ?_) ran
    unfold Pattern.reads
    omega

lemma parts_takes (setting : Setting) (pattern : Pattern) :
    ∀ {depth : Nat} {trailing : Bool} {reads left : Reads} {w w' : Workbench}
      {bindings : List FlatBinding}, reads.Plain →
      reads.written = [] ∨ 0 < pattern.reads trailing →
      parts setting pattern depth trailing reads w = .ok (bindings, left) w' →
      Takes bindings (reads.written ++ pattern.written) := by
  induction pattern with
  | done =>
    intro depth trailing reads left w w' bindings plain needed whole
    obtain ⟨rfl, ran⟩ := parts_done_eq_ok.mp whole
    cases trailing with
    | false =>
      obtain ⟨rfl, rfl⟩ := ran
      have none : left.written = [] := by simpa [Pattern.reads, Pattern.count] using needed
      simp [Takes, none, Pattern.written]
    | true =>
      obtain ⟨value, next, rfl⟩ := ran
      simp [Takes, FlatBinding.written, (Reads.written_next plain next).1, Pattern.written]
  | leaf accessor target later ih =>
    intro depth trailing reads left w w' bindings plain _ whole
    obtain ⟨value, reads', rest, next, ran, rfl⟩ := parts_leaf_eq_ok.mp whole
    obtain ⟨now, after, plain'⟩ := Reads.written_next plain next
    have takes := ih plain' (.inl after) ran
    rw [after, nil_append] at takes
    rw [Takes, flatMap_cons, Pattern.written, ← append_assoc, ← append_assoc]
    refine .append ?_ takes
    simp only [FlatBinding.written, Option.map_some, Option.getD_some, Expr.written, now]
    exact perm_append_comm
  | nested accessor inner later ihInner ih =>
    intro depth trailing reads left w w' bindings plain _ whole
    obtain ⟨value, reads', first, v, rest, next, unwound, ran, rfl⟩ := parts_nested_eq_ok.mp whole
    obtain ⟨now, after, plain'⟩ := Reads.written_next plain next
    have takes := ih plain' (.inl after) ran
    have takesFirst := level_takes (fun plain needed ran => ihInner plain needed ran) unwound
    rw [after, nil_append] at takes
    rw [Takes, flatMap_append, Pattern.written, ← append_assoc, ← append_assoc]
    refine .append ?_ takes
    simpa [Value.forItem, Expr.written, now, Takes] using takesFirst

end Unwind

end PatternLowering

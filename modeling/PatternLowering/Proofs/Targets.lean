import PatternLowering.Grammar.Target
import PatternLowering.Proofs.Parsing

/-!
# Literals that become patterns

The left side of an assignment is read as an expression and turned into a target in place. Only what
its nodes are changes: an array literal becomes an array pattern over the same elements, which have
become targets before it. Meanwhile the nodes elsewhere stay as they are, those of other elements
among them, and so the elements can be turned one by one.
-/

namespace PatternLowering

open List

variable {t : Table} {n : NodeId}

/-- What can be assigned to without being a pattern is a target. -/
lemma Fits.simple_of_within {bound : Nat} (fits : Fits t .expression n)
    (simple : t.isSimpleTargetWithin bound n) : Fits t .simple n := by
  induction bound generalizing n with
  | zero => cases simple
  | succ bound ih =>
    cases fits with
    | mk found slots inner =>
      rw [Table.isSimpleTargetWithin, found] at simple
      split at simple
      · cases ‹some _ = some _›
        exact .mk found slots inner
      · cases ‹some _ = some _›
        exact .mk found slots inner
      · cases ‹some _ = some _›
        exact .mk found slots inner
      · cases ‹some _ = some _›
        cases slots
        exact .mk found rfl fun part mem => by
          obtain rfl : part = _ := mem_singleton.mp mem
          exact ih (inner (.expression, _) (by simp)) simple
      · cases simple

lemma Fits.target_of_simple (fits : Fits t .simple n) : Fits t (.target false) n :=
  fits.as fun {form _} _ slots => by cases form <;> first | exact slots | cases slots

lemma Fits.last_of_target {declared : Bool} (fits : Fits t (.target declared) n) :
    Fits t (.last declared) n :=
  fits.as fun {form _} _ slots => by
    cases form <;> first | exact slots | (cases declared <;> cases slots)

lemma Fits.element_cases (fits : Fits t .element n) :
    (∃ inside, t.form? n = some (.spread inside) ∧ Fits t .expression inside) ∨
      ((∀ inside, t.form? n ≠ some (.spread inside)) ∧ Fits t .expression n) := by
  obtain ⟨form, _, found, slots, inner⟩ := fits.form
  cases form with
  | spread inside =>
    cases slots
    exact .inl ⟨inside, found, inner (.expression, inside) (by simp)⟩
  | _ =>
    refine .inr ⟨fun inside same => ?_, .mk found slots inner⟩
    cases found.symm.trans same

namespace ParseState

/-- The state is the same, but some of the nodes `inside` have another form. -/
structure Recast (inside : NodeId → Prop) (s s' : ParseState) : Prop where
  rest : s' = { s with table := s'.table }
  table : Table.Recast inside s.table s'.table

variable {text : Text} {inside inside' : NodeId → Prop} {s s' s'' : ParseState}

namespace Recast

lemma refl (inside : NodeId → Prop) (s : ParseState) : Recast inside s s := ⟨rfl, .refl _ _⟩

lemma trans (first : Recast inside s s') (second : Recast inside s' s'') :
    Recast inside s s'' := by
  refine ⟨?_, first.table.trans second.table⟩
  rw [second.rest, first.rest]

lemma widen (recast : Recast inside s s') (wider : ∀ m, inside m → inside' m) :
    Recast inside' s s' := ⟨recast.rest, recast.table.widen wider⟩

lemma ready (recast : Recast inside s s') (ready : s.Ready text) : s'.Ready text := by
  rw [recast.rest]
  refine ⟨ready.scanner, ready.behind, ready.closed, ready.reported, recast.table.tidy ready.tidy,
    ready.size, fun found isWord => ?_⟩
  obtain ⟨node, found', start, stop, _, kept⟩ := recast.table.back found
  rw [start, stop]
  exact ready.spelled found' (kept (Form.isSpelled_of_word? isWord) ▸ isWord)

end Recast

/-- Turning trees that were made since `s0` changes nothing before them. -/
lemma Holds.recast {s0 : ParseState} {moved : Bool} {slots slots' : List (Role × NodeId)}
    {top : NodeId} (holds : Holds text s0 moved slots s) (new : s0.table.size ≤ top)
    (recast : Recast (s.table.Under top) s s')
    (same : slots'.map Prod.snd = slots.map Prod.snd)
    (fits : ∀ {part}, part ∈ slots' → Fits s'.table part.1 part.2) :
    Holds text s0 moved slots' s' := by
  -- What was there before has its parents there.
  have apart {m : NodeId} (old : m < s0.table.size) : ¬ s.table.Under top m := by
    intro under
    induction under with
    | self => exact Nat.not_le_of_lt old new
    | part up _ ih =>
      rw [Table.parent?, holds.frame old] at up
      exact ih (holds.base.tidy.parent_lt_size up)
  obtain ⟨rest, table⟩ := recast
  have ready := Recast.ready ⟨rest, table⟩ holds.ready
  have trail : ∃ tokens, s0.Trail tokens s' := by
    obtain ⟨tokens, trail⟩ := holds.trail
    refine ⟨tokens, ?_, ?_, fun later found => ?_⟩
    · rw [rest]
      exact trail.passes
    · rw [rest]
      exact trail.last
    · obtain ⟨node, found', start, stop, _⟩ := table.back found
      rw [start, stop]
      exact trail.spans later found'
  have size := table.size
  generalize s'.table = t' at rest table fits size
  subst rest
  exact
    { base := holds.base
      ready := ready
      frame := fun old => (table.outside (apart old)).trans (holds.frame old)
      grown := holds.grown.trans_eq size.symm
      roots := fun later inside => by
        rw [same]
        dsimp only
        rw [table.parent?]
        exact holds.roots later (inside.trans_eq size)
      fresh := by rw [same]; exact holds.fresh
      laid := by rw [same]; exact table.laid holds.laid
      fits := fits
      forward := holds.forward
      late := holds.late
      passed := holds.passed
      trail := trail }

end ParseState

open Parse ParseState

/-- An array or object literal. -/
def Form.IsLiteral (form : Form) : Prop :=
  (∃ elements, form = .arrayLiteral elements) ∨ ∃ properties, form = .objectLiteral properties

/-- The production turns an expression of one of the given forms into a target and changes nothing
else. -/
def Turns (text : Text) (given : Form → Prop) (p : NodeId → Parse NodeId) : Prop :=
  ∀ n s1, s1.Ready text → Fits s1.table .expression n →
    (∀ form, s1.table.form? n = some form → given form) →
    Meets (· = s1) (p n) fun m s =>
      m = n ∧ Recast (s1.table.Under n) s1 s ∧ Fits s.table (.target false) n

/-- Turning the last tree that was made. -/
lemma Turns.meets {text : Text} {p : NodeId → Parse NodeId}
    (turns : Turns text (fun _ => True) p)
    {s0 : ParseState} {moved : Bool} (n : NodeId) :
    Meets (Holds text s0 moved [(.expression, n)]) (p n)
      fun m s => m = n ∧ Holds text s0 moved [(.target false, n)] s := by
  intro s holds
  have expression : (Role.expression, n) ∈ [(Role.expression, n)] := by simp
  have inner := turns n s holds.ready (holds.fits expression) (fun _ _ => trivial) s rfl
  cases ran : p n s with
  | error halt s' =>
    rw [ran] at inner
    exact inner
  | ok m s' =>
    rw [ran] at inner
    obtain ⟨rfl, recast, fits⟩ := inner
    refine ⟨rfl, holds.recast (holds.fresh (by simp)) recast rfl fun {part} mem => ?_⟩
    obtain rfl : part = (.target false, m) := mem_singleton.mp mem
    exact fits

namespace Grammar

variable {text : Text} {inner : Productions}

lemma meets_form {α : Type} {s1 : ParseState} {f : Option Form → Parse α}
    {Q : α → ParseState → Prop}
    (meets : Meets (· = s1) (f (s1.table.form? n)) Q) :
    Meets (· = s1) (form? n >>= f) Q :=
  (meets_form? n).bind fun form => by
    rintro s ⟨rfl, rfl⟩
    exact meets s rfl

lemma meets_reinterpret {s1 : ParseState} {old form : Form}
    (ready : s1.Ready text) (found : s1.table.form? n = some old)
    (same : form.children = old.children)
    (plain : form.isSpelled = false) :
    Meets (· = s1) (reinterpret n form) fun _ s =>
      Recast (· = n) s1 s ∧ s.table.form? n = some form := by
  rintro s rfl
  obtain ⟨recast, isForm⟩ :=
    Table.recast_reinterpret found (ready.tidy.parents_of_form found) same plain
  exact ⟨⟨rfl, recast⟩, isForm⟩

/-- A part of a node does not contain the node. -/
lemma part_apart {opens closes : Nat → Prop} (tidy : t.Tidy opens closes)
    {n part m : NodeId} (isPart : part ∈ t.children n) (under : t.Under part m) : ¬ m = n := by
  rintro rfl
  exact absurd (tidy.below isPart) (Nat.not_lt.mpr (tidy.under_le under))

/-- Turning one part of a node after the other: each keeps what it became while the others are
turned. -/
lemma turn_then {s1 : ParseState} {top first : NodeId} {later : List NodeId} {start role : Role}
    {turn others : Parse Unit} {R : ParseState → Prop} (ready : s1.Ready text)
    (fits : ∀ p ∈ first :: later, Fits s1.table start p)
    (parts : ∀ p ∈ first :: later, s1.table.parent? p = some top)
    (distinct : (first :: later).Nodup) (turns : Meets (· = s1) turn fun _ s =>
      Recast (s1.table.Under first) s1 s ∧ Fits s.table role first)
    (rest : ∀ s, s.Ready text → (∀ p ∈ later, Fits s.table start p) →
      (∀ p ∈ later, s.table.parent? p = some top) → later.Nodup →
      Meets (fun s' => s' = s) others fun _ s' =>
        Recast (fun m => ∃ p ∈ later, s.table.Under p m) s s' ∧ R s') :
    Meets (· = s1) (turn >>= fun _ => others) fun _ s' =>
      Recast (fun m => ∃ p ∈ first :: later, s1.table.Under p m) s1 s' ∧
        Fits s'.table role first ∧ R s' := by
  obtain ⟨fresh, distinct⟩ := nodup_cons.mp distinct
  have apart {p m : NodeId} (mem : p ∈ later) (under : s1.table.Under p m) :
      ¬ s1.table.Under first m := by
    intro under'
    have same := ready.tidy.under_part_unique (parts p (by simp [mem])) (parts first (by simp))
      under under'
    exact fresh (same ▸ mem)
  refine turns.bind fun _ => .fix ?_
  rintro s ⟨recast, turned⟩
  refine (rest s (recast.ready ready) (fun p mem => (fits p (by simp [mem])).recast ready.tidy
    recast.table fun m under => apart mem under)
    (fun p mem => recast.table.parent?.trans (parts p (by simp [mem]))) distinct).post
    fun _ s' h => ?_
  obtain ⟨recast', others⟩ := h
  refine ⟨(recast.widen fun m under => ⟨first, by simp, under⟩).trans
    (recast'.widen fun m h => ?_), ?_, others⟩
  · obtain ⟨p, mem, under⟩ := h
    exact ⟨p, by simp [mem], recast.table.under_iff.mp under⟩
  · refine turned.recast (recast.ready ready).tidy recast'.table fun m under => ?_
    rintro ⟨p, mem, under'⟩
    exact apart mem (recast.table.under_iff.mp under') (recast.table.under_iff.mp under)

/-- A literal whose parts have been turned becomes a pattern over them. -/
lemma meets_becomePattern {s1 s : ParseState} {old form : Form}
    {slots : List (Role × NodeId)} (ready : s1.Ready text) (found : s1.table.form? n = some old)
    (same : form.children = old.children) (known : Role.slots (.target false) form = some slots)
    (recast : Recast (fun m => ∃ p ∈ old.children, s1.table.Under p m) s1 s)
    (turned : ∀ part ∈ slots, Fits s.table part.1 part.2)
    (plain : form.isSpelled = false) :
    Meets (fun s' => s' = s) (do reinterpret n form; return n) fun m s' =>
      m = n ∧ Recast (s1.table.Under n) s1 s' ∧ Fits s'.table (.target false) n := by
  have isPart {p : NodeId} (mem : p ∈ old.children) : p ∈ s1.table.children n := by
    simpa [Table.children, found] using mem
  have still : s.table.form? n = some old := by
    refine (recast.table.form? ?_).trans found
    rintro ⟨p, mem, under⟩
    exact part_apart ready.tidy (isPart mem) under rfl
  refine (meets_reinterpret (recast.ready ready) still same plain).bind fun _ => .pure
    fun s' h => ?_
  obtain ⟨recast', isForm⟩ := h
  refine ⟨rfl, (recast.widen ?_).trans (recast'.widen fun m same => same ▸ .self),
    .mk isForm known fun part mem => ?_⟩
  · rintro m ⟨p, mem, under⟩
    exact (Table.Under.part (ready.tidy.parent?_of_mem (isPart mem)) .self).trans under
  · have tidy := (recast.ready ready).tidy
    have mem' : part.2 ∈ old.children := by
      rw [← same, ← Role.map_slots known]
      exact mem_map_of_mem mem
    exact (turned part mem).recast tidy recast'.table
      fun m under => part_apart tidy (recast.table.children ▸ isPart mem') under

variable (literal : Turns text Form.IsLiteral inner.literal)

include literal

lemma target_turns : Turns text (fun _ => True) (target inner) := by
  intro n s1 ready fits _
  refine meets_form ?_
  split
  · rename_i isArray
    refine literal n s1 ready fits fun form found => .inl ?_
    cases isArray.symm.trans found
    exact ⟨_, rfl⟩
  · rename_i isObject
    refine literal n s1 ready fits fun form found => .inr ?_
    cases isObject.symm.trans found
    exact ⟨_, rfl⟩
  · obtain ⟨_, slots, _⟩ := fits.parts ‹_›
    cases slots
  · obtain ⟨_, slots, _⟩ := fits.parts ‹_›
    cases slots
  · refine (meets_get.bind fun now => .ite (fun simple => .pure ?_) fun _ => meets_failAtNode _ _)
    rintro s ⟨rfl, rfl⟩
    exact ⟨rfl, .refl _ _, (fits.simple_of_within simple).target_of_simple⟩

lemma elementTarget_meets (isLast : Bool)
    (element : NodeId) (s1 : ParseState) (ready : s1.Ready text)
    (fits : Fits s1.table .element element) :
    Meets (· = s1) (elementTarget inner isLast element) fun _ s =>
      Recast (s1.table.Under element) s1 s ∧
        Fits s.table (if isLast then .last false else .target false) element := by
  refine meets_form ?_
  obtain ⟨inside, isSpread, expression⟩ | ⟨noSpread, expression⟩ := fits.element_cases
  · rw [isSpread]
    refine .ite (fun yes => ?_) fun _ => meets_failAtNode _ _
    have isPart : inside ∈ s1.table.children element := by
      simp [Table.children, isSpread, Form.children]
    refine (target_turns literal inside s1 ready expression fun _ _ => trivial).bind
      fun argument => .fix ?_
    rintro s ⟨rfl, recast, turned⟩
    have still : s.table.form? element = some (.spread argument) :=
      (recast.table.form? fun under => part_apart ready.tidy isPart under rfl).trans isSpread
    have sameParts : (Form.restElement argument).children = (Form.spread argument).children := rfl
    refine (meets_reinterpret (recast.ready ready) still sameParts rfl).post fun _ s' h => ?_
    obtain ⟨recast', isRest⟩ := h
    have part' : argument ∈ s.table.children element := recast.table.children ▸ isPart
    refine ⟨(recast.widen fun m under => ?_).trans (recast'.widen fun m same => same ▸ .self), ?_⟩
    · exact (Table.Under.part (ready.tidy.parent?_of_mem isPart) .self).trans under
    · rw [if_pos yes]
      refine .mk isRest rfl fun part mem => ?_
      obtain rfl : part = (.target false, argument) := mem_singleton.mp mem
      exact turned.recast (recast.ready ready).tidy recast'.table
        fun m under => part_apart (recast.ready ready).tidy part' under
  · split
    · exact absurd ‹_› (noSpread _)
    · refine (target_turns literal element s1 ready expression fun _ _ => trivial).bind
        fun _ => .pure fun s h => ?_
      refine ⟨h.2.1, ?_⟩
      split
      · exact h.2.2.last_of_target
      · exact h.2.2

lemma elementTargets_meets (array : NodeId)
    (elements : List (Option NodeId)) (s1 : ParseState) (ready : s1.Ready text)
    (fits : ∀ e ∈ elements.filterMap id, Fits s1.table .element e)
    (parts : ∀ e ∈ elements.filterMap id, s1.table.parent? e = some array)
    (distinct : (elements.filterMap id).Nodup) :
    Meets (· = s1) (elementTargets inner elements) fun _ s =>
      Recast (fun m => ∃ e ∈ elements.filterMap id, s1.table.Under e m) s1 s ∧
        ∀ part ∈ Role.items false elements, Fits s.table part.1 part.2 := by
  induction elements generalizing s1 with
  | nil =>
    refine .pure fun s same => ?_
    subst same
    exact ⟨.refl _ _, by simp [Role.items]⟩
  | cons first later ih =>
    cases first with
    | none => exact ih s1 ready fits parts distinct
    | some element =>
      exact (turn_then ready fits parts distinct
        (elementTarget_meets literal later.isEmpty element s1 ready (fits element (by simp)))
        ih).post fun _ s h => ⟨h.1, forall_mem_cons.mpr h.2⟩

lemma propertyTarget_meets (property : NodeId)
    (s1 : ParseState) (ready : s1.Ready text) (fits : Fits s1.table .property property) :
    Meets (· = s1) (propertyTarget inner property) fun _ s =>
      Recast (s1.table.Under property) s1 s ∧
        Fits s.table (.bindingProperty false) property := by
  refine meets_form ?_
  split
  · rename_i key computed value isProperty
    obtain ⟨_, slots, inside⟩ := fits.parts isProperty
    cases slots
    have children : s1.table.children property = [key, value] := by
      simp [Table.children, isProperty, Form.children]
    have isKey : key ∈ s1.table.children property := by simp [children]
    have isValue : value ∈ s1.table.children property := by simp [children]
    have other : key ≠ value := by
      obtain ⟨node, isNode, isForm⟩ := Table.form?_eq_some.mp isProperty
      have := (ready.tidy.laid isNode).nodup
      simpa [isForm, Form.children] using this
    have expression : Fits s1.table .expression value := inside (.expression, value) (by simp)
    refine (target_turns literal value s1 ready expression fun _ _ => trivial).bind
      fun target => .fix ?_
    rintro s ⟨rfl, recast, turned⟩
    have still : s.table.form? property = some (.property key computed target) :=
      (recast.table.form? fun under => part_apart ready.tidy isValue under rfl).trans isProperty
    have sameParts : (Form.bindingProperty (some key) computed target).children =
        (Form.property key computed target).children := rfl
    refine (meets_reinterpret (recast.ready ready) still sameParts rfl).post fun _ s' h => ?_
    obtain ⟨recast', isBinding⟩ := h
    refine ⟨(recast.widen fun m under => ?_).trans (recast'.widen fun m same => same ▸ .self), ?_⟩
    · exact (Table.Under.part (ready.tidy.parent?_of_mem isValue) .self).trans under
    · have tidy := (recast.ready ready).tidy
      refine .mk isBinding rfl fun part mem => ?_
      simp only [mem_cons, not_mem_nil, or_false] at mem
      rcases mem with rfl | rfl
      · refine ((inside _ (by simp)).recast ready.tidy recast.table fun m under under' => ?_).recast
          tidy recast'.table fun m under => part_apart tidy (recast.table.children ▸ isKey) under
        exact other (ready.tidy.under_part_unique (ready.tidy.parent?_of_mem isKey)
          (ready.tidy.parent?_of_mem isValue) under under')
      · exact turned.recast tidy recast'.table
          fun m under => part_apart tidy (recast.table.children ▸ isValue) under
  · rename_i name isShorthand
    obtain ⟨_, slots, inside⟩ := fits.parts isShorthand
    cases slots
    have isName : name ∈ s1.table.children property := by
      simp [Table.children, isShorthand, Form.children]
    have sameParts : (Form.bindingProperty none false name).children =
        (Form.shorthand name).children := rfl
    refine (meets_reinterpret ready isShorthand sameParts rfl).post fun _ s h => ?_
    obtain ⟨recast, isBinding⟩ := h
    refine ⟨recast.widen fun m same => same ▸ .self, .mk isBinding rfl fun part mem => ?_⟩
    obtain rfl : part = (.plainWord, name) := mem_singleton.mp mem
    exact (inside _ mem).recast ready.tidy recast.table
      fun m under => part_apart ready.tidy isName under
  · exact meets_failAtNode _ _

lemma propertyTargets_meets (object : NodeId)
    (properties : List NodeId) (s1 : ParseState) (ready : s1.Ready text)
    (fits : ∀ p ∈ properties, Fits s1.table .property p)
    (parts : ∀ p ∈ properties, s1.table.parent? p = some object) (distinct : properties.Nodup) :
    Meets (· = s1) (propertyTargets inner properties) fun _ s =>
      Recast (fun m => ∃ p ∈ properties, s1.table.Under p m) s1 s ∧
        ∀ p ∈ properties, Fits s.table (.bindingProperty false) p := by
  induction properties generalizing s1 with
  | nil =>
    refine .pure fun s same => ?_
    subst same
    exact ⟨.refl _ _, by simp⟩
  | cons property later ih =>
    exact (turn_then ready fits parts distinct
      (propertyTarget_meets literal property s1 ready (fits property (by simp))) ih).post
      fun _ s h => ⟨h.1, forall_mem_cons.mpr h.2⟩

lemma literal_turns : Turns text Form.IsLiteral (Grammar.literal inner) := by
  intro n s1 ready fits only
  have parts {form : Form} (found : s1.table.form? n = some form) :
      (∀ p ∈ form.children, s1.table.parent? p = some n) ∧ form.children.Nodup := by
    refine ⟨ready.tidy.parents_of_form found, ?_⟩
    obtain ⟨node, isNode, rfl⟩ := Table.form?_eq_some.mp found
    exact (ready.tidy.laid isNode).nodup
  refine meets_form ?_
  split
  · rename_i elements isArray
    obtain ⟨_, slots, inside⟩ := fits.parts isArray
    cases slots
    refine (elementTargets_meets literal n elements s1 ready (fun e mem => ?_) (parts isArray).1
      (parts isArray).2).bind fun _ => .fix fun s h => ?_
    · exact inside (.element, e) (mem_map_of_mem mem)
    · exact meets_becomePattern ready isArray rfl rfl h.1 h.2 rfl
  · rename_i properties isObject
    obtain ⟨_, slots, inside⟩ := fits.parts isObject
    cases slots
    refine (propertyTargets_meets literal n properties s1 ready (fun p mem => ?_) (parts isObject).1
      (parts isObject).2).bind fun _ => .fix fun s h => ?_
    · exact inside (.property, p) (mem_map_of_mem mem)
    · refine meets_becomePattern ready isObject rfl rfl h.1 (fun part mem => ?_) rfl
      obtain ⟨p, isProperty, rfl⟩ := mem_map.mp mem
      exact h.2 p isProperty
  · rename_i noArray noObject
    cases fits with
    | mk found _ _ =>
      obtain ⟨elements, rfl⟩ | ⟨properties, rfl⟩ := only _ found
      · exact absurd found (noArray elements)
      · exact absurd found (noObject properties)

end Grammar

end PatternLowering

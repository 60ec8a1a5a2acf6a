import PatternLowering.Proofs.Roles

/-!
# The parts of a pattern

A pattern is made of nested patterns, properties, rest elements and targets. Next to them stand its
expressions: computed keys and targets that are no variables. They follow one another in the text,
and whatever else lies under the pattern is a key that is a single token.
-/

namespace PatternLowering

open List

namespace Form

/-- What belongs to the same pattern, one level further in. -/
def nestedParts : Form → List NodeId
  | objectPattern properties => properties
  | arrayPattern elements => elements.filterMap id
  | bindingProperty _ _ target => [target]
  | restElement target => [target]
  | _ => []

/-- The expressions of a pattern at the node `n` itself, which has this form. -/
def ownExpressions (n : NodeId) : Form → List NodeId
  | objectPattern _ => []
  | arrayPattern _ => []
  | bindingProperty (some key) true _ => [key]
  | bindingProperty _ _ _ => []
  | restElement _ => []
  | identifier _ => []
  | _ => [n]

/-- The forms that only nodes inside of patterns have, and patterns. -/
def isPatternPart : Form → Bool
  | objectPattern _ => true
  | arrayPattern _ => true
  | bindingProperty _ _ _ => true
  | restElement _ => true
  | _ => false

lemma nestedParts_subset (form : Form) : ∀ m ∈ form.nestedParts, m ∈ form.children := by
  intro m mem
  cases form <;> simp_all [nestedParts, children]

end Form

namespace Table

variable {t : Table} {opens closes : Nat → Prop} {n m p : NodeId}

lemma mem_children_of_form {form : Form} (found : t.form? n = some form)
    (mem : m ∈ form.children) : m ∈ t.children n := by
  simpa [children, found] using mem

lemma patternPartsWithin_succ (bound : Nat) {form : Form} (found : t.form? n = some form) :
    t.patternPartsWithin (bound + 1) n =
      n :: form.nestedParts.flatMap (t.patternPartsWithin bound) := by
  rw [patternPartsWithin, found]
  cases form <;> simp [Form.nestedParts]

section Bounds

variable {α : Type} (walk : Nat → NodeId → α) (tidy : t.Tidy opens closes)
  (level : ∀ {bound bound' n}, (∀ form, t.form? n = some form → ∀ part ∈ form.nestedParts,
    walk bound part = walk bound' part) → walk (bound + 1) n = walk (bound' + 1) n)

include tidy level

/-- Parts have smaller numbers, so a walk over the parts of a pattern gives the same with any bound
above the number of a node, if one level of it does when the walks of the parts do. -/
lemma within_congr {bound bound' : Nat} (enough : n < bound) (enough' : n < bound') :
    walk bound n = walk bound' n := by
  induction bound generalizing n bound' with
  | zero => exact absurd enough (Nat.not_lt_zero n)
  | succ bound ih =>
    cases bound' with
    | zero => exact absurd enough' (Nat.not_lt_zero n)
    | succ bound' =>
      refine level fun form found part mem => ?_
      have below : part < n :=
        tidy.below (mem_children_of_form found (form.nestedParts_subset part mem))
      exact ih (Nat.lt_of_lt_of_le below (Nat.le_of_lt_succ enough))
        (Nat.lt_of_lt_of_le below (Nat.le_of_lt_succ enough'))

/-- So the bound of a whole walk is enough for the parts too. -/
lemma within_part {form : Form} (found : t.form? n = some form) {part : NodeId}
    (mem : part ∈ form.nestedParts) : walk t.size part = walk (t.size + 1) part := by
  obtain ⟨node, isNode, _⟩ := form?_eq_some.mp found
  have below := tidy.below (mem_children_of_form found (form.nestedParts_subset part mem))
  have inside := Nat.lt_trans below (lt_size isNode)
  exact within_congr walk tidy level inside (Nat.lt_succ_of_lt inside)

end Bounds

variable {form : Form}

lemma patternParts_eq (tidy : t.Tidy opens closes) (found : t.form? n = some form) :
    t.patternParts n = n :: form.nestedParts.flatMap t.patternParts := by
  rw [patternParts, patternPartsWithin_succ _ found]
  congr 1
  refine flatMap_congr fun part mem => within_part t.patternPartsWithin tidy
    (fun {_ _ n} same => ?_) found mem
  cases found : t.form? n with
  | none => simp [patternPartsWithin, found]
  | some form =>
    rw [patternPartsWithin_succ _ found, patternPartsWithin_succ _ found,
      flatMap_congr (same form found)]

lemma patternExpressions_eq (tidy : t.Tidy opens closes) (found : t.form? n = some form) :
    t.patternExpressions n =
      form.ownExpressions n ++ form.nestedParts.flatMap t.patternExpressions := by
  unfold patternExpressions
  rw [patternParts_eq tidy found, flatMap_cons, flatMap_assoc]
  congr 1
  rw [found]
  cases form with
  | bindingProperty key computed target => cases key <;> cases computed <;> rfl
  | _ => simp [Form.ownExpressions, Form.isPattern, Form.isObjectPattern, Form.isArrayPattern]

def patternDepthWithin (t : Table) : Nat → NodeId → Nat
  | 0, _ => 0
  | bound + 1, n =>
    match t.form? n with
    | none => 0
    | some form =>
      (form.nestedParts.map (t.patternDepthWithin bound)).foldr max 0 +
        if form.isPattern then 1 else 0

/-- How many levels of patterns there are from a node of a pattern on, itself included. -/
def patternDepth (t : Table) (n : NodeId) : Nat := t.patternDepthWithin (t.size + 1) n

lemma patternDepthWithin_succ (bound : Nat) (found : t.form? n = some form) :
    t.patternDepthWithin (bound + 1) n =
      (form.nestedParts.map (t.patternDepthWithin bound)).foldr max 0 +
        if form.isPattern then 1 else 0 := by
  rw [patternDepthWithin, found]

lemma patternDepth_eq (tidy : t.Tidy opens closes) (found : t.form? n = some form) :
    t.patternDepth n = (form.nestedParts.map t.patternDepth).foldr max 0 +
      if form.isPattern then 1 else 0 := by
  rw [patternDepth, patternDepthWithin_succ _ found]
  congr 2
  refine map_congr_left fun part mem => within_part t.patternDepthWithin tidy
    (fun {_ _ n} same => ?_) found mem
  cases found : t.form? n with
  | none => simp [patternDepthWithin, found]
  | some form =>
    rw [patternDepthWithin_succ _ found, patternDepthWithin_succ _ found,
      map_congr_left (same form found)]

/-- A part of a pattern other than the pattern itself is the part of another one. -/
lemma mem_patternParts_parent (tidy : t.Tidy opens closes) (part : m ∈ t.patternParts n)
    (other : m ≠ n) : ∃ parent form, t.parent? m = some parent ∧ t.form? parent = some form ∧
      m ∈ form.nestedParts := by
  induction n using Nat.strongRecOn with
  | _ n ih =>
    cases found : t.form? n with
    | none => simp [patternParts, patternPartsWithin, found] at part
    | some form =>
      rw [patternParts_eq tidy found, mem_cons, mem_flatMap] at part
      obtain ⟨inner, isInner, part⟩ := part.resolve_left other
      have child := mem_children_of_form found (form.nestedParts_subset inner isInner)
      by_cases same : m = inner
      · subst same
        exact ⟨n, form, tidy.parent?_of_mem child, found, isInner⟩
      · exact ih inner (tidy.below child) part same

/-- Replacing each node by nodes within it. -/
lemma Laid.flatMap {lo hi : Nat} {ns : List NodeId} {f : NodeId → List NodeId}
    (laid : t.Laid lo ns hi)
    (inner : ∀ n ∈ ns, ∀ lo hi, t.Laid lo [n] hi → t.Laid lo (f n) hi) :
    t.Laid lo (ns.flatMap f) hi := by
  induction ns generalizing lo with
  | nil => exact laid
  | cons n later ih =>
    obtain ⟨node, found, before, wide, rest⟩ := laid
    have first : t.Laid lo (f n) node.stop :=
      inner n (by simp) lo node.stop ⟨node, found, before, wide, le_rfl⟩
    exact first.append (ih rest fun m mem => inner m (by simp [mem])) le_rfl

end Table

namespace Role

/-- The roles of the parts of patterns. -/
def inPattern : Role → Bool
  | target _ => true
  | bindingProperty _ => true
  | last _ => true
  | _ => false

/-- No pattern plays the role, and no part of one. -/
def isPlain : Role → Bool
  | loopHead => false
  | role => !role.inPattern

lemma plain_of_slots {role : Role} {form : Form} {parts : List (Role × NodeId)}
    (plain : role.isPlain) (known : role.slots form = some parts) : form.isPatternPart = false := by
  cases form <;> first
    | rfl
    | cases role <;> first | (cases plain; done) | cases known

end Role

/-- What a node is made of that plays a role in a pattern. -/
inductive PatternShape (t : Table) (n : NodeId) (form : Form) : Prop where
  | leaf (name : String) (named : form = .identifier name)
  | reference (own : form.ownExpressions n = [n]) (simple : Fits t .simple n)
    (plain : form.isPatternPart = false) (nested : form.nestedParts = [])
  | compound (isPart : form.isPatternPart = true)
    (ordered : (form.ownExpressions n ++ form.nestedParts).Sublist form.children)
    (nested : ∀ m ∈ form.nestedParts, ∃ role, role.inPattern ∧ Fits t role m)
    (own : ∀ e ∈ form.ownExpressions n, Fits t .expression e)
    (keys : ∀ m ∈ form.children, m ∈ form.ownExpressions n ++ form.nestedParts ∨
      Fits t .key m)

lemma Fits.word_target {t : Table} {n : NodeId} (fits : Fits t .word n) :
    Fits t (.target true) n :=
  fits.as fun {form _} _ slots => by cases form <;> first | exact slots | cases slots

lemma Fits.patternShape_of_target {t : Table} {n : NodeId} (declared : Bool) {form : Form}
    {slots : List (Role × NodeId)} (found : t.form? n = some form)
    (known : Role.targetSlots declared form = some slots)
    (inner : ∀ part ∈ slots, Fits t part.1 part.2) : PatternShape t n form := by
  unfold Role.targetSlots at known
  split at known
  · exact .leaf _ rfl
  · cases known
    refine .compound rfl (by simp [Form.ownExpressions, Form.nestedParts, Form.children])
      (fun m mem => ⟨.bindingProperty declared, rfl, ?_⟩) (by simp [Form.ownExpressions])
      (fun m mem => .inl mem)
    exact inner (.bindingProperty declared, m) (mem_map_of_mem mem)
  · rename_i elements
    cases known
    refine .compound rfl (by simp [Form.ownExpressions, Form.nestedParts, Form.children])
      (fun m mem => ?_) (by simp [Form.ownExpressions])
      (fun m mem => .inl mem)
    have mem : m ∈ (Role.items declared elements).map Prod.snd := by
      rw [Role.map_items]
      exact mem
    obtain ⟨part, isPart, rfl⟩ := mem_map.mp mem
    refine ⟨part.1, ?_, inner part isPart⟩
    rcases (Role.mem_items isPart).2 with role | role <;> rw [role] <;> rfl
  · split at known
    · cases known
    · have simple : Fits t .simple n := .mk found known inner
      unfold Role.simpleSlots at known
      split at known
      · exact .leaf _ rfl
      · exact .reference rfl simple rfl rfl
      · exact .reference rfl simple rfl rfl
      · exact .reference rfl simple rfl rfl
      · cases known

lemma Fits.patternShape {t : Table} {role : Role} {n : NodeId} (fits : Fits t role n)
    (inPattern : role.inPattern) {form : Form} (found : t.form? n = some form) :
    PatternShape t n form := by
  obtain ⟨slots, known, inner⟩ := fits.parts found
  cases role with
  | target declared => exact patternShape_of_target declared found known inner
  | bindingProperty declared =>
    cases form with
    | bindingProperty key computed left =>
      cases key with
      | none =>
        cases computed with
        | true => cases known
        | false =>
          cases known
          refine .compound rfl (.refl _) (fun m mem => ⟨.target true, rfl, ?_⟩) (by nofun)
            (fun m mem => .inl mem)
          obtain rfl : m = left := mem_singleton.mp mem
          exact (inner (.plainWord, m) (by simp)).word_of_plain.word_target
      | some key =>
        cases known
        have target : ∀ m ∈ [left], ∃ role : Role, role.inPattern ∧ Fits t role m := by
          intro m mem
          obtain rfl : m = left := mem_singleton.mp mem
          exact ⟨.target declared, rfl, inner (.target declared, m) (by simp)⟩
        have isKey := inner (.ofKey computed, key) (by simp)
        cases computed with
        | true =>
          refine .compound rfl (.refl _) target (fun e mem => ?_) (fun m mem => .inl mem)
          obtain rfl : e = key := mem_singleton.mp mem
          exact isKey
        | false =>
          refine .compound rfl (sublist_cons_self key [left]) target (by nofun)
            (fun m mem => ?_)
          rcases mem_cons.mp mem with rfl | mem
          · exact .inr isKey
          · exact .inl mem
    | _ => cases known
  | last declared =>
    cases form with
    | restElement left =>
      cases known
      refine .compound rfl (.refl _) (fun m mem => ⟨.target declared, rfl, ?_⟩) (by nofun)
        (fun m mem => .inl mem)
      obtain rfl : m = left := mem_singleton.mp mem
      exact inner (.target declared, m) (by simp)
    | _ => exact patternShape_of_target declared found known inner
  | _ => cases inPattern

namespace Table

/-- A node that the walk of the pass may come to: it plays a role and is no part of a pattern. -/
structure Walkable (t : Table) (n : NodeId) : Prop where
  fits : ∃ role, Fits t role n
  plain : ∀ {form}, t.form? n = some form → form.isPatternPart = false

variable {t : Table} {opens closes : Nat → Prop} {n m : NodeId}

lemma isPattern_of_form {form : Form} (found : t.form? n = some form) :
    t.isPattern n = form.isPattern := by simp [isPattern, found]

lemma Walkable.not_isPattern (walkable : t.Walkable n) : t.isPattern n = false := by
  cases found : t.form? n with
  | none => simp [isPattern, found]
  | some form =>
    rw [isPattern_of_form found]
    have := walkable.plain found
    cases form <;> first | rfl | cases this

lemma Laid.sublist {lo hi : Nat} {ns ms : List NodeId} (laid : t.Laid lo ns hi)
    (sublist : ms.Sublist ns) : t.Laid lo ms hi := by
  induction sublist generalizing lo with
  | slnil => exact laid
  | cons n _ ih =>
    obtain ⟨node, found, before, wide, rest⟩ := laid
    exact (ih rest).mono (by omega) le_rfl
  | cons_cons n _ ih =>
    obtain ⟨node, found, before, wide, rest⟩ := laid
    exact ⟨node, found, before, wide, ih rest⟩

lemma Laid.split {lo hi : Nat} {ns ms : List NodeId} (laid : t.Laid lo (ns ++ ms) hi) :
    ∃ middle, t.Laid lo ns middle ∧ t.Laid middle ms hi := by
  induction ns generalizing lo with
  | nil => exact ⟨lo, le_rfl, laid⟩
  | cons n later ih =>
    obtain ⟨node, found, before, wide, rest⟩ := laid
    obtain ⟨middle, first, second⟩ := ih rest
    exact ⟨middle, ⟨node, found, before, wide, first⟩, second⟩

/-- What lies under a node is the node or lies under one of its parts. -/
lemma Under.cases_part (tidy : t.Tidy opens closes) {top : NodeId} (under : t.Under top n) :
    n = top ∨ ∃ part ∈ t.children top, t.Under part n := by
  induction under with
  | self => exact .inl rfl
  | @part k parent up _ ih =>
    rcases ih with rfl | ⟨part, isPart, inside⟩
    · exact .inr ⟨k, tidy.parents.mp up, .self⟩
    · exact .inr ⟨part, isPart, .part up inside⟩

lemma Under.of_child (tidy : t.Tidy opens closes) {top : NodeId} (isPart : m ∈ t.children top)
    (under : t.Under m n) : t.Under top n :=
  (Under.part (tidy.parent?_of_mem isPart) .self).trans under

end Table

namespace Fits

variable {t : Table} {opens closes : Nat → Prop} {n m : NodeId} {role : Role}

lemma exists_name (fits : Fits t .word n) : ∃ name, t.name? n = some name := by
  obtain ⟨form, _, found, slots, _⟩ := fits.form
  cases form <;> first
    | (cases slots; done)
    | simp [Table.name?, found, Form.name?]

lemma walkable (fits : Fits t role n) (plain : role.isPlain) : t.Walkable n := by
  refine ⟨⟨_, fits⟩, fun {form} found => ?_⟩
  obtain ⟨_, slots, _⟩ := fits.parts found
  exact Role.plain_of_slots plain slots

/-- A word, and a key that is no expression, is a single token. -/
lemma token_leaf (fits : Fits t role n) (token : role = .word ∨ role = .key) :
    t.children n = [] ∧ t.isPattern n = false := by
  obtain ⟨form, _, found, slots, _⟩ := fits.form
  rw [Table.isPattern_of_form found]
  rcases token with rfl | rfl <;> cases form <;> first
    | (cases slots; done)
    | exact ⟨by simp [Table.children, found, Form.children], rfl⟩

variable (tidy : t.Tidy opens closes) (fits : Fits t role n) (inPattern : role.inPattern)

include tidy fits inPattern

/-- The expressions of a pattern stand in the order of the text. -/
lemma expressions_laid {lo hi : Nat} (laid : t.Laid lo [n] hi) :
    t.Laid lo (t.patternExpressions n) hi := by
  induction n using Nat.strongRecOn generalizing role lo hi with
  | _ n ih =>
    obtain ⟨form, _, found, _⟩ := fits.form
    rw [Table.patternExpressions_eq tidy found]
    obtain ⟨node, isNode, before, wide, after⟩ := laid
    have after : node.stop ≤ hi := after
    cases fits.patternShape inPattern found with
    | leaf name named =>
      subst named
      exact before.trans (wide.le.trans after)
    | reference own simple plain nested =>
      rw [own, nested]
      exact ⟨node, isNode, before, wide, after⟩
    | compound isPart ordered nested own keys =>
      obtain ⟨_, isNode', rfl⟩ := Table.form?_eq_some.mp found
      cases isNode.symm.trans isNode'
      have parts := ((tidy.laid isNode).sublist ordered).mono before after
      obtain ⟨middle, first, later⟩ := parts.split
      refine first.append (later.flatMap fun m mem lo hi laid => ?_) le_rfl
      obtain ⟨role', inPattern', fits'⟩ := nested m mem
      have isChild := Table.mem_children_of_form found
        (ordered.subset (mem_append_right _ mem))
      exact ih m (tidy.below isChild) fits' inPattern' laid

/-- Each of them can be walked over. -/
lemma expressions_walkable {e : NodeId} (mem : e ∈ t.patternExpressions n) :
    t.Walkable e ∧ t.Under n e := by
  induction n using Nat.strongRecOn generalizing role with
  | _ n ih =>
    obtain ⟨form, _, found, _⟩ := fits.form
    rw [Table.patternExpressions_eq tidy found, mem_append, mem_flatMap] at mem
    cases fits.patternShape inPattern found with
    | leaf name named =>
      subst named
      simp [Form.ownExpressions, Form.nestedParts] at mem
    | reference own simple plain nested =>
      rw [own, nested] at mem
      obtain rfl : e = n := by simpa using mem
      exact ⟨simple.walkable rfl, .self⟩
    | compound isPart ordered nested own keys =>
      have child {m : NodeId} (part : m ∈ form.ownExpressions n ++ form.nestedParts) :
          m ∈ t.children n := Table.mem_children_of_form found (ordered.subset part)
      rcases mem with mem | ⟨m, isNested, mem⟩
      · exact ⟨(own e mem).walkable rfl,
          .of_child tidy (child (mem_append_left _ mem)) .self⟩
      · obtain ⟨role', inPattern', fits'⟩ := nested m isNested
        have isChild := child (mem_append_right _ isNested)
        obtain ⟨walkable, under⟩ := ih m (tidy.below isChild) fits' inPattern' mem
        exact ⟨walkable, .of_child tidy isChild under⟩

/-- What lies under a pattern belongs to it, lies under one of its expressions or is a single
word. -/
lemma under_cases (under : t.Under n m) :
    (m ∈ t.patternParts n ∧ ∃ form, t.form? m = some form ∧ form.isPatternPart) ∨
      (∃ e ∈ t.patternExpressions n, t.Under e m) ∨
        (t.children m = [] ∧ t.isPattern m = false) := by
  induction n using Nat.strongRecOn generalizing role with
  | _ n ih =>
    obtain ⟨form, _, found, _⟩ := fits.form
    rw [Table.patternParts_eq tidy found, Table.patternExpressions_eq tidy found]
    rcases under.cases_part tidy with rfl | ⟨part, isChild, under⟩
    · cases fits.patternShape inPattern found with
      | leaf name named =>
        subst named
        exact .inr (.inr ⟨by simp [Table.children, found, Form.children],
          by rw [Table.isPattern_of_form found]; rfl⟩)
      | reference own simple plain nested => exact .inr (.inl ⟨m, by simp [own], .self⟩)
      | compound isPart ordered nested own keys => exact .inl ⟨by simp, form, found, isPart⟩
    cases fits.patternShape inPattern found with
    | leaf name named =>
      subst named
      simp [Table.children, found, Form.children] at isChild
    | reference own simple plain nested =>
      exact .inr (.inl ⟨n, by simp [own], .of_child tidy isChild under⟩)
    | compound isPart ordered nested own keys =>
      have isChild' : part ∈ form.children := by simpa [Table.children, found] using isChild
      rcases keys part isChild' with mem | key
      · rcases mem_append.mp mem with mem | mem
        · exact .inr (.inl ⟨part, mem_append_left _ mem, under⟩)
        · obtain ⟨role', inPattern', fits'⟩ := nested part mem
          rcases ih part (tidy.below isChild) fits' inPattern' under with
            ⟨mem', isPart'⟩ | ⟨e, mem', inside⟩ | leaf
          · exact .inl ⟨mem_cons_of_mem _ (mem_flatMap.mpr ⟨part, mem, mem'⟩), isPart'⟩
          · exact .inr (.inl
              ⟨e, mem_append_right _ (mem_flatMap.mpr ⟨part, mem, mem'⟩), inside⟩)
          · exact .inr (.inr leaf)
      · obtain ⟨leaf, plain⟩ := key.token_leaf (.inr rfl)
        rcases under.cases_part tidy with rfl | ⟨inner, isInner, _⟩
        · exact .inr (.inr ⟨leaf, plain⟩)
        · rw [leaf] at isInner
          cases isInner

/-- Every pattern under a pattern belongs to it or lies under one of its expressions. -/
lemma pattern_under_cases (under : t.Under n m) (isPattern : t.isPattern m) :
    m ∈ t.patternParts n ∨ ∃ e ∈ t.patternExpressions n, t.Under e m := by
  rcases under_cases tidy fits inPattern under with ⟨mem, _⟩ | inside | ⟨_, noPattern⟩
  · exact .inl mem
  · exact .inr inside
  · rw [noPattern] at isPattern
    cases isPattern

end Fits

end PatternLowering

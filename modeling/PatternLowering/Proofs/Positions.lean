import PatternLowering.Proofs.Programs
import PatternLowering.Proofs.Walking

/-!
# Where patterns stand

In a tree every pattern is the target of a declarator or an assignment, the head of a loop, a
parameter or part of another pattern. This decides what its position is and whether it can be
lowered. -/

namespace PatternLowering

open List

namespace Fits

variable {t : Table} {opens closes : Nat → Prop} {role : Role} {n m : NodeId}

/-- Each part of a node has a slot in its form and plays the role of the slot. -/
lemma part (fits : Fits t role n) (isPart : m ∈ t.children n) :
    ∃ form parts inner, t.form? n = some form ∧ role.slots form = some parts ∧
      (inner, m) ∈ parts ∧ Fits t inner m := by
  obtain ⟨form, parts, found, slots, fitting⟩ := fits.form
  have mem : m ∈ parts.map Prod.snd := by
    rw [Role.map_slots slots]
    simpa [Table.children, found] using isPart
  obtain ⟨⟨inner, _⟩, isSlot, rfl⟩ := mem_map.mp mem
  exact ⟨form, parts, inner, found, slots, isSlot, fitting _ isSlot⟩

lemma block_form (fits : Fits t .block n) : ∃ statements, t.form? n = some (.block statements) := by
  obtain ⟨form, _, found, slots, _⟩ := fits.form
  cases form <;> first | exact ⟨_, found⟩ | cases slots

lemma under (tidy : t.Tidy opens closes) (fits : Fits t role n) (under : t.Under n m) :
    ∃ inner, Fits t inner m := by
  induction under with
  | self => exact ⟨role, fits⟩
  | part up _ ih =>
    obtain ⟨_, fits⟩ := ih
    obtain ⟨_, _, inner, _, _, _, fits⟩ := fits.part (tidy.parents.mp up)
    exact ⟨inner, fits⟩

end Fits

namespace Role

/-- A pattern may play the role. -/
def takesPattern : Role → Bool
  | loopHead => true
  | target _ => true
  | last _ => true
  | _ => false

variable {parts : List (Role × NodeId)} {inner : Role}

lemma takesPattern_of_slots {role : Role} {form : Form} (isPattern : form.isPattern)
    (known : role.slots form = some parts) : role.takesPattern := by
  cases form <;> first
    | (cases isPattern; done)
    | (cases role <;> first | rfl | cases known)

lemma not_isPlain_of_takesPattern {role : Role} (takes : role.takesPattern) :
    role.isPlain = false := by
  cases role <;> first | rfl | cases takes

/-- The forms with a slot that a pattern can fill, and the slot. -/
inductive Takes (n : NodeId) : Form → Prop where
  | declarator (value : Option NodeId) : Takes n (.declarator n value)
  | assignment (value : NodeId) : Takes n (.assignment n .plain value)
  | loop (isOf : Bool) (subject body : NodeId) : Takes n (.forEach isOf n subject body)
  | function {form : Form} (parts : FunctionParts) (isFunction : form.function? = some parts)
    (mem : n ∈ parts.parameters) : Takes n form
  | property (key : Option NodeId) (computed : Bool) : Takes n (.bindingProperty key computed n)
  | item (elements : List (Option NodeId)) (mem : n ∈ elements.filterMap id) :
    Takes n (.arrayPattern elements)
  | rest : Takes n (.restElement n)

lemma takes_of_functionParts {form : Form} {function : FunctionParts} {n : NodeId}
    (isFunction : form.function? = some function) (mem : (inner, n) ∈ functionParts function)
    (takes : inner.takesPattern) : Takes n form := by
  simp only [functionParts, mem_append, mem_map, mem_singleton, Prod.mk.injEq] at mem
  obtain (⟨_, _, rfl, _⟩ | ⟨_, isParameter, _, rfl⟩) | ⟨rfl, _⟩ := mem
  · cases takes
  · exact .function function isFunction isParameter
  · cases takes

lemma slots_restElement {role : Role} {left : NodeId}
    (known : role.slots (.restElement left) = some parts) :
    ∃ declared, parts = [(target declared, left)] := by
  cases role <;> first
    | exact ⟨_, (Option.some.inj known).symm⟩
    | cases known
    | (rename_i declared; cases declared <;> cases known)

lemma target_of_bindingProperty {role : Role} {key : Option NodeId} {computed : Bool}
    {left n : NodeId} (known : role.slots (.bindingProperty key computed left) = some parts)
    (mem : (inner, n) ∈ parts) (takes : inner.takesPattern) : n = left := by
  have plain : (ofKey computed).takesPattern = false := by cases computed <;> rfl
  obtain ⟨declared, rfl⟩ : ∃ declared, role = bindingProperty declared := by
    cases role <;> first
      | exact ⟨_, rfl⟩
      | cases known
      | (rename_i declared; cases declared <;> cases known)
  cases key with
  | none =>
    cases computed with
    | true => cases known
    | false =>
      cases known
      cases mem_singleton.mp mem
      rfl
  | some key =>
    cases known
    obtain same | mem := mem_cons.mp mem
    · cases same
      rw [plain] at takes
      cases takes
    · cases mem_singleton.mp mem
      rfl

lemma takes_of_slots {role : Role} {form : Form} {n : NodeId} (known : role.slots form = some parts)
    (mem : (inner, n) ∈ parts) (takes : inner.takesPattern) : Takes n form := by
  by_cases targets : form.hasTargets
  · cases form with
    | declarator left value =>
      cases slots_declarator known
      obtain same | mem := mem_cons.mp mem
      · cases same
        exact .declarator value
      · obtain ⟨_, _, same⟩ := mem_map.mp mem
        cases same
        cases takes
    | assignment left op value =>
      cases op with
      | plain =>
        cases slots_assignment known
        simp only [mem_cons, Prod.mk.injEq, not_mem_nil, or_false] at mem
        obtain ⟨rfl, rfl⟩ | ⟨rfl, rfl⟩ := mem
        · exact .assignment value
        · cases takes
      | _ => cases targets
    | forEach isOf head subject body =>
      cases slots_forEach known
      simp only [mem_cons, Prod.mk.injEq, not_mem_nil, or_false] at mem
      obtain ⟨rfl, rfl⟩ | ⟨rfl, rfl⟩ | ⟨rfl, rfl⟩ := mem
      · exact .loop isOf subject body
      · cases takes
      · cases takes
    | functionDeclaration function =>
      cases slots_function rfl known
      exact takes_of_functionParts rfl mem takes
    | functionExpression function =>
      cases slots_function rfl known
      exact takes_of_functionParts rfl mem takes
    | _ => cases targets
  · by_cases isPart : form.isPatternPart
    · cases form with
      | objectPattern properties =>
        obtain ⟨declared, rfl⟩ :
            ∃ declared, parts = properties.map (bindingProperty declared, ·) := by
          cases role <;> first | (cases known; done) | exact ⟨_, (Option.some.inj known).symm⟩
        obtain ⟨_, _, same⟩ := mem_map.mp mem
        cases same
        cases takes
      | arrayPattern elements =>
        obtain ⟨declared, rfl⟩ : ∃ declared, parts = items declared elements := by
          cases role <;> first | (cases known; done) | exact ⟨_, (Option.some.inj known).symm⟩
        exact .item elements (mem_items mem).1
      | bindingProperty key computed left =>
        obtain rfl : n = left := target_of_bindingProperty known mem takes
        exact .property key computed
      | restElement left =>
        obtain ⟨declared, rfl⟩ := slots_restElement known
        cases mem_singleton.mp mem
        exact .rest
      | _ => cases isPart
    · have plain := (slots_suit known _ mem).2 (Bool.eq_false_iff.mpr isPart)
        (Bool.eq_false_iff.mpr targets)
      rw [not_isPlain_of_takesPattern takes] at plain
      cases plain

end Role

namespace Table

variable {t : Table} {n parent : NodeId}

section Position

lemma sitePosition_of_declarator {value : Option NodeId} (up : t.parent? n = some parent)
    (found : t.form? parent = some (.declarator n value)) :
    t.sitePosition n = t.declarationPosition parent value := by
  simp [sitePosition, up, found]

lemma sitePosition_of_assignment {value : NodeId} (up : t.parent? n = some parent)
    (found : t.form? parent = some (.assignment n .plain value)) :
    t.sitePosition n = .assignment parent value := by
  simp [sitePosition, up, found]

/-- Only a declarator stands for the list that it is in. -/
lemma declarationHead?_of_isPattern (isPattern : t.isPattern n) :
    t.declarationHead? n = some n := by
  unfold declarationHead?
  split
  · rename_i found
    rw [isPattern_of_form found] at isPattern
    cases isPattern
  · rfl

lemma sitePosition_of_loop {isOf : Bool} {subject body : NodeId} (isPattern : t.isPattern n)
    (up : t.parent? n = some parent)
    (found : t.form? parent = some (.forEach isOf n subject body)) :
    t.sitePosition n = .loopHead isOf := by
  have head : t.loopHead? n = some isOf := by
    simp [loopHead?, declarationHead?_of_isPattern isPattern, parentForm?, up, found]
  simp [sitePosition, up, found, head]

lemma sitePosition_of_parameter {form : Form} {parts : FunctionParts}
    (up : t.parent? n = some parent) (found : t.form? parent = some form)
    (isFunction : form.function? = some parts) (mem : n ∈ parts.parameters) :
    t.sitePosition n = .parameter := by
  have isParameter : t.isParameter n := by
    simp [Table.isParameter, parentForm?, up, found, isFunction, mem]
  cases form <;> first
    | (cases isFunction; done)
    | simp [sitePosition, up, found, isParameter]

lemma place?_of_loop {isOf : Bool} {subject body : NodeId} (isPattern : t.isPattern n)
    (up : t.parent? n = some parent)
    (found : t.form? parent = some (.forEach isOf n subject body)) :
    (t.sitePosition n).place? = some (if isOf then .forOf else .forIn) := by
  rw [sitePosition_of_loop isPattern up found]
  cases isOf <;> rfl

lemma place?_of_parameter {form : Form} {parts : FunctionParts} (up : t.parent? n = some parent)
    (found : t.form? parent = some form) (isFunction : form.function? = some parts)
    (mem : n ∈ parts.parameters) : (t.sitePosition n).place? = some .parameters := by
  rw [sitePosition_of_parameter up found isFunction mem]
  rfl

end Position

/-- What is lowered at the target of a declarator. -/
lemma lowerable_of_declarator {value : Option NodeId} {place : Lowerable}
    (isPattern : t.isPattern n) (up : t.parent? n = some parent)
    (found : t.form? parent = some (.declarator n value)) (ok : t.lowerable n = .ok place) :
    place.whole = parent ∧ value = some place.value := by
  simp only [lowerable, isPattern, sitePosition_of_declarator up found, declarationPosition] at ok
  cases head : t.loopHead? parent with
  | some isOf => cases isOf <;> simp [head, SitePosition.place?] at ok
  | none =>
    cases kind : t.declarationKind? parent with
    | none => simp [head, kind, SitePosition.place?] at ok
    | some keyword =>
      cases value with
      | none => simp [head, kind, SitePosition.place?] at ok
      | some value =>
        have same : ⟨.declaration keyword, parent, value⟩ = place := by
          simpa [head, kind, SitePosition.place?] using ok
        subst same
        exact ⟨rfl, rfl⟩

lemma lowerable_of_assignment {value : NodeId} (isPattern : t.isPattern n)
    (up : t.parent? n = some parent) (found : t.form? parent = some (.assignment n .plain value)) :
    t.lowerable n = .ok ⟨.assignment, parent, value⟩ := by
  simp [lowerable, isPattern, sitePosition_of_assignment up found, SitePosition.place?]

lemma lowerable_of_place {place : Place} (isPattern : t.isPattern n)
    (stands : (t.sitePosition n).place? = some place) :
    t.lowerable n = .error (.unsupported place) := by
  simp [lowerable, isPattern, stands]

end Table

namespace Table

variable {t : Table} {opens closes : Nat → Prop} {text : Text} {root n m : NodeId}

lemma mem_patternParts_of_nested (tidy : t.Tidy opens closes) {p : NodeId} {form : Form}
    (found : t.form? p = some form) (nested : n ∈ form.nestedParts) (part : m ∈ t.patternParts n) :
    m ∈ t.patternParts p := by
  rw [patternParts_eq tidy found]
  exact mem_cons_of_mem _ (mem_flatMap.mpr ⟨n, nested, part⟩)

lemma mem_patternParts_self (tidy : t.Tidy opens closes) (isPattern : t.isPattern n) :
    n ∈ t.patternParts n := by
  cases found : t.form? n with
  | none => simp [Table.isPattern, found] at isPattern
  | some form => simp [patternParts_eq tidy found]

namespace Tree

variable (tree : t.Tree text root)

include tree

lemma under_root (inside : m < t.size) : t.Under root m := by
  -- Each parent is nearer to the root.
  induction gap : root - m using Nat.strongRecOn generalizing m with
  | _ _ ih =>
    have below : m ≤ root := Nat.le_of_lt_succ (inside.trans_eq tree.last)
    rcases Nat.lt_or_eq_of_le below with below | rfl
    · obtain ⟨parent, up⟩ := tree.rooted below
      have closer := Nat.sub_lt_sub_left below (tree.tidy.lt_parent up)
      exact .part up (ih _ (gap ▸ closer) (tree.tidy.parent_lt_size up) rfl)
    · exact .self

lemma form_root {form : Form} (found : t.form? root = some form) :
    ∃ statements, form = .program statements := by
  obtain ⟨_, slots, _⟩ := tree.fits.parts found
  cases form <;> first | exact ⟨_, rfl⟩ | cases slots

/-- Each node but the root fills a slot of its parent. -/
lemma slot {form : Form} (found : t.form? m = some form)
    (other : ∀ statements, form ≠ .program statements) :
    ∃ parent outer, ∃ role inner : Role, ∃ parts slots,
      t.parent? m = some parent ∧ t.form? parent = some outer ∧
      role.slots outer = some parts ∧ (inner, m) ∈ parts ∧ inner.slots form = some slots := by
  obtain ⟨node, isNode, _⟩ := form?_eq_some.mp found
  have below : m ≤ root := Nat.le_of_lt_succ ((lt_size isNode).trans_eq tree.last)
  rcases Nat.lt_or_eq_of_le below with below | rfl
  · obtain ⟨parent, up⟩ := tree.rooted below
    obtain ⟨role, fits⟩ := tree.fits.under tree.tidy
      (tree.under_root (tree.tidy.parent_lt_size up))
    obtain ⟨outer, parts, inner, found', known, mem, fits'⟩ := fits.part (tree.tidy.parents.mp up)
    obtain ⟨slots, filled, _⟩ := fits'.parts found
    exact ⟨parent, outer, role, inner, parts, slots, up, found', known, mem, filled⟩
  · obtain ⟨statements, rfl⟩ := tree.form_root found
    exact absurd rfl (other statements)

/-- Where a pattern stands. -/
lemma takes (isPattern : t.isPattern n) :
    ∃ parent form, t.parent? n = some parent ∧ t.form? parent = some form ∧ Role.Takes n form := by
  cases found : t.form? n with
  | none => simp [Table.isPattern, found] at isPattern
  | some form =>
    rw [isPattern_of_form found] at isPattern
    obtain ⟨parent, outer, role, inner, parts, slots, up, found', known, mem, filled⟩ :=
      tree.slot found (by rintro _ rfl; cases isPattern)
    exact ⟨parent, outer, up, found',
      Role.takes_of_slots known mem (Role.takesPattern_of_slots isPattern filled)⟩

/-- Declarators stand in lists of declarations. -/
lemma list_of_declarator {left : NodeId} {value : Option NodeId}
    (found : t.form? m = some (.declarator left value)) :
    ∃ parent kind declarators, t.parent? m = some parent ∧
      t.form? parent = some (.declarationList kind declarators) := by
  obtain ⟨parent, outer, role, inner, parts, slots, up, found', known, mem, filled⟩ :=
    tree.slot found (by nofun)
  have isDeclarator : inner = .declarator := by
    cases inner <;> first
      | rfl
      | cases filled
      | (rename_i declared; cases declared <;> cases filled)
  have played := (Role.slots_suit known _ mem).1
  rw [isDeclarator] at played
  cases outer <;> first
    | (cases played; done)
    | exact ⟨parent, _, _, up, found'⟩

/-- The parts of patterns that are no patterns themselves stand in patterns. -/
lemma pattern_of_part {form : Form} (found : t.form? m = some form) (isPart : form.isPatternPart)
    (other : form.isPattern = false) :
    ∃ p outer, t.parent? m = some p ∧ t.form? p = some outer ∧ outer.isPattern ∧
      m ∈ outer.nestedParts := by
  obtain ⟨p, outer, role, inner, parts, slots, up, found', known, mem, filled⟩ :=
    tree.slot found (by rintro _ rfl; cases isPart)
  have isChild : m ∈ outer.children := by
    rw [← Role.map_slots known]
    exact mem_map_of_mem (f := Prod.snd) mem
  have played := (Role.slots_suit known _ mem).1
  refine ⟨p, outer, up, found', ?_⟩
  have roles :
      (∃ declared, inner = .bindingProperty declared) ∨ ∃ declared, inner = .last declared := by
    cases form <;> first
      | (cases isPart; done)
      | (cases other; done)
      | skip
    all_goals cases inner <;> first
      | exact .inl ⟨_, rfl⟩
      | exact .inr ⟨_, rfl⟩
      | cases filled
      | (rename_i declared; cases declared <;> cases filled)
  rcases roles with ⟨declared, rfl⟩ | ⟨declared, rfl⟩
  · cases outer <;> first
      | (cases played; done)
      | exact ⟨rfl, isChild⟩
  · cases outer <;> first
      | (cases played; done)
      | exact ⟨rfl, isChild⟩

end Tree

end Table

namespace Table

/-- The node is the head of a loop over the items of something, or is declared there. -/
def InLoopHead (t : Table) (n : NodeId) : Prop :=
  ∃ loop isOf head subject body, t.form? loop = some (.forEach isOf head subject body) ∧
    (head = n ∨ ∃ declarator ∈ t.children head, ∃ value,
      t.form? declarator = some (.declarator n value))

/-- The node is a parameter of a function. -/
def InParameters (t : Table) (n : NodeId) : Prop :=
  ∃ function form parts, t.form? function = some form ∧ form.function? = some parts ∧
    n ∈ parts.parameters

/-- The node is declared without a value. -/
def Uninitialized (t : Table) (n : NodeId) : Prop :=
  ∃ declarator, t.form? declarator = some (.declarator n none)

/-- What the position of a site comes to. -/
inductive Verdict (t : Table) (n : NodeId) : Prop where
  | unsupported (place : Place) (stands : t.InLoopHead n ∨ t.InParameters n)
    (refused : t.lowerable n = .error (.unsupported place))
  | uninitialized (elsewhere : ¬ (t.InLoopHead n ∨ t.InParameters n)) (missing : t.Uninitialized n)
    (refused : t.lowerable n = .error .missingInitializer)
  | lowerable (place : Lowerable) (elsewhere : ¬ (t.InLoopHead n ∨ t.InParameters n))
    (initialized : ¬ t.Uninitialized n) (ok : t.lowerable n = .ok place)

variable {t : Table} {opens closes : Nat → Prop} {text : Text} {root n parent : NodeId}

section Parents

variable (tidy : t.Tidy opens closes) {form : Form} (up : t.parent? n = some parent)
  (found : t.form? parent = some form)

include tidy up found

lemma form_of_part {p : NodeId} {form' : Form} (found' : t.form? p = some form')
    (mem : n ∈ form'.children) : p = parent ∧ form' = form := by
  obtain rfl : p = parent :=
    Option.some.inj ((tidy.parent?_of_mem (mem_children_of_form found' mem)).symm.trans up)
  exact ⟨rfl, Option.some.inj (found'.symm.trans found)⟩

lemma not_inParameters (plain : form.function? = none) : ¬ t.InParameters n := by
  rintro ⟨function, form', parts, found', isFunction, mem⟩
  have isPart : n ∈ form'.children := by
    cases form' <;> cases isFunction <;> simp [Form.children, FunctionParts.children, mem]
  obtain ⟨_, rfl⟩ := form_of_part tidy up found found' isPart
  cases plain.symm.trans isFunction

lemma not_uninitialized (other : ∀ target, form ≠ .declarator target none) :
    ¬ t.Uninitialized n := by
  rintro ⟨declarator, found'⟩
  obtain ⟨_, rfl⟩ := form_of_part tidy up found found' (by simp [Form.children])
  exact other n rfl

/-- A site in the head of a loop is the head or is declared in it. -/
lemma inLoopHead_cases (inHead : t.InLoopHead n) :
    (∃ isOf subject body, form = .forEach isOf n subject body) ∨
      ∃ value list loop isOf subject body, form = .declarator n value ∧
        t.parent? parent = some list ∧ t.parent? list = some loop ∧
        t.form? loop = some (.forEach isOf list subject body) := by
  obtain ⟨loop, isOf, head, subject, body, isLoop, rfl | ⟨declarator, mem, value, found'⟩⟩ := inHead
  · obtain ⟨_, rfl⟩ := form_of_part tidy up found isLoop (by simp [Form.children])
    exact .inl ⟨isOf, subject, body, rfl⟩
  · obtain ⟨rfl, rfl⟩ := form_of_part tidy up found found' (by simp [Form.children])
    refine .inr ⟨value, head, loop, isOf, subject, body, rfl, tidy.parent?_of_mem mem, ?_, isLoop⟩
    exact tidy.parent?_of_mem (mem_children_of_form isLoop (by simp [Form.children]))

end Parents

namespace Tree

variable (tree : t.Tree text root)

include tree

lemma verdict_of_declarator {value : Option NodeId} (isPattern : t.isPattern n)
    (up : t.parent? n = some parent) (found : t.form? parent = some (.declarator n value)) :
    t.Verdict n := by
  have tidy := tree.tidy
  obtain ⟨list, kind, declarators, upList, isList⟩ := tree.list_of_declarator found
  have position := sitePosition_of_declarator up found
  have head : t.declarationHead? parent = some list := by
    simp only [declarationHead?, found]
    exact upList
  cases isHead : t.loopHead? parent with
  | some isOf =>
    have stands : t.InLoopHead n := by
      simp only [loopHead?, head] at isHead
      split at isHead
      · rename_i loopForm
        split at isHead
        · rename_i same
          obtain ⟨loop, _, isLoop⟩ := Option.bind_eq_some_iff.mp loopForm
          exact ⟨loop, _, _, _, _, isLoop,
            .inr ⟨parent, same ▸ tidy.parents.mp upList, value, found⟩⟩
        · cases isHead
      · cases isHead
    have place : (t.sitePosition n).place? = some (if isOf then .forOf else .forIn) := by
      rw [position, declarationPosition, isHead]
      cases isOf <;> rfl
    exact .unsupported _ (.inl stands) (lowerable_of_place isPattern place)
  | none =>
    have elsewhere : ¬ (t.InLoopHead n ∨ t.InParameters n) := by
      rintro (inHead | inParameters)
      · obtain ⟨_, _, _, same⟩ |
            ⟨_, list', loop, isOf, subject, body, _, upList', upLoop, isLoop⟩ :=
          inLoopHead_cases tidy up found inHead
        · cases same
        · cases upList.symm.trans upList'
          simp [loopHead?, head, parentForm?, upLoop, isLoop] at isHead
      · exact not_inParameters tidy up found rfl inParameters
    have declared : t.declarationKind? parent = some kind := by
      simp [declarationKind?, parentForm?, upList, isList]
    cases value with
    | none =>
      refine .uninitialized elsewhere ⟨parent, found⟩ ?_
      simp [lowerable, isPattern, position, declarationPosition, isHead, declared,
        SitePosition.place?]
    | some value =>
      refine .lowerable ⟨.declaration kind, parent, value⟩ elsewhere
        (not_uninitialized tidy up found (by nofun)) ?_
      simp [lowerable, isPattern, position, declarationPosition, isHead, declared,
        SitePosition.place?]

/-- The verdict on a site depends on its place alone. -/
lemma verdict (site : t.IsSite n) : t.Verdict n := by
  have tidy := tree.tidy
  obtain ⟨parent, form, up, found, takes⟩ := tree.takes site.1
  have nowhere {p : NodeId} (isPattern : t.isPattern p) (below : n < p)
      (mem : n ∈ t.patternParts p) : t.Verdict n :=
    absurd (site.2 p isPattern mem) below.ne
  have self := mem_patternParts_self tidy site.1
  have part {q : NodeId} {form : Form} (upQ : t.parent? n = some q) (foundQ : t.form? q = some form)
      (isPart : form.isPatternPart) (noPattern : form.isPattern = false)
      (nested : n ∈ form.nestedParts) : t.Verdict n := by
    obtain ⟨p, outer, upP, foundP, isPattern, nested'⟩ :=
      tree.pattern_of_part foundQ isPart noPattern
    refine nowhere (isPattern_of_form foundP ▸ isPattern)
      ((tidy.lt_parent upQ).trans (tidy.lt_parent upP)) ?_
    exact mem_patternParts_of_nested tidy foundP nested'
      (mem_patternParts_of_nested tidy foundQ nested self)
  cases takes with
  | declarator value => exact tree.verdict_of_declarator site.1 up found
  | assignment value =>
    refine .lowerable _ ?_ (not_uninitialized tidy up found (by nofun))
      (lowerable_of_assignment site.1 up found)
    rintro (inHead | inParameters)
    · obtain ⟨_, _, _, same⟩ | ⟨_, _, _, _, _, _, same, _⟩ := inLoopHead_cases tidy up found inHead
      · cases same
      · cases same
    · exact not_inParameters tidy up found rfl inParameters
  | loop isOf subject body =>
    exact .unsupported _ (.inl ⟨parent, isOf, n, subject, body, found, .inl rfl⟩)
      (lowerable_of_place site.1 (place?_of_loop site.1 up found))
  | function parts isFunction mem =>
    exact .unsupported _ (.inr ⟨parent, form, parts, found, isFunction, mem⟩)
      (lowerable_of_place site.1 (place?_of_parameter up found isFunction mem))
  | property key computed => exact part up found rfl rfl (by simp [Form.nestedParts])
  | item elements mem =>
    exact nowhere (isPattern_of_form found ▸ rfl) (tidy.lt_parent up)
      (mem_patternParts_of_nested tidy found mem self)
  | rest => exact part up found rfl rfl (by simp [Form.nestedParts])

/-- Every pattern has a position that is known. -/
lemma sitePosition_ne_other (isPattern : t.isPattern n) : t.sitePosition n ≠ .other := by
  obtain ⟨parent, form, up, found, takes⟩ := tree.takes isPattern
  cases takes with
  | declarator value =>
    obtain ⟨list, kind, declarators, upList, isList⟩ := tree.list_of_declarator found
    have declared : t.declarationKind? parent = some kind := by
      simp [declarationKind?, parentForm?, upList, isList]
    rw [sitePosition_of_declarator up found, declarationPosition, declared]
    split <;> nofun
  | assignment value => rw [sitePosition_of_assignment up found]; nofun
  | loop isOf subject body => rw [sitePosition_of_loop isPattern up found]; nofun
  | function parts isFunction mem => rw [sitePosition_of_parameter up found isFunction mem]; nofun
  | property key computed => simp [sitePosition, up, found]
  | item elements mem => simp [sitePosition, up, found]
  | rest => simp [sitePosition, up, found]

end Tree

end Table

namespace Table

variable {t : Table} {text : Text} {root n : NodeId} {place : Lowerable}

lemma isPattern_of_lowerable (ok : t.lowerable n = .ok place) : t.isPattern n := by
  by_contra noPattern
  rw [lowerable, Bool.eq_false_iff.mpr noPattern] at ok
  cases ok

namespace Tree

variable (tree : t.Tree text root)

include tree

lemma fits_target (isPattern : t.isPattern n) : ∃ declared, Fits t (.target declared) n := by
  cases found : t.form? n with
  | none => simp [Table.isPattern, found] at isPattern
  | some form =>
    obtain ⟨node, isNode, _⟩ := form?_eq_some.mp found
    obtain ⟨role, fits⟩ := tree.fits.under tree.tidy (tree.under_root (lt_size isNode))
    obtain ⟨slots, known, inner⟩ := fits.parts found
    have isPattern' := isPattern
    rw [isPattern_of_form found] at isPattern'
    cases role with
    | loopHead => exact ⟨false, fits.target_of_loopHead isPattern⟩
    | target declared => exact ⟨declared, fits⟩
    | last declared =>
      refine ⟨declared, .mk found ?_ inner⟩
      cases form <;> first | exact known | cases isPattern'
    | _ => cases Role.takesPattern_of_slots isPattern' known

/-- What is replaced is a declarator or an assignment. -/
lemma lowerable_form (ok : t.lowerable n = .ok place) :
    t.form? place.whole = some (.declarator n (some place.value)) ∨
      t.form? place.whole = some (.assignment n .plain place.value) := by
  have isPattern := isPattern_of_lowerable ok
  have refused {place' : Place} (stands : (t.sitePosition n).place? = some place') : False := by
    rw [lowerable_of_place isPattern stands] at ok
    cases ok
  have nested (stands : t.sitePosition n = .nested) : False := by
    simp [lowerable, isPattern, stands, SitePosition.place?] at ok
  obtain ⟨parent, form, up, found, takes⟩ := tree.takes isPattern
  cases takes with
  | declarator value =>
    obtain ⟨rfl, rfl⟩ := lowerable_of_declarator isPattern up found ok
    exact .inl found
  | assignment value =>
    rw [lowerable_of_assignment isPattern up found] at ok
    cases ok
    exact .inr found
  | loop isOf subject body => exact (refused (place?_of_loop isPattern up found)).elim
  | function parts isFunction mem =>
    exact (refused (place?_of_parameter up found isFunction mem)).elim
  | property key computed => exact (nested (by simp [sitePosition, up, found])).elim
  | item elements mem => exact (nested (by simp [sitePosition, up, found])).elim
  | rest => exact (nested (by simp [sitePosition, up, found])).elim

/-- The node that is replaced consists of the pattern and the value. -/
lemma lowerable_parts (ok : t.lowerable n = .ok place) :
    ∃ form, t.form? place.whole = some form ∧ form.children = [n, place.value] := by
  rcases tree.lowerable_form ok with found | found
  · exact ⟨_, found, rfl⟩
  · exact ⟨_, found, rfl⟩

end Tree

end Table

end PatternLowering

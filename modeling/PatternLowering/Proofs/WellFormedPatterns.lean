import PatternLowering.Proofs.ParseTrees
import PatternLowering.Proofs.Positions

/-!
# Well-formed patterns

A pattern is read as one after the keyword of a declaration and in the parameters of a function. To
the left of an assignment and in the head of a loop it is read as a literal first and recast
afterwards. The nodes that come out obey the same rules in both cases: what a property, an element
or a rest element binds is a nested pattern or a simple target, properties stand in object patterns
only, a rest element is the last one of an array pattern, and no part of a literal is left over.
-/

namespace PatternLowering

open List

/-- The forms that only the parts of array and object literals have. -/
def Form.isLiteralPart : Form → Bool
  | .spread _ => true
  | .property _ _ _ => true
  | .accessor _ _ _ _ => true
  | .shorthand _ => true
  | _ => false

namespace Table

/-- A name or a member of an object, in parentheses or not. -/
inductive IsReference (t : Table) : NodeId → Prop where
  | name {n : NodeId} {name : String} (found : t.form? n = some (.identifier name)) :
    IsReference t n
  | member {n object name : NodeId} (found : t.form? n = some (.member object name)) :
    IsReference t n
  | element {n object index : NodeId} (found : t.form? n = some (.element object index)) :
    IsReference t n
  | parenthesized {n inside : NodeId} (found : t.form? n = some (.parenthesized inside))
    (inner : IsReference t inside) : IsReference t n

/-- What a pattern binds where no other one is nested. Only names can be declared. -/
def IsLeaf (t : Table) (declared : Bool) (n : NodeId) : Prop :=
  if declared then ∃ name, t.form? n = some (.identifier name) else t.IsReference n

/-- The node stands where a pattern may stand. It is `declared` in declarations, also those in the
head of a loop, and in parameters. Elsewhere it is assigned to. -/
inductive Binds (t : Table) : Bool → NodeId → Prop where
  | declarator {p n : NodeId} {value : Option NodeId}
    (found : t.form? p = some (.declarator n value)) : Binds t true n
  | parameter {p n : NodeId} {form : Form} {function : FunctionParts}
    (found : t.form? p = some form) (isFunction : form.function? = some function)
    (mem : n ∈ function.parameters) : Binds t true n
  | assignment {p n value : NodeId} (found : t.form? p = some (.assignment n .plain value)) :
    Binds t false n
  | loopHead {p n subject body : NodeId} {isOf : Bool}
    (found : t.form? p = some (.forEach isOf n subject body))
    (undeclared : ∀ kind declarators, t.form? n ≠ some (.declarationList kind declarators)) :
    Binds t false n
  | property {declared computed : Bool} {outer p n : NodeId} {properties : List NodeId}
    {key : Option NodeId} (within : Binds t declared outer)
    (found : t.form? outer = some (.objectPattern properties)) (mem : p ∈ properties)
    (isProperty : t.form? p = some (.bindingProperty key computed n)) : Binds t declared n
  | element {declared : Bool} {outer n : NodeId} {elements : List (Option NodeId)}
    (within : Binds t declared outer) (found : t.form? outer = some (.arrayPattern elements))
    (mem : some n ∈ elements) (noRest : ∀ inside, t.form? n ≠ some (.restElement inside)) :
    Binds t declared n
  | rest {declared : Bool} {outer r n : NodeId} {elements : List (Option NodeId)}
    (within : Binds t declared outer) (found : t.form? outer = some (.arrayPattern elements))
    (mem : some r ∈ elements) (isRest : t.form? r = some (.restElement n)) : Binds t declared n

/-- How a property of a pattern is named: by the variable itself, which is no keyword then, by a
word, a string or a number, or by a computed key. -/
inductive NamesProperty (t : Table) : Option NodeId → Bool → NodeId → Prop where
  | shorthand {n : NodeId} {name : String} (found : t.form? n = some (.identifier name))
    (plain : Keyword.ofSpelling? name = none) : NamesProperty t none false n
  | word {key n : NodeId} {name : String} (found : t.form? key = some (.identifier name)) :
    NamesProperty t (some key) false n
  | string {key n : NodeId} {value : Option String} (found : t.form? key = some (.string value)) :
    NamesProperty t (some key) false n
  | number {key n : NodeId} {text : String} (found : t.form? key = some (.number text)) :
    NamesProperty t (some key) false n
  | computed {key n : NodeId} {form : Form} (found : t.form? key = some form)
    (plain : form.isPatternPart = false) : NamesProperty t (some key) true n

/-- The rules for patterns. Together with `bound` and the cases of `Binds`, `target` is about every
property, element and rest element. -/
structure PatternsWellFormed (t : Table) : Prop where
  bound {n : NodeId} (isPattern : t.isPattern n) : ∃ declared, t.Binds declared n
  target {declared : Bool} {n : NodeId} (binds : t.Binds declared n) :
    t.isPattern n ∨ t.IsLeaf declared n
  properties {n : NodeId} {properties : List NodeId}
    (found : t.form? n = some (.objectPattern properties)) :
    ∀ p ∈ properties, ∃ key computed left, t.form? p = some (.bindingProperty key computed left)
  property {p left : NodeId} {key : Option NodeId} {computed : Bool}
    (found : t.form? p = some (.bindingProperty key computed left)) :
    t.NamesProperty key computed left ∧ ∃ outer properties, t.parent? p = some outer ∧
      t.form? outer = some (.objectPattern properties) ∧ p ∈ properties
  rest {r inside : NodeId} (found : t.form? r = some (.restElement inside)) :
    ∃ outer before, t.parent? r = some outer ∧
      t.form? outer = some (.arrayPattern (before ++ [some r])) ∧ some r ∉ before
  recast {n m : NodeId} {form inner : Form} (found : t.form? n = some form)
    (nested : m ∈ form.nestedParts) (found' : t.form? m = some inner) :
    inner.isLiteralPart = false

end Table

namespace Role

variable {role : Role} {parts : List (Role × NodeId)}

lemma mem_items_of_mem (declared : Bool) {elements : List (Option NodeId)} {n : NodeId}
    (mem : some n ∈ elements) :
    (target declared, n) ∈ items declared elements ∨ (last declared, n) ∈
      items declared elements := by
  have mem : n ∈ (items declared elements).map Prod.snd := by
    rw [map_items]
    exact mem_filterMap.mpr ⟨some n, mem, rfl⟩
  obtain ⟨⟨role, m⟩, isItem, rfl⟩ := mem_map.mp mem
  obtain ⟨_, same | same⟩ := mem_items isItem
  · exact .inl (same ▸ isItem)
  · exact .inr (same ▸ isItem)

/-- Only the last element plays the role of the last one. -/
lemma append_of_last_mem_items {declared declared' : Bool} {elements : List (Option NodeId)}
    {n : NodeId} (mem : (last declared', n) ∈ items declared elements) :
    ∃ before, elements = before ++ [some n] := by
  induction elements with
  | nil => cases mem
  | cons first later ih =>
    cases first with
    | none =>
      obtain ⟨before, rfl⟩ := ih mem
      exact ⟨none :: before, rfl⟩
    | some m =>
      rcases mem_cons.mp mem with same | mem
      · by_cases empty : later.isEmpty
        · cases List.isEmpty_iff.mp empty
          cases same
          exact ⟨[], rfl⟩
        · rw [if_neg empty] at same
          cases same
      · obtain ⟨before, rfl⟩ := ih mem
        exact ⟨some m :: before, rfl⟩

/-- Parts of literals have no role in patterns. -/
lemma not_isLiteralPart_of_slots {form : Form} (inPattern : role.inPattern)
    (known : role.slots form = some parts) : form.isLiteralPart = false := by
  cases form <;> first
    | rfl
    | cases role <;> first
      | (cases inPattern; done)
      | cases known
      | (rename_i declared; cases declared <;> cases known)

end Role

namespace Fits

variable {t : Table} {declared : Bool} {n p : NodeId}

lemma isReference (fits : Fits t .simple n) : t.IsReference n := by
  generalize isSimple : Role.simple = role at fits
  induction fits with
  | @mk role n form parts found slots inner ih =>
    subst isSimple
    cases form with
    | identifier name => exact .name found
    | member object name => exact .member found
    | element object index => exact .element found
    | parenthesized inside =>
      cases slots
      exact .parenthesized found (ih (.simple, inside) (by simp) rfl)
    | _ => cases slots

lemma isPattern_or_isLeaf (fits : Fits t (.target declared) n) :
    t.isPattern n ∨ t.IsLeaf declared n := by
  obtain ⟨form, parts, found, known, inner⟩ := fits.form
  by_cases isPattern : form.isPattern
  · exact .inl (Table.isPattern_of_form found ▸ isPattern)
  · refine .inr ?_
    cases declared with
    | true =>
      have named : ∃ name, t.form? n = some (.identifier name) := by
        cases form <;> first
          | exact ⟨_, found⟩
          | exact absurd rfl isPattern
          | cases known
      exact named
    | false =>
      have simple : Fits t .simple n := by
        refine .mk found ?_ inner
        cases form <;> first
          | exact known
          | exact absurd rfl isPattern
      exact simple.isReference

lemma target_of_last (fits : Fits t (.last declared) n)
    (noRest : ∀ inside, t.form? n ≠ some (.restElement inside)) : Fits t (.target declared) n :=
  fits.as fun {form _} found known => by
    cases form <;> first
      | exact known
      | exact absurd found (noRest _)

/-- A property of a pattern has a name and binds a target. -/
lemma property_parts {key : Option NodeId} {computed : Bool} {left : NodeId}
    (fits : Fits t (.bindingProperty declared) p)
    (found : t.form? p = some (.bindingProperty key computed left)) :
    t.NamesProperty key computed left ∧ Fits t (.target declared) left := by
  obtain ⟨parts, known, inner⟩ := fits.parts found
  cases key with
  | none =>
    cases computed with
    | true => cases known
    | false =>
      cases known
      have word := inner (.plainWord, left) (by simp)
      obtain ⟨form, _, found, known, _⟩ := word.form
      cases form with
      | identifier name =>
        have plain : Keyword.ofSpelling? name = none := by
          by_contra keyword
          simp [Role.slots, keyword] at known
        exact ⟨.shorthand found plain, .mk found rfl (by simp)⟩
      | _ => cases known
  | some key =>
    cases known
    have isKey := inner (.ofKey computed, key) (by simp)
    refine ⟨?_, inner (.target declared, left) (by simp)⟩
    obtain ⟨form, _, found, known, _⟩ := isKey.form
    cases computed with
    | true => exact .computed found (Role.plain_of_slots rfl known)
    | false =>
      cases form with
      | identifier name => exact .word found
      | string text => exact .string found
      | number text => exact .number found
      | _ => cases known

end Fits

namespace Table.Tree

variable {t : Table} {text : Text} {root n p : NodeId} {declared : Bool} (tree : t.Tree text root)

include tree

/-- Every node plays a role, and so do its parts. -/
lemma slots_of_form {form : Form} (found : t.form? n = some form) :
    ∃ role parts, Role.slots role form = some parts ∧ ∀ part ∈ parts, Fits t part.1 part.2 := by
  obtain ⟨node, isNode, _⟩ := form?_eq_some.mp found
  obtain ⟨role, fits⟩ := tree.fits.under tree.tidy (tree.under_root (lt_size isNode))
  obtain ⟨parts, known, inner⟩ := fits.parts found
  exact ⟨role, parts, known, inner⟩

lemma fits_of_binds (binds : t.Binds declared n) : Fits t (.target declared) n := by
  induction binds with
  | @declarator _ n _ found =>
    obtain ⟨_, _, known, inner⟩ := tree.slots_of_form found
    cases Role.slots_declarator known
    exact inner (.target true, n) (by simp)
  | @parameter _ n _ _ found isFunction mem =>
    obtain ⟨_, _, known, inner⟩ := tree.slots_of_form found
    cases Role.slots_function isFunction known
    exact inner (.target true, n) (by simp [Role.functionParts, mem])
  | @assignment _ n _ found =>
    obtain ⟨_, _, known, inner⟩ := tree.slots_of_form found
    cases Role.slots_assignment known
    exact inner (.target false, n) (by simp)
  | @loopHead _ n _ _ _ found undeclared =>
    obtain ⟨_, _, known, inner⟩ := tree.slots_of_form found
    cases Role.slots_forEach known
    have head : Fits t .loopHead n := inner (.loopHead, n) (by simp)
    exact head.as fun {form _} found known => by
      cases form <;> first
        | exact known
        | exact absurd found (undeclared _ _)
  | @property declared _ _ p _ _ _ _ found mem isProperty ih =>
    obtain ⟨_, known, inner⟩ := ih.parts found
    cases known
    have fits := inner (.bindingProperty declared, p) (mem_map_of_mem mem)
    exact (fits.property_parts isProperty).2
  | @element declared _ n _ _ found mem noRest ih =>
    obtain ⟨_, known, inner⟩ := ih.parts found
    cases known
    rcases Role.mem_items_of_mem declared mem with mem | mem
    · exact inner _ mem
    · exact (inner _ mem).target_of_last noRest
  | @rest declared _ r n _ _ found mem isRest ih =>
    obtain ⟨_, known, inner⟩ := ih.parts found
    cases known
    rcases Role.mem_items_of_mem declared mem with mem | mem
    · obtain ⟨_, known, _⟩ := (inner _ mem).parts isRest
      cases declared <;> cases known
    · obtain ⟨_, known, inner⟩ := (inner _ mem).parts isRest
      cases known
      exact inner (.target declared, n) (by simp)

/-- Properties of patterns stand in object patterns. -/
lemma object_of_property {key : Option NodeId} {computed : Bool} {left : NodeId}
    (found : t.form? p = some (.bindingProperty key computed left)) :
    ∃ outer properties, t.parent? p = some outer ∧
      t.form? outer = some (.objectPattern properties) ∧ p ∈ properties := by
  obtain ⟨outer, form, role, inner, parts, slots, up, found', known, mem, filled⟩ :=
    tree.slot found (by nofun)
  have isProperty : ∃ declared, inner = .bindingProperty declared := by
    cases inner <;> first
      | exact ⟨_, rfl⟩
      | cases filled
      | (rename_i declared; cases declared <;> cases filled)
  obtain ⟨declared, rfl⟩ := isProperty
  have isChild : p ∈ form.children := by
    rw [← Role.map_slots known]
    exact mem_map_of_mem (f := Prod.snd) mem
  have played := (Role.slots_suit known _ mem).1
  cases form with
  | objectPattern properties => exact ⟨outer, properties, up, found', isChild⟩
  | _ => cases played

/-- A rest element is the last element of an array pattern. -/
lemma array_of_rest {r inside : NodeId} (found : t.form? r = some (.restElement inside)) :
    ∃ outer before, t.parent? r = some outer ∧
      t.form? outer = some (.arrayPattern (before ++ [some r])) ∧ some r ∉ before := by
  obtain ⟨outer, form, up, found', isPattern⟩ : ∃ outer form, t.parent? r = some outer ∧
      t.form? outer = some form ∧ form.isPattern ∧ r ∈ form.nestedParts :=
    tree.pattern_of_part found rfl rfl
  obtain ⟨declared, fits⟩ := tree.fits_target (isPattern_of_form found' ▸ isPattern.1)
  obtain ⟨_, known, inner⟩ := fits.parts found'
  have noTarget : ¬ Fits t (.target declared) r := by
    intro fits
    obtain ⟨_, known, _⟩ := fits.parts found
    cases declared <;> cases known
  cases form with
  | objectPattern properties =>
    cases known
    have fits := inner (.bindingProperty declared, r) (mem_map_of_mem isPattern.2)
    obtain ⟨_, known, _⟩ := fits.parts found
    cases known
  | arrayPattern elements =>
    cases known
    have mem : some r ∈ elements := by
      obtain ⟨_, mem, rfl⟩ := mem_filterMap.mp isPattern.2
      exact mem
    rcases Role.mem_items_of_mem declared mem with mem | mem
    · exact absurd (inner _ mem) noTarget
    · obtain ⟨before, rfl⟩ := Role.append_of_last_mem_items mem
      refine ⟨outer, before, up, found', fun again => noTarget (inner (_, r) ?_)⟩
      rw [Role.items_append_singleton]
      exact mem_append_left _ (mem_map_of_mem (mem_filterMap.mpr ⟨_, again, rfl⟩))
  | _ => cases isPattern.1

/-- Every pattern stands where one may stand. -/
lemma binds_of_isPattern (isPattern : t.isPattern n) : ∃ declared, t.Binds declared n := by
  -- Whatever a pattern is part of has a greater number, up to the root.
  induction gap : root - n using Nat.strongRecOn generalizing n with
  | _ _ ih =>
    have outward {p : NodeId} {form : Form} (above : n < p) (found : t.form? p = some form)
        (isPattern : form.isPattern) : ∃ declared, t.Binds declared p := by
      obtain ⟨node, isNode, _⟩ := form?_eq_some.mp found
      have inside : p < root + 1 := (lt_size isNode).trans_eq tree.last
      have below : n < root := Nat.lt_of_lt_of_le above (Nat.le_of_lt_succ inside)
      exact ih _ (gap ▸ Nat.sub_lt_sub_left below above) (isPattern_of_form found ▸ isPattern) rfl
    obtain ⟨parent, form, up, found, takes⟩ := tree.takes isPattern
    have above := tree.tidy.lt_parent up
    cases takes with
    | declarator value => exact ⟨true, .declarator found⟩
    | assignment value => exact ⟨false, .assignment found⟩
    | loop isOf subject body =>
      refine ⟨false, .loopHead found fun kind declarators isList => ?_⟩
      rw [isPattern_of_form isList] at isPattern
      cases isPattern
    | function parts isFunction mem => exact ⟨true, .parameter found isFunction mem⟩
    | property key computed =>
      obtain ⟨outer, properties, upOuter, isObject, mem⟩ := tree.object_of_property found
      obtain ⟨declared, within⟩ := outward (above.trans (tree.tidy.lt_parent upOuter)) isObject rfl
      exact ⟨declared, .property within isObject mem found⟩
    | item elements mem =>
      obtain ⟨declared, within⟩ := outward above found rfl
      obtain ⟨_, mem, rfl⟩ := mem_filterMap.mp mem
      refine ⟨declared, .element within found mem fun inside isRest => ?_⟩
      rw [isPattern_of_form isRest] at isPattern
      cases isPattern
    | rest =>
      obtain ⟨outer, before, upOuter, isArray, _⟩ := tree.array_of_rest found
      obtain ⟨declared, within⟩ := outward (above.trans (tree.tidy.lt_parent upOuter)) isArray rfl
      exact ⟨declared, .rest within isArray (by simp) found⟩

/-- Patterns and their parts play the roles of such. -/
lemma fits_inPattern {form : Form} (found : t.form? n = some form) (isPart : form.isPatternPart) :
    ∃ role, Role.inPattern role ∧ Fits t role n := by
  by_cases isPattern : form.isPattern
  · obtain ⟨declared, fits⟩ := tree.fits_target (isPattern_of_form found ▸ isPattern)
    exact ⟨.target declared, rfl, fits⟩
  · obtain ⟨outer, form', up, found', isPattern', nested⟩ :=
      tree.pattern_of_part found isPart (Bool.eq_false_iff.mpr isPattern)
    obtain ⟨declared, fits⟩ := tree.fits_target (isPattern_of_form found' ▸ isPattern')
    have shape := fits.patternShape rfl found'
    cases shape with
    | leaf name named =>
      subst named
      cases isPattern'
    | reference own simple plain none =>
      rw [none] at nested
      cases nested
    | compound _ _ inner _ _ => exact inner n nested

lemma patternsWellFormed : t.PatternsWellFormed where
  bound := tree.binds_of_isPattern
  target binds := (tree.fits_of_binds binds).isPattern_or_isLeaf
  properties {n properties} found p mem := by
    obtain ⟨declared, fits⟩ := tree.fits_target (n := n) (isPattern_of_form found ▸ rfl)
    obtain ⟨_, known, inner⟩ := fits.parts found
    cases known
    have fits := inner (.bindingProperty declared, p) (mem_map_of_mem mem)
    obtain ⟨form, _, found, known, _⟩ := fits.form
    cases form with
    | bindingProperty key computed left => exact ⟨key, computed, left, found⟩
    | _ => cases known
  property {p left key computed} found := by
    obtain ⟨role, inPattern, fits⟩ := tree.fits_inPattern found rfl
    refine ⟨?_, tree.object_of_property found⟩
    cases role with
    | bindingProperty declared => exact (fits.property_parts found).1
    | target declared =>
      obtain ⟨_, known, _⟩ := fits.parts found
      cases declared <;> cases known
    | last declared =>
      obtain ⟨_, known, _⟩ := fits.parts found
      cases declared <;> cases known
    | _ => cases inPattern
  rest := tree.array_of_rest
  recast {n m form inner} found nested found' := by
    have isPart : form.isPatternPart := by
      cases form <;> first | rfl | cases nested
    obtain ⟨role, inPattern, fits⟩ := tree.fits_inPattern found isPart
    have shape := fits.patternShape inPattern found
    cases shape with
    | leaf name named =>
      subst named
      cases isPart
    | reference _ _ _ none =>
      rw [none] at nested
      cases nested
    | compound _ _ within _ _ =>
      obtain ⟨role, inPattern, fits⟩ := within m nested
      obtain ⟨_, known, _⟩ := fits.parts found'
      exact Role.not_isLiteralPart_of_slots inPattern known

end Table.Tree

attribute [local irreducible] Parsed.ofText

/-- Patterns are well-formed, whichever way they were read. -/
theorem clean_text_has_well_formed_patterns (source : String)
    (clean : (Parsed.ofText source.toList).hasErrors = false) :
    (Parsed.ofText source.toList).table.PatternsWellFormed := by
  have noFaults : (Parsed.ofText source.toList).faults = [] := by
    simpa [Parsed.hasErrors] using clean
  exact (Parsed.tree noFaults).patternsWellFormed

theorem well_formed_patterns_of_a_function :
    (Parsed.ofText "function f({a, 1: [c, , ...d]}) { ({[a]: (c.e), d} = c); }".toList).hasErrors =
      false ∧
      ((Parsed.ofText
        "function f({a, 1: [c, , ...d]}) { ({[a]: (c.e), d} = c); }".toList).table.nodes.filter
          (fun node => node.form.isPattern)).size = 3 ∧
      Table.PatternsWellFormed (Parsed.ofText
        "function f({a, 1: [c, , ...d]}) { ({[a]: (c.e), d} = c); }".toList).table := by
  obtain ⟨clean, three⟩ :
      (Parsed.ofText "function f({a, 1: [c, , ...d]}) { ({[a]: (c.e), d} = c); }".toList).hasErrors
        = false ∧
      ((Parsed.ofText
        "function f({a, 1: [c, , ...d]}) { ({[a]: (c.e), d} = c); }".toList).table.nodes.filter
          (fun node => node.form.isPattern)).size = 3 := by
    decide +kernel
  exact ⟨clean, three, clean_text_has_well_formed_patterns _ clean⟩

end PatternLowering

import PatternLowering.Proofs.Bindings
import PatternLowering.Proofs.Destructuring
import PatternLowering.Proofs.Sites

/-!
# The order of the bindings

The leaves of a pattern are its targets and the patterns in it that have no parts, depth first and
from left to right. A lowered site has one binding for each leaf, in the same order, and an
assignment has one more, which carries its result.
-/

namespace PatternLowering

open List

/-- A place in a pattern at which it ends: a target, or a pattern without parts. -/
inductive Leaf where
  | target (n : NodeId)
  | empty (n : NodeId)
deriving DecidableEq, Repr

namespace Leaf

/-- The variable at the leaf. -/
def name? (t : Table) : Leaf → Option String
  | target n => t.name? n
  | empty _ => none

/-- What the leaf assigns to: a variable, or what is written there. -/
def target? (t : Table) (buffer : EditBuffer) : Leaf → Option Target
  | target n => some (((t.name? n).map .named).getD (.reference (t.textOf buffer n)))
  | empty _ => none

end Leaf

namespace Table

/-- The target of a property. -/
def propertyTarget? (t : Table) (n : NodeId) : Option NodeId :=
  match t.form? n with
  | some (.bindingProperty _ _ target) => some target
  | _ => none

/-- What an item of an array pattern is assigned to. -/
def itemTarget (t : Table) (n : NodeId) : NodeId :=
  match t.form? n with
  | some (.restElement target) => target
  | _ => n

/-- What the parts of a pattern are assigned to. Holes are no parts. -/
def partTargets (t : Table) (n : NodeId) : List NodeId :=
  match t.form? n with
  | some (.objectPattern properties) => properties.filterMap t.propertyTarget?
  | some (.arrayPattern elements) => (elements.filterMap id).map t.itemTarget
  | _ => []

lemma partTargets_object {t : Table} {n : NodeId} {properties : List NodeId}
    (found : t.form? n = some (.objectPattern properties)) :
    t.partTargets n = properties.filterMap t.propertyTarget? := by
  rw [partTargets, found]

lemma partTargets_array {t : Table} {n : NodeId} {elements : List (Option NodeId)}
    (found : t.form? n = some (.arrayPattern elements)) :
    t.partTargets n = (elements.filterMap id).map t.itemTarget := by
  rw [partTargets, found]

/-- The leaves of some targets: one after the other, and in a pattern those of its parts. -/
inductive Leads (t : Table) : List NodeId → List Leaf → Prop where
  | nil : Leads t [] []
  | target {n : NodeId} {later : List NodeId} {leaves : List Leaf} (plain : t.isPattern n = false)
    (rest : Leads t later leaves) : Leads t (n :: later) (.target n :: leaves)
  | empty {n : NodeId} {later : List NodeId} {leaves : List Leaf} (isPattern : t.isPattern n = true)
    (none : t.partTargets n = []) (rest : Leads t later leaves) :
      Leads t (n :: later) (.empty n :: leaves)
  | nested {n : NodeId} {later : List NodeId} {first leaves : List Leaf}
      (isPattern : t.isPattern n = true)
    (some : t.partTargets n ≠ []) (inner : Leads t (t.partTargets n) first)
      (rest : Leads t later leaves) :
    Leads t (n :: later) (first ++ leaves)

variable {t : Table} {buffer : EditBuffer} {opens closes : Nat → Prop} {n : NodeId}
  {ns : List NodeId} {leaves leaves' : List Leaf}

lemma Leads.unique (leads : t.Leads ns leaves) (other : t.Leads ns leaves') : leaves = leaves' := by
  induction leads generalizing leaves' with
  | nil =>
    cases other
    rfl
  | target plain _ ih =>
    cases other with
    | target _ rest => rw [ih rest]
    | empty isPattern => cases plain.symm.trans isPattern
    | nested isPattern => cases plain.symm.trans isPattern
  | empty isPattern none _ ih =>
    cases other with
    | target plain => cases plain.symm.trans isPattern
    | empty _ _ rest => rw [ih rest]
    | nested _ some => exact absurd none some
  | nested isPattern some _ _ ihInner ih =>
    cases other with
    | target plain => cases plain.symm.trans isPattern
    | empty _ none => exact absurd none some
    | nested _ _ inner rest => rw [ihInner inner, ih rest]

/-! ### Names -/

lemma boundNames_eq (tidy : t.Tidy opens closes) {form : Form} (found : t.form? n = some form) :
    t.boundNames n = form.name?.toList ++ form.nestedParts.flatMap t.boundNames := by
  unfold boundNames
  rw [patternParts_eq tidy found, filterMap_cons, filterMap_flatMap]
  have own : t.name? n = form.name? := by rw [name?, found]; rfl
  rw [own]
  cases form.name? <;> rfl

namespace NameWalk

/-- One round takes the name of the topmost node and puts its parts in its place. -/
lemma round_cons {form : Form} (found : t.form? n = some form) (names : List String)
    (stack : List NodeId) :
    round t ⟨names, n :: stack⟩ = ⟨names ++ form.name?.toList, form.nestedParts ++ stack⟩ := by
  have pushed (parts : List NodeId) :
      parts.reverse.foldl (fun s p => p :: s) stack = parts ++ stack := by simp
  cases form <;>
    simp [round, found, Form.name?, Form.nestedParts, filterMap_reverse, pushed]

/-- The rounds for a row of nodes collect their names, whatever lies below them on the stack. -/
lemma rounds_row
    (each : ∀ m ∈ ns, ∀ names stack, (round t)^[(t.patternParts m).length] ⟨names, m :: stack⟩ =
      ⟨names ++ t.boundNames m, stack⟩) (names : List String) (stack : List NodeId) :
    (round t)^[(ns.flatMap t.patternParts).length] ⟨names, ns ++ stack⟩ =
      ⟨names ++ ns.flatMap t.boundNames, stack⟩ := by
  induction ns generalizing names with
  | nil => simp
  | cons m ns ih =>
    rw [flatMap_cons, flatMap_cons, length_append, Nat.add_comm,
      Function.iterate_add_apply, cons_append, each m mem_cons_self,
      ih (fun m' mem => each m' (mem_cons_of_mem _ mem)), append_assoc]

/-- The walk over a pattern takes one round for each of its nodes. -/
lemma rounds_pattern (tidy : t.Tidy opens closes) (known : n < t.size) (names : List String)
    (stack : List NodeId) :
    (round t)^[(t.patternParts n).length] ⟨names, n :: stack⟩ = ⟨names ++ t.boundNames n,
      stack⟩ := by
  induction n using Nat.strongRecOn generalizing names stack with
  | _ n ih =>
    obtain ⟨node, isNode⟩ := lt_size_iff.mp known
    have found := form?_eq_some.mpr ⟨node, isNode, rfl⟩
    rw [patternParts_eq tidy found, length_cons, Function.iterate_succ_apply, round_cons found,
      boundNames_eq tidy found, ← append_assoc]
    refine rounds_row (fun m mem => ?_) _ _
    have below := tidy.below (mem_children_of_form found (node.form.nestedParts_subset m mem))
    exact ih m below (below.trans known)

end NameWalk

/-- A walk with a stack collects the names of a pattern, and then its stack is empty. -/
theorem walk_boundNames (tidy : t.Tidy opens closes) (n : NodeId) :
    ∃ rounds, (NameWalk.round t)^[rounds] ⟨[], [n]⟩ = ⟨t.boundNames n, []⟩ := by
  cases found : t.form? n with
  | none => exact ⟨1, by simp [NameWalk.round, boundNames, patternParts, patternPartsWithin, found]⟩
  | some form =>
    obtain ⟨node, isNode, _⟩ := form?_eq_some.mp found
    exact ⟨_, NameWalk.rounds_pattern tidy (lt_size isNode) [] []⟩

lemma boundNames_of_plain (tidy : t.Tidy opens closes) {form : Form} (found : t.form? n = some form)
    (plain : form.isPatternPart = false) : t.boundNames n = (t.name? n).toList := by
  have alone : form.nestedParts = [] := by cases form <;> first | rfl | cases plain
  rw [boundNames_eq tidy found, alone, name?, found]
  simp

/-- The names of a pattern are those of its parts. -/
lemma boundNames_partTargets (tidy : t.Tidy opens closes) {declared : Bool}
    (fits : Fits t (.target declared) n) (isPattern : t.isPattern n) :
    (∀ m ∈ t.partTargets n, ∃ declared, Fits t (.target declared) m) ∧
      t.boundNames n = (t.partTargets n).flatMap t.boundNames := by
  obtain ⟨form, slots, found, known, inner⟩ := fits.form
  rw [isPattern_of_form found] at isPattern
  rw [boundNames_eq tidy found]
  cases form with
  | objectPattern properties =>
    cases known
    rw [partTargets_object found]
    have each (q : NodeId) (mem : q ∈ properties) : ∃ target, t.propertyTarget? q = some target ∧
        (∃ declared, Fits t (.target declared) target) ∧ t.boundNames q = t.boundNames target := by
      have fits := inner (.bindingProperty declared, q) (mem_map_of_mem mem)
      obtain ⟨key, computed, target, _, found, _, part⟩ :=
        propertyAccessor_eq_ok tidy fits (EditBuffer.ofText [])
      refine ⟨target, by simp [propertyTarget?, found], part.fits, ?_⟩
      rw [boundNames_eq tidy found]
      simp [Form.name?, Form.nestedParts]
    refine ⟨fun m mem => ?_, ?_⟩
    · obtain ⟨q, isProperty, isTarget⟩ := mem_filterMap.mp mem
      obtain ⟨target, isTarget', fits, _⟩ := each q isProperty
      cases isTarget.symm.trans isTarget'
      exact fits
    · change properties.flatMap t.boundNames = _
      clear inner found isPattern
      induction properties with
      | nil => rfl
      | cons q later ih =>
        obtain ⟨target, isTarget, _, same⟩ := each q (by simp)
        rw [flatMap_cons, filterMap_cons, isTarget, ih fun q mem => each q (by simp [mem]), same]
        rfl
  | arrayPattern elements =>
    cases known
    rw [partTargets_array found]
    have each (q : NodeId) (mem : q ∈ elements.filterMap id) :
        (∃ declared, Fits t (.target declared) (t.itemTarget q)) ∧
          t.boundNames q = t.boundNames (t.itemTarget q) := by
      rw [← Role.map_items declared] at mem
      obtain ⟨part, isItem, rfl⟩ := mem_map.mp mem
      have fits := inner part isItem
      obtain ⟨form, _, found, _⟩ := fits.form
      have role :
          ∃ isLast : Bool, part.1 = if isLast then .last declared else .target declared := by
        rcases (Role.mem_items isItem).2 with same | same
        · exact ⟨false, same⟩
        · exact ⟨true, same⟩
      obtain ⟨isLast, same⟩ := role
      rw [same] at fits
      rcases item_cases tidy fits (EditBuffer.ofText []) 0 with
        ⟨_, target, found, isPart⟩ | ⟨other, isPart⟩
      · have isTarget : t.itemTarget part.2 = target := by simp [itemTarget, found]
        rw [isTarget, boundNames_eq tidy found]
        exact ⟨isPart.fits, by simp [Form.name?, Form.nestedParts]⟩
      · have isTarget : t.itemTarget part.2 = part.2 := by
          unfold itemTarget
          split
          · rename_i found
            exact absurd found (other _)
          · rfl
        rw [isTarget]
        exact ⟨isPart.fits, rfl⟩
    refine ⟨fun m mem => ?_, ?_⟩
    · obtain ⟨q, isItem, rfl⟩ := mem_map.mp mem
      exact (each q isItem).1
    · change (elements.filterMap id).flatMap t.boundNames = _
      rw [flatMap_map]
      exact flatMap_congr fun q mem => (each q mem).2
  | _ => cases isPattern

/-- The variables at the leaves are the names that the targets bind, in order. -/
lemma Leads.names (tidy : t.Tidy opens closes) (leads : t.Leads ns leaves)
    (fits : ∀ n ∈ ns, ∃ declared, Fits t (.target declared) n) :
    leaves.filterMap (Leaf.name? t) = ns.flatMap t.boundNames := by
  induction leads with
  | nil => rfl
  | @target n later leaves plain _ ih =>
    obtain ⟨declared, isTarget⟩ := fits n (by simp)
    obtain ⟨form, _, found, _⟩ := isTarget.form
    have isPlain := (isTarget.walkable_of_target plain).plain found
    rw [flatMap_cons, boundNames_of_plain tidy found isPlain, filterMap_cons,
      ih fun n mem => fits n (by simp [mem])]
    have own : Leaf.name? t (.target n) = t.name? n := rfl
    rw [own]
    cases t.name? n <;> rfl
  | @empty n later leaves isPattern none _ ih =>
    obtain ⟨declared, isTarget⟩ := fits n (by simp)
    rw [flatMap_cons, (boundNames_partTargets tidy isTarget isPattern).2, none,
      filterMap_cons, ih fun n mem => fits n (by simp [mem])]
    rfl
  | @nested n later first leaves isPattern _ _ _ ihInner ih =>
    obtain ⟨declared, isTarget⟩ := fits n (by simp)
    obtain ⟨parts, same⟩ := boundNames_partTargets tidy isTarget isPattern
    rw [flatMap_cons, same, filterMap_append, ihInner parts,
      ih fun n mem => fits n (by simp [mem])]

end Table

/-! ### Reading -/

namespace Pattern

/-- The targets of a pattern that was read, in order. A nested pattern without parts has none. -/
def leaves : Pattern → List (Option Target)
  | done => []
  | leaf _ target later => some target :: later.leaves
  | nested _ inner later => (if inner.count = 0 then [none] else inner.leaves) ++ later.leaves

variable {t : Table} {buffer : EditBuffer} {n : NodeId} {pattern : Pattern}

/-- The parts that were read go to these targets. -/
structure ReadFrom (t : Table) (buffer : EditBuffer) (targets : List NodeId) (pattern : Pattern) :
    Prop where
  leaves : ∃ leaves, t.Leads targets leaves ∧ pattern.leaves = leaves.map (Leaf.target? t buffer)
  count : pattern.count = targets.length

variable {parts : List (Accessor × NodeId)}

lemma readFrom_of_assemble {inner : NodeId → Except Fault Pattern}
    (deep : ∀ n pattern, inner n = .ok pattern → ReadFrom t buffer (t.partTargets n) pattern)
    (ran : assemble t buffer inner parts = .ok pattern) :
    ReadFrom t buffer (parts.map Prod.snd) pattern := by
  induction parts generalizing pattern with
  | nil =>
    cases ran
    exact ⟨⟨[], .nil, rfl⟩, rfl⟩
  | cons part later ih =>
    obtain ⟨accessor, target⟩ := part
    obtain ⟨rest, assembled, ⟨isPattern, inside, found, rfl⟩ | ⟨plain, ⟨name, spelled, rfl⟩ |
      ⟨nameless, text, written, rfl⟩⟩⟩ := assemble_cons_eq_ok ran
    all_goals
      obtain ⟨⟨leaves, leads, same⟩, count⟩ := ih assembled
      refine ⟨?_, congrArg (· + 1) count⟩
    · obtain ⟨⟨first, leadsFirst, sameFirst⟩, countFirst⟩ := deep target inside found
      by_cases none : t.partTargets target = []
      · refine ⟨.empty target :: leaves, .empty isPattern none leads, ?_⟩
        have zero : inside.count = 0 := by rw [countFirst, none, length_nil]
        rw [Pattern.leaves, if_pos zero, same]
        rfl
      · have nonzero : inside.count ≠ 0 := by
          rw [countFirst]
          exact fun zero => none (length_eq_zero_iff.mp zero)
        refine ⟨first ++ leaves, .nested isPattern none leadsFirst leads, ?_⟩
        rw [Pattern.leaves, if_neg nonzero, same, sameFirst, map_append]
    · refine ⟨.target target :: leaves, .target (Bool.eq_false_iff.mpr plain) leads, ?_⟩
      simp [Pattern.leaves, Leaf.target?, spelled, same]
    · refine ⟨.target target :: leaves, .target (Bool.eq_false_iff.mpr plain) leads, ?_⟩
      have isText : text = t.textOf buffer target := by
        unfold nodeText at written
        unfold Table.textOf
        split at written
        · rename_i node found
          cases written
          simp [found]
        · cases written
      simp [Pattern.leaves, Leaf.target?, nameless, same, isText]

lemma propertyParts_targets {properties : List NodeId}
    (found : propertyParts t buffer properties = .ok parts) :
    parts.map Prod.snd = properties.filterMap t.propertyTarget? := by
  induction properties generalizing parts with
  | nil =>
    cases found
    rfl
  | cons property later ih =>
    unfold propertyParts at found
    split at found
    · rename_i isProperty
      obtain ⟨accessor, _, more⟩ := Except.bind_eq_ok.mp found
      obtain ⟨rest, isRest, made⟩ := Except.bind_eq_ok.mp more
      cases made
      rw [filterMap_cons, Table.propertyTarget?, isProperty, map_cons, ih isRest]
    · cases found

lemma itemParts_targets {index : Nat} {elements : List (Option NodeId)}
    (found : itemParts t index elements = .ok parts) :
    parts.map Prod.snd = (elements.filterMap id).map t.itemTarget := by
  induction elements generalizing index parts with
  | nil =>
    cases found
    rfl
  | cons element later ih =>
    cases element with
    | none => exact ih found
    | some first =>
      unfold itemParts at found
      split at found
      · rename_i isRest
        split at found
        · rename_i last
          cases found
          obtain rfl : later = [] := by simpa using last
          simp [Table.itemTarget, isRest]
        · cases found
      · rename_i other
        obtain ⟨rest, isRest, made⟩ := Except.bind_eq_ok.mp found
        cases made
        have own : t.itemTarget first = first := by
          unfold Table.itemTarget
          split
          · rename_i isRest
            exact absurd isRest (other _)
          · rfl
        simp [ih isRest, own]

lemma readFrom_of_readWithin {bound : Nat} (ran : readWithin t buffer bound n = .ok pattern) :
    ReadFrom t buffer (t.partTargets n) pattern := by
  induction bound generalizing n pattern with
  | zero => cases ran
  | succ bound ih =>
    unfold readWithin at ran
    split at ran
    · rename_i found
      obtain ⟨parts, isParts, assembled⟩ := Except.bind_eq_ok.mp ran
      rw [Table.partTargets_object found, ← propertyParts_targets isParts]
      exact readFrom_of_assemble (fun _ _ => ih) assembled
    · rename_i found
      obtain ⟨parts, isParts, assembled⟩ := Except.bind_eq_ok.mp ran
      rw [Table.partTargets_array found, ← itemParts_targets isParts]
      exact readFrom_of_assemble (fun _ _ => ih) assembled
    · cases ran

end Pattern

/-! ### Unwinding -/

/-- What a binding does for a leaf. A pattern without parts has no target of its own: its value is
evaluated, and in a declaration goes to a name that is not among `names`. -/
inductive FlatBinding.Binds (context : SiteContext) (names : List String) :
    FlatBinding → Option Target → Prop where
  | target (target : Target) (value : Expr) : Binds context names ⟨some target, value, false⟩
      (some target)
  | forced (value : Expr) (isAssignment : context = .assignment) :
      Binds context names ⟨none, value, false⟩ none
  | named (name : String) (value : Expr) (isDeclaration : context ≠ .assignment)
      (fresh : name ∉ names) :
    Binds context names ⟨some (.named name), value, false⟩ none

namespace Unwind

open FlatBinding

variable {setting : Setting} {names : List String} {pattern : Pattern} {value : Value} {depth : Nat}
  {trailing : Bool} {w w' : Workbench} {reads left : Reads} {bindings : List FlatBinding}

/-- One binding for each leaf and then, if it is `trailing`, one for the whole value. -/
def Follows (context : SiteContext) (names : List String) (trailing : Bool)
    (leaves : List (Option Target)) (bindings : List FlatBinding) : Prop :=
  ∃ first last, bindings = first ++ last ∧ List.Forall₂ (Binds context names) first leaves ∧
    if trailing then ∃ value, last = [⟨none, value, true⟩] else last = []

lemma follows_false {context : SiteContext} {leaves : List (Option Target)} :
    Follows context names false leaves bindings ↔ List.Forall₂ (Binds context names) bindings
      leaves := by
  constructor
  · rintro ⟨first, last, rfl, binds, none⟩
    obtain rfl : last = [] := none
    rwa [append_nil]
  · exact fun binds => ⟨bindings, [], (append_nil _).symm, binds, rfl⟩

lemma Follows.append {context : SiteContext} {leaves later : List (Option Target)}
    {front : List FlatBinding} (binds : List.Forall₂ (Binds context names) front leaves)
    (follows : Follows context names trailing later bindings) :
    Follows context names trailing (leaves ++ later) (front ++ bindings) := by
  obtain ⟨first, last, rfl, others, ends⟩ := follows
  exact ⟨front ++ first, last, (append_assoc ..).symm, rel_append binds others, ends⟩

/-- A pattern inside another one. -/
lemma level_follows (fresh : Fresh names w.scopes)
    (inside : ∀ {reads left : Reads} {w w' : Workbench}, Fresh names w.scopes →
      parts setting pattern depth false reads w = .ok (bindings, left) w' →
      Follows setting.context names false pattern.leaves bindings)
    (whole : level setting pattern value false depth (parts setting pattern depth false) w =
      .ok bindings w') : List.Forall₂ (Binds setting.context names) bindings
      (if pattern.count = 0 then [none] else pattern.leaves) := by
  obtain ⟨_, ⟨empty, ran⟩ | ⟨several, reads, w1, left, w2, resolve, ran, _, _⟩⟩ :=
    level_eq_ok.mp whole
  · rw [if_pos empty]
    rw [emptyLevel_eq] at ran
    split at ran
    · rename_i isDeclaration
      cases ran
      refine .cons (.named _ _ ?_ (fresh.claim_not_mem _)) .nil
      rw [isDeclaration]
      exact SiteContext.noConfusion
    · rename_i isAssignment
      cases ran
      exact .cons (.forced _ isAssignment) .nil
  · rw [if_neg several]
    refine follows_false.mp (inside ?_ ran)
    exact (resolved_of_resolve resolve).keeping (fresh_stable _ _) fresh

lemma parts_follows (setting : Setting) (pattern : Pattern)
    (fresh : Fresh names w.scopes)
    (whole : parts setting pattern depth trailing reads w = .ok (bindings, left) w') :
    Follows setting.context names trailing pattern.leaves bindings := by
  induction pattern generalizing depth trailing reads left w w' bindings with
  | done =>
    obtain ⟨rfl, ran⟩ := parts_done_eq_ok.mp whole
    cases trailing with
    | false =>
      obtain ⟨rfl, rfl⟩ := ran
      exact follows_false.mpr .nil
    | true =>
      obtain ⟨value, _, rfl⟩ := ran
      exact ⟨[], _, rfl, .nil, value, rfl⟩
  | leaf accessor target later ih =>
    obtain ⟨value, reads', rest, _, ran, rfl⟩ := parts_leaf_eq_ok.mp whole
    exact .append (.cons (.target target (.access value accessor)) .nil) (ih fresh ran)
  | nested accessor inner later ihInner ih =>
    obtain ⟨value, reads', first, v, rest, _, unwound, ran, rfl⟩ := parts_nested_eq_ok.mp whole
    exact .append (level_follows fresh (fun fresh ran => ihInner fresh ran) unwound)
      (ih (fresh.level unwound) ran)

/-- What the bindings of a whole site are. In an assignment the one binding of a pattern without
parts carries the result. -/
lemma site_follows (fresh : Fresh names w.scopes)
    (whole : site setting pattern value w = .ok bindings w') :
    if pattern.count = 0 ∧ setting.context = .assignment then ∃ value, bindings =
      [⟨none, value, true⟩]
    else Follows setting.context names (setting.context = .assignment)
      (if pattern.count = 0 then [none] else pattern.leaves) bindings := by
  unfold site at whole
  obtain ⟨_, ⟨empty, ran⟩ | ⟨several, reads, w1, left, w2, resolve, ran, _, _⟩⟩ :=
    level_eq_ok.mp whole
  · rw [emptyLevel_eq] at ran
    split at ran
    · rename_i kind isDeclaration
      cases ran
      have other : setting.context ≠ .assignment := by
        rw [isDeclaration]
        exact SiteContext.noConfusion
      rw [if_neg fun both => other both.2, if_pos empty, decide_eq_false other]
      exact follows_false.mpr (.cons (.named _ _ other (fresh.claim_not_mem _)) .nil)
    · rename_i isAssignment
      cases ran
      rw [if_pos ⟨empty, isAssignment⟩]
      exact ⟨_, rfl⟩
  · rw [if_neg fun both => several both.1, if_neg several]
    refine parts_follows setting pattern ?_ ran
    exact (resolved_of_resolve resolve).keeping (fresh_stable _ _) fresh

end Unwind

/-! ### Sites -/

namespace Table

variable {t : Table} {buffer : EditBuffer} {n : NodeId} {retain : Bool} {scopes scopes' : Scopes}
  {log log' : Array Event} {site : LoweredSite}

lemma context_of_lowerSite {place : Lowerable} (ok : t.lowerable n = .ok place)
    (lowered : t.lowerSite buffer n retain scopes log = (.ok site, scopes', log')) :
    site.context = place.context := by
  obtain ⟨place', whole, pattern, value, w, ok', isWhole, read, isValue, _, _, unwound⟩ :=
    lowerSite_eq_ok lowered
  cases ok.symm.trans ok'
  rw [lowerSite, siteParts_eq_ok.mpr ⟨ok, isWhole, read, isValue, rfl⟩] at lowered
  dsimp only at lowered
  rw [unwound] at lowered
  exact congrArg LoweredSite.context (Except.ok.inj (Prod.mk.inj lowered).1).symm

/-- The leaves of one pattern. -/
lemma exists_leads {pattern : Pattern} (isPattern : t.isPattern n = true)
    (read : Pattern.read t buffer n = .ok pattern) :
    ∃ leaves, t.Leads [n] leaves ∧ (pattern.count = 0 ↔ t.partTargets n = []) ∧
      leaves.map (Leaf.target? t buffer) = if pattern.count =
        0 then [none] else pattern.leaves := by
  obtain ⟨⟨leaves, leads, same⟩, count⟩ := Pattern.readFrom_of_readWithin read
  rw [← length_eq_zero_iff, ← count]
  by_cases empty : pattern.count = 0
  · have none : t.partTargets n = [] := length_eq_zero_iff.mp (count.symm.trans empty)
    exact ⟨[.empty n], .empty isPattern none .nil, Iff.rfl, by rw [if_pos empty]; rfl⟩
  · have some : t.partTargets n ≠ [] := fun none => empty (count.trans (by rw [none, length_nil]))
    refine ⟨leaves, ?_, Iff.rfl, by rw [if_neg empty, same]⟩
    simpa using Leads.nested isPattern some leads .nil

end Table

namespace FlatBinding

variable {t : Table} {buffer : EditBuffer} {context : SiteContext}

/-- The variable that a binding assigns to. -/
def targetName? (b : FlatBinding) : Option String := b.target.bind Target.name?

/-- Of the names in the file, a binding assigns to the one at its leaf. -/
lemma Binds.targetName? {b : FlatBinding} {leaf : Leaf}
    (binds : b.Binds context (Binding.spellings t) (leaf.target? t buffer)) :
    b.targetName?.filter (· ∈ Binding.spellings t) = leaf.name? t := by
  cases leaf with
  | target n =>
    generalize same : (Leaf.target n).target? t buffer = found at binds
    cases binds with
    | target target value =>
      cases Option.some.inj same
      cases spelled : t.name? n with
      | none => simp [FlatBinding.targetName?, Leaf.name?, spelled, Target.name?]
      | some name =>
        simp [FlatBinding.targetName?, Leaf.name?, spelled, Target.name?,
          Table.mem_spellings spelled]
    | forced => cases same
    | named => cases same
  | empty n =>
    cases binds with
    | forced => rfl
    | named name value isDeclaration fresh =>
      simp [FlatBinding.targetName?, Leaf.name?, Target.name?, fresh]

lemma variables_of_binds {bindings : List FlatBinding} {leaves : List Leaf}
    (binds : List.Forall₂ (Binds context (Binding.spellings t)) bindings
      (leaves.map (Leaf.target? t buffer))) :
    (bindings.filterMap targetName?).filter (· ∈ Binding.spellings t) = leaves.filterMap
      (Leaf.name? t) := by
  rw [filter_filterMap]
  induction leaves generalizing bindings with
  | nil =>
    cases binds
    rfl
  | cons leaf later ih =>
    cases binds with
    | cons first rest => rw [filterMap_cons, filterMap_cons, first.targetName?, ih rest]

end FlatBinding

/-- In order, the site has one binding for each leaf of its pattern, and in an assignment a last one
that carries the result. If the pattern has no parts, that is the only one. -/
def LoweredSite.FollowsLeaves (t : Table) (buffer : EditBuffer) (n : NodeId) (site : LoweredSite) :
    Prop :=
  ∃ leaves, t.Leads [n] leaves ∧ leaves.filterMap (Leaf.name? t) = t.boundNames n ∧
    (site.bindings.filterMap FlatBinding.targetName?).filter (· ∈ Binding.spellings t) =
      t.boundNames n ∧
    match site.context with
    | .declaration _ => List.Forall₂ (FlatBinding.Binds site.context (Binding.spellings t))
        site.bindings (leaves.map (Leaf.target? t buffer))
    | .assignment => ∃ first last, site.bindings = first ++ [last] ∧ last.target = none ∧
        last.trailing = true ∧
        if t.partTargets n = [] then first = []
        else List.Forall₂ (FlatBinding.Binds site.context (Binding.spellings t)) first
          (leaves.map (Leaf.target? t buffer))

attribute [local irreducible] Parsed.ofText

/-- The bindings of a site follow its pattern. -/
theorem bindings_follow_leaves {source : String} {buffer : EditBuffer} {n : NodeId} {retain : Bool}
    {scopes scopes' : Scopes} {log log' : Array Event} {site : LoweredSite} {t : Table}
    (isTable : (Parsed.ofText source.toList).table = t)
    (clean : (Parsed.ofText source.toList).hasErrors = false)
    (reachable : Scopes.Reachable t (Parsed.ofText source.toList).root scopes)
    (lowered : t.lowerSite buffer n retain scopes log = (.ok site, scopes', log')) :
    site.FollowsLeaves t buffer n := by
  have tree := Lowering.tree_of_clean clean
  rw [isTable] at tree
  obtain ⟨place, whole, pattern, value, w, ok, isWhole, read, isValue, _, _, unwound⟩ :=
    Table.lowerSite_eq_ok lowered
  have context := Table.context_of_lowerSite ok lowered
  have isPattern := Table.isPattern_of_lowerable ok
  obtain ⟨leaves, leads, empty, targets⟩ := Table.exists_leads isPattern read
  have names : leaves.filterMap (Leaf.name? t) = t.boundNames n := by
    simpa using leads.names tree.tidy (by simpa using tree.fits_target isPattern)
  have follows := Unwind.site_follows ⟨reachable.sound.1, reachable.sound.2⟩ unwound
  dsimp only at follows
  rw [← context, ← targets] at follows
  refine ⟨leaves, leads, names, ?_⟩
  cases isContext : site.context with
  | declaration kind =>
    rw [isContext] at follows
    simp only [reduceCtorEq, and_false, if_false, decide_false] at follows
    have binds := Unwind.follows_false.mp follows
    exact ⟨(FlatBinding.variables_of_binds binds).trans names, binds⟩
  | assignment =>
    rw [isContext] at follows
    simp only [and_true, decide_true] at follows
    dsimp only
    split at follows
    · rename_i zero
      obtain ⟨value, isBindings⟩ := follows
      have none := empty.mp zero
      cases leads.unique (.empty isPattern none .nil)
      refine ⟨?_, [], _, isBindings, rfl, rfl, by rw [if_pos none]⟩
      rw [isBindings, ← names]
      rfl
    · rename_i nonzero
      obtain ⟨first, last, isBindings, binds, value, rfl⟩ := follows
      refine ⟨?_, first, _, isBindings, rfl, rfl,
        by rwa [if_neg fun none => nonzero (empty.mpr none)]⟩
      rw [isBindings, filterMap_append, filter_append, FlatBinding.variables_of_binds binds, names]
      exact append_nil _

/-- An assignment with targets of each kind. -/
def mixedTargets : String := "[a, \x7bb: o.p, d\x7d, , [], ...[e]] = f();"

theorem mixedTargets_follow_leaves : (Parsed.ofText mixedTargets.toList).hasErrors = false ∧
    (Parsed.ofText mixedTargets.toList).table.boundNames 13 = ["a", "d", "e"] ∧
    ∃ site scopes' log', (Parsed.ofText mixedTargets.toList).table.lowerSite
      (.ofText mixedTargets.toList) 13 false
        (Binding.ofTable (Parsed.ofText mixedTargets.toList).table
          (Parsed.ofText mixedTargets.toList).root).scopes #[] = (.ok site, scopes', log') ∧
      site.FollowsLeaves (Parsed.ofText mixedTargets.toList).table
        (.ofText mixedTargets.toList) 13 := by
  obtain ⟨clean, names, good⟩ : (Parsed.ofText mixedTargets.toList).hasErrors = false ∧
      (Parsed.ofText mixedTargets.toList).table.boundNames 13 = ["a", "d", "e"] ∧
      ((Parsed.ofText mixedTargets.toList).table.lowerSite (.ofText mixedTargets.toList) 13 false
        (Binding.ofTable (Parsed.ofText mixedTargets.toList).table
          (Parsed.ofText mixedTargets.toList).root).scopes #[]).1.toOption.isSome := by
    decide +kernel
  refine ⟨clean, names, ?_⟩
  generalize lowered : Table.lowerSite _ _ 13 false _ #[] = outcome at good ⊢
  obtain ⟨failure | site, scopes', log'⟩ := outcome
  · cases good
  · exact ⟨site, scopes', log', rfl, bindings_follow_leaves rfl clean .bound lowered⟩

end PatternLowering

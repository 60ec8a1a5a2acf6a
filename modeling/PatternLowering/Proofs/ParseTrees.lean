import PatternLowering.Proofs.Programs
import PatternLowering.Proofs.ShortTexts

/-!
# Parse trees

The nodes of a text that parses are a tree over its tokens. Each node but the last has one parent,
which comes after it; the parts of a node stand in its range, in the order of the text and without
sharing a byte. Turning a literal into a pattern leaves all this as it is.
-/

namespace PatternLowering

namespace Table

variable {t t' : Table} {n m : NodeId} {inside : NodeId → Prop}

/-- Parents and parts agree, parents come later, and the parts of a node are in its range, one after
the other. -/
structure Forest (t : Table) : Prop where
  parents : ∀ {n m}, t.parent? m = some n ↔ m ∈ t.children n
  below : ∀ {n m}, m ∈ t.children n → m < n
  laid : ∀ {n node}, t.get? n = some node → t.Laid node.start (t.children n) node.stop

lemma children_of_get? {node : Node} (found : t.get? n = some node) :
    t.children n = node.form.children := by
  simp [children, form?, found]

lemma Tidy.forest {opens closes : Nat → Prop} (tidy : t.Tidy opens closes) : t.Forest := by
  refine ⟨tidy.parents, tidy.below, fun found => ?_⟩
  rw [children_of_get? found]
  exact tidy.laid found

namespace Forest

lemma parents_of_form (forest : t.Forest) {form : Form} (found : t.form? n = some form) :
    ∀ m ∈ form.children, t.parent? m = some n := by
  intro m part
  exact forest.parents.mpr (by simpa [children, found] using part)

lemma recast (forest : t.Forest) (recast : Recast inside t t') : t'.Forest := by
  refine ⟨fun {n m} => ?_, fun part => forest.below (recast.children ▸ part), fun found => ?_⟩
  · rw [recast.parent?, recast.children]
    exact forest.parents
  · obtain ⟨node, found', start, stop, _⟩ := recast.back found
    rw [start, stop, recast.children]
    exact recast.laid (forest.laid found')

/-- Changing what a node is, after other nodes were changed. -/
lemma reinterpret (forest : t.Forest) (before : Recast inside t t') {old form : Form}
    (found : t.form? n = some old) (same : form.children = old.children)
    (plain : form.isSpelled = false) :
    Recast (fun _ => True) t (t'.reinterpret n form) ∧
      (t'.reinterpret n form).form? n = some form := by
  obtain ⟨node, isNode, rfl⟩ := form?_eq_some.mp found
  obtain ⟨mid, isMid, parts, _⟩ := before.node isNode
  have found' : t'.form? n = some mid := form?_eq_some.mpr ⟨_, isMid, rfl⟩
  obtain ⟨after, isForm⟩ := recast_reinterpret found'
    ((forest.recast before).parents_of_form found') (same.trans parts.symm) plain
  exact ⟨(before.widen fun _ _ => trivial).trans (after.widen fun _ _ => trivial), isForm⟩

end Forest

end Table

namespace Parse

variable {α β : Type}

/-- Where the step succeeds, it leads from `s` to `Q`. -/
def Yields (s : ParseState) (p : Parse α) (Q : α → ParseState → Prop) : Prop :=
  ∀ a s', p s = .ok a s' → Q a s'

namespace Yields

variable {s : ParseState} {Q : α → ParseState → Prop}

lemma pure {a : α} (holds : Q a s) : Yields s (pure a) Q := by
  rintro _ _ ⟨⟩
  exact holds

lemma bind {p : Parse α} {f : α → Parse β} {R : β → ParseState → Prop} (first : Yields s p Q)
    (later : ∀ a s', Q a s' → Yields s' (f a) R) : Yields s (p >>= f) R := by
  intro b s'' ran
  obtain ⟨a, s', ran, next⟩ := EStateM.bind_eq_ok.mp ran
  exact later a s' (first a s' ran) b s'' next

lemma look {p : Parse α} {a : α} (looks : p s = .ok a s) {f : α → Parse β}
    {R : β → ParseState → Prop} (next : Yields s (f a) R) : Yields s (p >>= f) R := by
  refine bind (fun a' s' ran => ?_) (fun a' s' (same : a' = a ∧ s' = s) => ?_)
  · cases looks.symm.trans ran
    exact ⟨rfl, rfl⟩
  · rw [same.1, same.2]
    exact next

lemma fail (cause : SyntaxError) : Yields s (fail cause) Q := by
  intro a s' ran
  obtain ⟨_, _, _, ran⟩ := EStateM.bind_eq_ok.mp ran
  split at ran <;> cases ran

lemma failAtNode (n : NodeId) (cause : SyntaxError) : Yields s (failAtNode n cause) Q := by
  intro a s' ran
  exact ((meets_failAtNode (P := fun _ => True) (Q := fun _ _ => False) n cause).ok
    trivial ran).elim

end Yields

/-- The state after a step in which nodes only changed what they are. -/
def Recasts (s s' : ParseState) : Prop := Table.Recast (fun _ => True) s.table s'.table

/-- Where the step succeeds it gives back the node, and nodes only changed what they are. -/
def Reforms (p : NodeId → Parse NodeId) : Prop :=
  ∀ n s, s.table.Forest → Yields s (p n) fun m s' => m = n ∧ Recasts s s'

end Parse

namespace Grammar

open Parse

variable {inner : Productions} {s : ParseState}

lemma reinterpret_recasts {mid : ParseState} {n : NodeId} {old form : Form}
    (forest : s.table.Forest) (before : Recasts s mid) (found : s.table.form? n = some old)
    (same : form.children = old.children) (plain : form.isSpelled = false) :
    Yields mid (reinterpret n form) fun _ => Recasts s := by
  rintro _ _ ⟨⟩
  exact (forest.reinterpret before found same plain).1

variable (literal : Reforms inner.literal)

include literal

lemma target_reforms : Reforms (target inner) := by
  intro n s forest
  refine .look rfl ?_
  split
  · exact literal n s forest
  · exact literal n s forest
  · exact .pure ⟨rfl, .refl _ _⟩
  · exact .pure ⟨rfl, .refl _ _⟩
  · refine .look rfl ?_
    split
    · exact .pure ⟨rfl, .refl _ _⟩
    · exact .failAtNode _ _

lemma elementTarget_recasts (isLast : Bool) (element : NodeId) (forest : s.table.Forest) :
    Yields s (elementTarget inner isLast element) fun _ => Recasts s := by
  refine .look rfl ?_
  split
  · rename_i expression isSpread
    split
    · refine .bind (target_reforms literal expression s forest) ?_
      rintro argument mid ⟨rfl, recasts⟩
      exact reinterpret_recasts forest recasts isSpread rfl rfl
    · exact .failAtNode _ _
  · exact .bind (target_reforms literal element s forest) fun _ _ turned => .pure turned.2

lemma elementTargets_recast (elements : List (Option NodeId))
    (forest : s.table.Forest) : Yields s (elementTargets inner elements) fun _ => Recasts s := by
  induction elements generalizing s with
  | nil => exact .pure (.refl _ _)
  | cons first later ih =>
    cases first with
    | none => exact ih forest
    | some element =>
      refine .bind (elementTarget_recasts literal later.isEmpty element forest) ?_
      intro _ mid recasts _ _ ran
      exact recasts.trans (ih (forest.recast recasts) _ _ ran)

lemma propertyTarget_recasts (property : NodeId)
    (forest : s.table.Forest) : Yields s (propertyTarget inner property) fun _ => Recasts s := by
  refine .look rfl ?_
  split
  · rename_i key computed value isProperty
    refine .bind (target_reforms literal value s forest) ?_
    rintro target mid ⟨rfl, recasts⟩
    exact reinterpret_recasts forest recasts isProperty rfl rfl
  · rename_i name isShorthand
    exact reinterpret_recasts forest (.refl _ _) isShorthand rfl rfl
  · exact .failAtNode _ _

lemma propertyTargets_recast (properties : List NodeId)
    (forest : s.table.Forest) : Yields s (propertyTargets inner properties) fun _ => Recasts s := by
  induction properties generalizing s with
  | nil => exact .pure (.refl _ _)
  | cons property later ih =>
    refine .bind (propertyTarget_recasts literal property forest) ?_
    intro _ mid recasts _ _ ran
    exact recasts.trans (ih (forest.recast recasts) _ _ ran)

lemma literal_reforms : Reforms (Grammar.literal inner) := by
  intro n s forest
  refine .look rfl ?_
  split
  · rename_i elements isArray
    refine .bind (elementTargets_recast literal elements forest) fun _ mid recasts => ?_
    exact .bind (reinterpret_recasts forest recasts isArray rfl rfl) fun _ _ recasts =>
      .pure ⟨rfl, recasts⟩
  · rename_i properties isObject
    refine .bind (propertyTargets_recast literal properties forest) fun _ mid recasts => ?_
    exact .bind (reinterpret_recasts forest recasts isObject rfl rfl) fun _ _ recasts =>
      .pure ⟨rfl, recasts⟩
  · exact .pure ⟨rfl, .refl _ _⟩

end Grammar

lemma Productions.literal_reforms (depth : Nat) : Parse.Reforms (within depth).literal := by
  induction depth with
  | zero => exact fun _ _ _ => .fail _
  | succ depth ih => exact Grammar.literal_reforms ih

/-- The nodes are one tree over the tokens of the text, with `root` as the program. -/
structure Table.WellFormed (text : Text) (t : Table) (root : NodeId) : Prop where
  last : t.size = root + 1
  whole : ∃ statements, t.get? root = some ⟨0, text.size, none, .program statements⟩
  forest : t.Forest
  parent : ∀ {m}, m < root → ∃ parent, t.parent? m = some parent ∧ m < parent ∧
    (t.children parent).count m = 1 ∧ ∀ {n}, m ∈ t.children n → n = parent
  tokens : ∃ tokens, text.Reads tokens ∧ ∀ {m node}, m < root → t.get? m = some node →
    (∃ token ∈ tokens, token.start = node.start) ∧ ∃ token ∈ tokens, token.stop = node.stop
  boundaries : ∀ {m node}, t.get? m = some node →
    text.isBoundary node.start ∧ text.isBoundary node.stop
  spelled : ∀ {m node word}, t.get? m = some node → node.form.word? = some word →
    word.toList = text.slice node.start node.stop

/-- A node is listed once, by the parent it records. -/
lemma Table.Forest.listed_once {t : Table} {m parent : NodeId} (forest : t.Forest)
    (up : t.parent? m = some parent) : m < parent ∧ (t.children parent).count m = 1 ∧
      ∀ {n}, m ∈ t.children n → n = parent := by
  have part := forest.parents.mp up
  refine ⟨forest.below part, ?_, fun part' => ?_⟩
  · obtain ⟨node, found, _⟩ := mem_children.mp part
    exact List.count_eq_one_of_mem (forest.laid found).nodup part
  · exact Option.some.inj ((forest.parents.mpr part').symm.trans up)

/-- What the statements leave behind is well-formed once the program node is there. -/
lemma Reading.Complete.wellFormed {text : Text} {statements : Array NodeId} {halt : Option Halt}
    {s : ParseState} (complete : Complete text (start text) ⟨statements, halt, s⟩) :
    (s.table.add 0 s.size (.program statements.toList)).2.WellFormed text s.table.size := by
  have tree := complete.tree
  have holds : ParseState.Holds text (start text) false _ s := complete.holds
  have forest := tree.tidy.forest
  refine ⟨tree.last, ⟨statements.toList, ?_⟩, forest, fun inside => ?_, ?_,
    fun found => ⟨tree.tidy.opened found, tree.tidy.closed found⟩, fun found isWord => ?_⟩
  · rw [Table.get?_add_self, holds.ready.size]
  · obtain ⟨parent, up⟩ := tree.rooted inside
    exact ⟨parent, up, forest.listed_once up⟩
  · obtain ⟨tokens, trail⟩ := holds.trail
    refine ⟨tokens, ⟨s.scanner, trail.passes, complete.ended⟩, fun inside found => ?_⟩
    rcases Table.get?_add_eq_some found with ⟨rfl, _⟩ | ⟨old, found, start, stop, _⟩
    · exact absurd inside (lt_irrefl _)
    · rw [start, stop]
      exact trail.spans (Nat.zero_le _) found
  · rcases Table.get?_add_eq_some found with ⟨_, rfl⟩ | ⟨old, found, start, stop, form⟩
    · cases isWord
    · rw [form] at isWord
      rw [start, stop]
      exact holds.ready.spelled found isWord

lemma Parsed.wellFormed {text : Text} (clean : (ofText text).faults = []) :
    (ofText text).table.WellFormed text (ofText text).root := by
  have complete := Reading.ofText_complete clean
  unfold Parsed.ofText Reading.toParsed
  generalize Reading.ofText text = reading at complete
  obtain ⟨statements, halt, s⟩ := reading
  exact complete.wellFormed

end PatternLowering

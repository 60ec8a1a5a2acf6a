import PatternLowering.Proofs.Nesting
import PatternLowering.Proofs.Requoting

/-!
# The outline of a replacement

What replaces a site is an outline with places for the expressions of the site. The outline is the
same for every buffer, and each expression has one place in it. To see it, the site is lowered once
with labels in the buffer instead of the expressions.
-/

namespace PatternLowering

open List

open Pass (range Within Beside)

namespace Table

variable {t : Table} {opens closes : Nat → Prop} {n m k : NodeId}

lemma HasKey.under (tidy : t.Tidy opens closes) (has : t.HasKey n k) : t.Under n k := by
  induction has with
  | key found => exact .of_child tidy (mem_children_of_form found (by simp [Form.children])) .self
  | inner found nested _ ih =>
    exact .of_child tidy (mem_children_of_form found (Form.nestedParts_subset _ _ nested)) ih

/-- What lies under different parts of a node lies side by side. -/
lemma beside_of_parts (tidy : t.Tidy opens closes) {p p' : NodeId} {form : Form}
    (found : t.form? n = some form) (isPart : p ∈ form.children) (isPart' : p' ∈ form.children)
    (other : p ≠ p') (under : t.Under p m) (under' : t.Under p' k) :
    Beside (range t m) (range t k) := by
  obtain ⟨node, isNode, rfl⟩ := form?_eq_some.mp found
  have laid := tidy.laid isNode
  obtain ⟨first, isFirst, _⟩ := laid.within isPart
  obtain ⟨second, isSecond, _⟩ := laid.within isPart'
  have beside : Beside (range t p) (range t p') := by
    rw [Pass.range_of_get? isFirst, Pass.range_of_get? isSecond]
    exact laid.apart isPart isPart' isFirst isSecond other
  exact beside.mono (Pass.within_of_under tidy isFirst under)
    (Pass.within_of_under tidy isSecond under')

lemma key_ne_target (tidy : t.Tidy opens closes) {key target : NodeId} {computed : Bool}
    (found : t.form? n = some (.bindingProperty (some key) computed target)) : key ≠ target := by
  obtain ⟨node, isNode, same⟩ := form?_eq_some.mp found
  have nodup := (tidy.laid isNode).nodup
  simp only [same, Form.children, Option.toList_some, singleton_append, nodup_cons,
    mem_singleton] at nodup
  exact nodup.1

/-- The keys of a pattern lie beside its expressions. -/
lemma HasKey.beside (tidy : t.Tidy opens closes) (has : t.HasKey n k) (has' : t.HasExpression n m) :
    Beside (range t k) (range t m) := by
  induction has with
  | @key n key target found =>
    cases has' with
    | key found' => cases found.symm.trans found'
    | target found' plain =>
      cases found.symm.trans found'
      cases plain
    | inner found' nested inside =>
      cases found.symm.trans found'
      cases mem_singleton.mp nested
      exact beside_of_parts tidy found (by simp [Form.children]) (by simp [Form.children])
        (key_ne_target tidy found) .self (inside.under tidy)
  | @inner n part k form found nested inside ih =>
    have isPart := form.nestedParts_subset part nested
    cases has' with
    | key found' =>
      cases found.symm.trans found'
      cases mem_singleton.mp nested
      exact beside_of_parts tidy found isPart (by simp [Form.children])
        (key_ne_target tidy found).symm (inside.under tidy) .self
    | target found' plain =>
      cases found.symm.trans found'
      cases form <;> first | (cases plain; done) | cases nested
    | @inner _ part' _ _ found' nested' inside' =>
      cases found.symm.trans found'
      by_cases same : part = part'
      · exact ih (same ▸ inside')
      · exact beside_of_parts tidy found isPart (form.nestedParts_subset part' nested') same
          (inside.under tidy) (inside'.under tidy)

/-- The keys of a site lie beside everything that the site takes over. -/
lemma Tree.key_beside {text : Text} {root : NodeId} {place : Lowerable} (tree : t.Tree text root)
    (ok : t.lowerable n = .ok place) (has : t.HasKey n k) (mem : m ∈ t.embedded place n) :
    Beside (range t k) (range t m) := by
  rcases (mem_embedded tree.tidy).mp mem with ⟨rfl, _⟩ | has'
  · obtain ⟨form, found, children⟩ := tree.lowerable_parts ok
    have distinct : n ≠ place.value := by
      obtain ⟨node, isNode, same⟩ := form?_eq_some.mp found
      have nodup := (tree.tidy.laid isNode).nodup
      simp only [same, children, nodup_cons, mem_singleton] at nodup
      exact nodup.1
    exact beside_of_parts tree.tidy found (by simp [children]) (by simp [children]) distinct
      (has.under tree.tidy) .self
  · exact has.beside tree.tidy has'

/-- The edits of the buffer are outside of a site or in what the site takes over. -/
def Spared (t : Table) (n : NodeId) (place : Lowerable) (b : EditBuffer) : Prop :=
  ∀ e ∈ b.edits, e.Outside (range t place.whole) ∨ ∃ m ∈ t.embedded place n, e.Inside (range t m)

end Table

/-- A text that stands for a node. It is as long as the number of the node says. -/
def label (n : NodeId) : String := String.ofList (List.replicate n '.')

lemma length_label (n : NodeId) : (label n).length = n := by simp [label]

/-- The buffer with labels in place of the nodes. -/
def Table.labelled (t : Table) (text : Text) (nodes : List NodeId) : EditBuffer :=
  { EditBuffer.ofText text with
    edits := nodes.map fun m => ⟨(range t m).1, (range t m).2, (label m).toList⟩ }

namespace Table.Tree

variable {t : Table} {text : Text} {root n m k : NodeId} {place : Lowerable} {b : EditBuffer}
  (tree : t.Tree text root) (ok : t.lowerable n = .ok place)

include tree

/-- The text of a node is what is written in its range. -/
lemma textOf_eq (base : b.base = .ofText text) (inTree : m < t.size) :
    t.textOf b m = String.ofList
      (EditBuffer.render text (range t m).2 (range t m).1 (b.editsIn (range t m))) := by
  obtain ⟨node, found⟩ := lt_size_iff.mp inTree
  have inside : node.stop ≤ b.length := by
    rw [EditBuffer.length_of_base base]
    exact Text.le_size_of_isBoundary (tree.tidy.closed found)
  have read := EditBuffer.get_eq (tree.tidy.laid found).le inside
  rw [EditBuffer.text_stretches, EditBuffer.source_of_base base] at read
  simp [textOf, found, Pass.range_of_get? found, read]

include ok

lemma embedded_wide (mem : m ∈ t.embedded place n) :
    m < t.size ∧ (range t m).1 < (range t m).2 := by
  obtain ⟨lo, hi, ns, laid, perm⟩ := tree.embedded_laid ok
  obtain ⟨node, found, _, wide, _⟩ := laid.within (perm.subset mem)
  rw [Pass.range_of_get? found]
  exact ⟨lt_size found, wide⟩

/-- The keys of a site are in the buffer as they are in the source. -/
lemma textOf_key (base : b.base = .ofText text) (spared : t.Spared n place b) (has : t.HasKey n k) :
    t.textOf b k = String.ofList (text.slice (range t k).1 (range t k).2) := by
  obtain ⟨form, found, children⟩ := tree.lowerable_parts ok
  obtain ⟨whole, isWhole, rfl⟩ := form?_eq_some.mp found
  have under : t.Under place.whole k := .of_child tree.tidy
    (mem_children_of_form found (by simp [children])) (has.under tree.tidy)
  have within := Pass.within_of_under tree.tidy isWhole under
  have clear : b.editsIn (range t k) = [] := by
    refine filter_eq_nil_iff.mpr fun e mem => ?_
    rcases spared e mem with outside | ⟨m, isEmbedded, inside⟩
    · exact (outside.mono within.1 within.2).not_isWithin
    · exact (inside.outside (tree.key_beside ok has isEmbedded).symm).not_isWithin
  rw [tree.textOf_eq base ((tree.tidy.under_le under).trans_lt (lt_size isWhole)), clear]
  rfl

lemma spared_labelled : t.Spared n place (t.labelled text (t.embedded place n)) := by
  intro e mem
  obtain ⟨m, isEmbedded, rfl⟩ := mem_map.mp mem
  have wide := (tree.embedded_wide ok isEmbedded).2
  exact .inr ⟨m, isEmbedded, wide.le, Edit.isWithin_iff.mpr (.inr ⟨wide.ne, le_rfl, le_rfl⟩)⟩

lemma textOf_labelled (mem : m ∈ t.embedded place n) :
    t.textOf (t.labelled text (t.embedded place n)) m = label m := by
  obtain ⟨lo, hi, ns, laid, perm⟩ := tree.embedded_laid ok
  have nodup : (t.embedded place n).Nodup := perm.nodup_iff.mpr laid.nodup
  have alone (m' : NodeId) (mem' : m' ∈ t.embedded place n) :
      (Edit.mk (range t m').1 (range t m').2 (label m').toList).isWithin (range t m).1
        (range t m).2 =
        decide (m' = m) := by
    have wide := (tree.embedded_wide ok mem').2
    have inside : (Edit.mk (range t m').1 (range t m').2 (label m').toList).Inside (range t m') :=
      ⟨wide.le, Edit.isWithin_iff.mpr (.inr ⟨wide.ne, le_rfl, le_rfl⟩)⟩
    by_cases same : m' = m
    · subst same
      simpa using inside.2
    · obtain ⟨node, found, _⟩ := laid.within (perm.subset mem)
      obtain ⟨node', found', _⟩ := laid.within (perm.subset mem')
      have apart : Beside (range t m') (range t m) := by
        rw [Pass.range_of_get? found, Pass.range_of_get? found']
        exact laid.apart (perm.subset mem') (perm.subset mem) found' found same
      simpa [same] using (inside.outside apart).not_isWithin
  have only : (t.labelled text (t.embedded place n)).editsIn (range t m) =
      [⟨(range t m).1, (range t m).2, (label m).toList⟩] := by
    unfold EditBuffer.editsIn labelled
    rw [filter_map]
    refine (congrArg _ (filter_congr alone)).trans ?_
    rw [filter_eq, count_eq_one_of_mem nodup mem]
    rfl
  rw [tree.textOf_eq rfl (tree.embedded_wide ok mem).1, only]
  simp [EditBuffer.render, Text.slice_self, (tree.embedded_wide ok mem).2.le]

/-- Lowering a site depends on the buffer in the texts of the expressions only. -/
lemma lowerSite_eq (base : b.base = .ofText text) (spared : t.Spared n place b) (retain : Bool)
    (scopes : Scopes) (log : Array Event) :
    t.lowerSite b n retain scopes log =
      ((t.lowerSite (t.labelled text (t.embedded place n)) n retain scopes log).1.map
          (LoweredSite.requote fun x => t.textOf b x.length),
        (t.lowerSite (t.labelled text (t.embedded place n)) n retain scopes log).2) := by
  have expressions (m : NodeId) (mem : m ∈ t.embedded place n) :
      t.textOf b m = t.textOf b (t.textOf (t.labelled text (t.embedded place n)) m).length := by
    rw [tree.textOf_labelled ok mem, length_label]
  refine tree.lowerSite_requote ok ⟨fun m has => ?_, fun k has => ?_⟩
    (fun unnamed => ?_) retain scopes log
  · exact expressions m ((mem_embedded tree.tidy).mpr (.inr has))
  · rw [tree.textOf_key ok base spared has, tree.textOf_key ok rfl (tree.spared_labelled ok) has]
  · exact expressions _ ((mem_embedded tree.tidy).mpr (.inl ⟨rfl, unnamed⟩))

end Table.Tree

end PatternLowering

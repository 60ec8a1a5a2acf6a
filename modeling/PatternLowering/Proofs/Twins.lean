import PatternLowering.Proofs.Locality
import PatternLowering.Proofs.Parsing

/-!
# Two parsers on the same stretch

While the same stretch is read in two texts, the two parsers make the same nodes under the same
numbers. The ranges of the nodes differ by the distance of the texts. Nodes that were there before
are no matter: they need not be the same, but they stay what they are.

A pattern may be read as a literal in one of the texts. Its nodes then are drafts.
-/

namespace PatternLowering

/-- What a node of a pattern is as long as the pattern is taken for a literal. -/
def Form.draft : Form → Form
  | objectPattern properties => objectLiteral properties
  | arrayPattern elements => arrayLiteral elements
  | bindingProperty (some key) computed target => property key computed target
  | bindingProperty none _ target => shorthand target
  | restElement target => spread target
  | form => form

namespace Table

variable {t t' t'' : Table} {n m : NodeId} {start stop : Nat} {form old : Form}

/-- The node with this range and form. -/
def At (t : Table) (m : NodeId) (start stop : Nat) (form : Form) : Prop :=
  ∃ parent, t.get? m = some ⟨start, stop, parent, form⟩

namespace At

lemma lt_size (at_ : t.At m start stop form) : m < t.size := by
  obtain ⟨_, found⟩ := at_
  exact Table.lt_size found

lemma form? (at_ : t.At m start stop form) : t.form? m = some form := by
  obtain ⟨_, found⟩ := at_
  simp [Table.form?, found]

lemma unique {start' stop' : Nat} {form' : Form} (at_ : t.At m start stop form)
    (again : t.At m start' stop' form') : start' = start ∧ stop' = stop ∧ form' = form := by
  obtain ⟨_, found⟩ := at_
  obtain ⟨_, found'⟩ := again
  cases found.symm.trans found'
  exact ⟨rfl, rfl, rfl⟩

end At

lemma exists_at (known : m < t.size) : ∃ start stop form, t.At m start stop form := by
  obtain ⟨node, found⟩ := lt_size_iff.mp known
  exact ⟨node.start, node.stop, node.form, node.parent, found⟩

lemma exists_at_of_form? (found : t.form? m = some form) :
    ∃ start stop, t.At m start stop form := by
  obtain ⟨node, isNode, rfl⟩ := form?_eq_some.mp found
  exact ⟨node.start, node.stop, node.parent, isNode⟩

/-- Every node stays where and what it is. It may get another parent. -/
structure Preserves (t t' : Table) : Prop where
  node : ∀ {m start stop form}, t.At m start stop form → t'.At m start stop form

lemma Preserves.refl (t : Table) : t.Preserves t := ⟨fun at_ => at_⟩

lemma Preserves.trans (first : t.Preserves t') (second : t'.Preserves t'') : t.Preserves t'' :=
  ⟨fun at_ => second.node (first.node at_)⟩

lemma Preserves.form? (keeps : t.Preserves t') (found : t.form? m = some form) :
    t'.form? m = some form := by
  obtain ⟨_, _, at_⟩ := exists_at_of_form? found
  exact (keeps.node at_).form?

lemma keeps_add (start stop : Nat) (form : Form) : t.Preserves (t.add start stop form).2 := by
  refine ⟨fun {m start' stop' form'} at_ => ?_⟩
  obtain ⟨parent, found⟩ := at_
  refine ⟨if m ∈ form.children then some t.size else parent, ?_⟩
  rw [get?_add_of_lt _ _ _ (lt_size found), found]
  split <;> simp_all

lemma at_add_self (start stop : Nat) (form : Form) :
    (t.add start stop form).2.At t.size start stop form :=
  ⟨none, get?_add_self start stop form⟩

lemma at_add (start stop : Nat) (form : Form) {start' stop' : Nat} {form' : Form}
    (at_ : (t.add start stop form).2.At m start' stop' form') :
    m = t.size ∧ start' = start ∧ stop' = stop ∧ form' = form ∨ t.At m start' stop' form' := by
  obtain ⟨_, found⟩ := at_
  rcases get?_add_eq_some found with ⟨rfl, same⟩ | ⟨⟨_, _, parent, _⟩, found, rfl, rfl, rfl⟩
  · cases same
    exact .inl ⟨rfl, rfl, rfl, rfl⟩
  · exact .inr ⟨parent, found⟩

lemma at_reinterpret {start' stop' : Nat} {form' : Form} :
    (t.reinterpret n form).At m start' stop' form' ↔
      m = n ∧ form' = form ∧ (∃ old, t.At m start' stop' old) ∨ m ≠ n ∧
        t.At m start' stop' form' := by
  unfold At
  rw [get?_reinterpret]
  cases t.get? m with
  | none => simp
  | some node =>
    obtain ⟨a, b, parent, f⟩ := node
    by_cases same : m = n
    · simp [same, eq_comm, and_comm, and_assoc]
    · simp [same]

lemma Preserves.reinterpret {known : Table} (keeps : known.Preserves t) (new : known.size ≤ n)
    (form : Form) : known.Preserves (t.reinterpret n form) := by
  refine ⟨fun {m _ _ _} at_ => ?_⟩
  have other : m ≠ n := fun same => absurd at_.lt_size (Nat.not_lt.mpr (same ▸ new))
  exact at_reinterpret.mpr (.inr ⟨other, keeps.node at_⟩)

/-- The nodes made since the tables were `old` and `old'` are the same, apart from their places.
Those that are `drafts` may still be literals in the second table. -/
structure Twins (w : Twin) (old old' : Table) (drafts : NodeId → Prop) (t t' : Table) : Prop where
  size : t'.size = t.size
  oldSize : old'.size = old.size
  grown : old.size ≤ t.size
  kept : old.Preserves t
  kept' : old'.Preserves t'
  nodes : ∀ {m start stop form}, old.size ≤ m → t.At m start stop form →
    ∃ start' stop' form', t'.At m start' stop' form' ∧ start = start' + w.shift ∧
      stop = stop' + w.shift ∧ (form' = form ∨ drafts m ∧ form' = form.draft)

namespace Twins

variable {w : Twin} {old old' : Table} {drafts drafts' : NodeId → Prop} {u u' : Table}

lemma refl (same : t'.size = t.size) : Twins w t t' drafts t t' where
  size := same
  oldSize := same
  grown := le_rfl
  kept := .refl t
  kept' := .refl t'
  nodes new at_ := absurd at_.lt_size (Nat.not_lt.mpr new)

lemma widen (twins : Twins w old old' drafts t t') (wider : ∀ m, drafts m → drafts' m) :
    Twins w old old' drafts' t t' :=
  { twins with
    nodes := fun {m _ _ _} new at_ => by
      obtain ⟨start', stop', form', at', moved, moved', same⟩ := twins.nodes new at_
      exact ⟨start', stop', form', at', moved, moved', same.imp id fun draft =>
        ⟨wider m draft.1, draft.2⟩⟩ }

/-- Nodes made later leave the earlier ones as they are. -/
lemma trans (first : Twins w old old' drafts t t') (second : Twins w t t' drafts' u u') :
    Twins w old old' (fun m => drafts m ∨ drafts' m) u u' where
  size := second.size
  oldSize := first.oldSize
  grown := first.grown.trans second.grown
  kept := first.kept.trans second.kept
  kept' := first.kept'.trans second.kept'
  nodes {m start stop form} new at_ := by
    rcases Nat.lt_or_ge m t.size with before | after
    · obtain ⟨_, _, _, at0⟩ := exists_at before
      obtain ⟨rfl, rfl, rfl⟩ := (second.kept.node at0).unique at_
      obtain ⟨start', stop', form', at', moved, moved', same⟩ := first.nodes new at0
      exact ⟨start', stop', form', second.kept'.node at', moved, moved',
        same.imp id fun draft => ⟨.inl draft.1, draft.2⟩⟩
    · obtain ⟨start', stop', form', at', moved, moved', same⟩ := second.nodes after at_
      exact ⟨start', stop', form', at', moved, moved', same.imp id fun draft =>
        ⟨.inr draft.1, draft.2⟩⟩

/-- Finishing a node in both tables. -/
lemma add (twins : Twins w old old' drafts t t') {start stop start' stop' : Nat} {form form' : Form}
    (moved : start = start' + w.shift) (moved' : stop = stop' + w.shift)
    (same : form' = form ∨ drafts t.size ∧ form' = form.draft) :
    Twins w old old' drafts (t.add start stop form).2 (t'.add start' stop' form').2 where
  size := by rw [size_add, size_add, twins.size]
  oldSize := twins.oldSize
  grown := by
    rw [size_add]
    exact twins.grown.trans (Nat.le_succ _)
  kept := twins.kept.trans (keeps_add _ _ _)
  kept' := twins.kept'.trans (keeps_add _ _ _)
  nodes new at_ := by
    rcases at_add _ _ _ at_ with ⟨rfl, rfl, rfl, rfl⟩ | before
    · refine ⟨start', stop', form', ?_, moved, moved', same⟩
      rw [← twins.size]
      exact at_add_self _ _ _
    · obtain ⟨a, b, f, at', rest⟩ := twins.nodes new before
      exact ⟨a, b, f, (keeps_add _ _ _).node at', rest⟩

/-- Changing a node that was made, in both tables. -/
lemma reinterpret (twins : Twins w old old' drafts t t') (new : old.size ≤ n) :
    Twins w old old' drafts (t.reinterpret n form) (t'.reinterpret n form) where
  size := by rw [size_reinterpret, size_reinterpret, twins.size]
  oldSize := twins.oldSize
  grown := by
    rw [size_reinterpret]
    exact twins.grown
  kept := twins.kept.reinterpret new form
  kept' := twins.kept'.reinterpret (twins.oldSize ▸ new) form
  nodes later at_ := by
    rcases at_reinterpret.mp at_ with ⟨rfl, rfl, before, at0⟩ | ⟨other, before⟩
    · obtain ⟨a, b, f, at', moved, moved', _⟩ := twins.nodes later at0
      exact ⟨a, b, _, at_reinterpret.mpr (.inl ⟨rfl, rfl, f, at'⟩), moved, moved', .inl rfl⟩
    · obtain ⟨a, b, f, at', rest⟩ := twins.nodes later before
      exact ⟨a, b, f, at_reinterpret.mpr (.inr ⟨other, at'⟩), rest⟩

end Twins

/-- The parts of nodes from `floor` on are from `floor` on. -/
def Closed (floor : Nat) (t : Table) : Prop :=
  ∀ {m start stop form}, floor ≤ m → t.At m start stop form → ∀ part ∈ form.children, floor ≤ part

end Table

namespace ParseState

/-- The parsers stand on the same token, and what they made since the tables were `old` and `old'`
is the same. -/
structure Twins (w : Twin) (old old' : Table) (drafts : NodeId → Prop) (s s' : ParseState) :
    Prop where
  scanner : s.scanner.Alike w s'.scanner
  clean : s.faults = []
  clean' : s'.faults = []
  last : max s.lastStop (w.base + w.shift) = max s'.lastStop w.base + w.shift
  table : Table.Twins w old old' drafts s.table s'.table

/-- Nothing was wrong so far, and the blank behind the stretch is still ahead. -/
structure Early (w : Twin) (s : ParseState) : Prop where
  clean : s.faults = []
  scanner : s.scanner.faults = []
  before : s.scanner.closing.Before w

variable {w : Twin} {old old' : Table} {drafts drafts' : NodeId → Prop} {s s' u u' : ParseState}

lemma Twins.start (twins : s.Twins w old old' drafts s') :
    s.here = s'.here + w.shift ∧ w.base ≤ s'.here := by
  refine ⟨twins.scanner.start, ?_⟩
  have := twins.scanner.inside.1
  rwa [← twins.scanner.starts] at this

/-- From here on. -/
lemma Twins.rebase (twins : s.Twins w old old' drafts s') :
    s.Twins w s.table s'.table drafts' s' :=
  { twins with table := .refl twins.table.size }

lemma Twins.widen (twins : s.Twins w old old' drafts s') (wider : ∀ m, drafts m → drafts' m) :
    s.Twins w old old' drafts' s' :=
  { twins with table := twins.table.widen wider }

lemma Twins.trans (first : s.Twins w old old' drafts s')
    (second : u.Twins w s.table s'.table drafts' u') :
    u.Twins w old old' (fun m => drafts m ∨ drafts' m) u' :=
  { second with table := first.table.trans second.table }

/-- Passing the same token. -/
lemma Twins.advance (twins : s.Twins w old old' drafts s') (ran : Parse.advance s = .ok () u)
    (early : u.Early w) :
    ∃ u', Parse.advance s' = .ok () u' ∧ u.Twins w old old' drafts u' ∧ u.table = s.table ∧
      u'.table = s'.table := by
  cases ran
  obtain ⟨clean, _, before⟩ := early
  obtain ⟨_, faults⟩ := List.append_eq_nil_iff.mp clean
  have scanned : s.scanner.scan.Alike w s'.scanner.scan := twins.scanner.scan before faults
  refine ⟨_, rfl, ⟨?_, clean, ?_, ?_, twins.table⟩, rfl, rfl⟩
  · exact { scanned with clean := rfl, clean' := rfl, lexeme := scanned.lexeme }
  · have := scanned.clean'
    simp only [Scanner.takeFaults, twins.clean', this, List.append_nil]
  · have := twins.scanner.stop
    dsimp only
    rw [this]
    omega

lemma Twins.rescanSlash (twins : s.Twins w old old' drafts s')
    (early : Early w { s with scanner := s.scanner.rescanSlash }) :
    Twins w old old' drafts { s with scanner := s.scanner.rescanSlash }
      { s' with scanner := s'.scanner.rescanSlash } :=
  { twins with scanner := twins.scanner.rescanSlash early.before early.scanner }

/-- Finishing the same node, or its draft. -/
lemma Twins.finish (twins : s.Twins w old old' drafts s') {start start' : Nat} {form form' : Form}
    (moved : start = start' + w.shift) (inside : w.base ≤ start')
    (same : form' = form ∨ drafts s.table.size ∧ form' = form.draft) :
    Twins w old old' drafts
      { s with table := (s.table.add start (max s.lastStop start) form).2 }
      { s' with table := (s'.table.add start' (max s'.lastStop start') form').2 } := by
  refine { twins with table := twins.table.add moved ?_ same }
  have := twins.last
  omega

end ParseState

end PatternLowering

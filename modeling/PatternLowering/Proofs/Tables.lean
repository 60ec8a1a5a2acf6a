import Mathlib
import PatternLowering.Node.Table

/-!
# Tables as forests

While a program is read, the finished nodes form a forest over the text: each node knows its parent,
comes after its parts and spans them, and the parts stand in the order of the text without sharing a
byte. Changing what a node is keeps all this, as long as its parts stay the same.
-/

namespace PatternLowering

namespace Form

/-- The text that a name, a number, a regular expression or a constant stands for. -/
def word? : Form → Option String
  | identifier name => some name
  | number text => some text
  | regex text => some text
  | constant keyword => some keyword.spelling
  | _ => none

/-- More is known about the text of such a node than that its parts are in it. -/
def isSpelled : Form → Bool
  | block _ => true
  | form => form.word?.isSome

lemma isSpelled_of_word? {form : Form} {word : String} (isWord : form.word? = some word) :
    form.isSpelled := by
  cases form <;> first | rfl | cases isWord

end Form

namespace Table

variable {t : Table} {n m p : NodeId}

lemma lt_size_iff : n < t.size ↔ ∃ node, t.get? n = some node := by
  unfold size get?
  constructor
  · intro inside
    exact ⟨_, Array.getElem?_eq_getElem inside⟩
  · rintro ⟨node, found⟩
    exact (Array.getElem?_eq_some_iff.mp found).1

lemma lt_size {node : Node} (found : t.get? n = some node) : n < t.size :=
  lt_size_iff.mpr ⟨node, found⟩

lemma get?_eq_none (outside : t.size ≤ n) : t.get? n = none := by
  unfold size at outside
  simp [get?, outside]

lemma form?_eq_some {form : Form} :
    t.form? n = some form ↔ ∃ node, t.get? n = some node ∧ node.form = form := by
  simp [form?]

lemma form?_of_name? {name : String} (spelled : t.name? n = some name) :
    t.form? n = some (.identifier name) := by
  rw [name?] at spelled
  cases found : t.form? n with
  | none => simp [found] at spelled
  | some form => cases form <;> simp_all [Form.name?]

lemma mem_children :
    m ∈ t.children n ↔ ∃ node, t.get? n = some node ∧ m ∈ node.form.children := by
  unfold children form?
  cases t.get? n <;> simp

@[simp] lemma size_update (f : Node → Node) : (t.update n f).size = t.size := by
  unfold update size
  split <;> simp

lemma get?_update (f : Node → Node) :
    (t.update n f).get? m = if m = n then (t.get? n).map f else t.get? m := by
  unfold update get?
  split
  · rename_i inside
    by_cases same : m = n
    · subst same
      simp [inside]
    · simp [same, Ne.symm same]
  · rename_i outside
    by_cases same : m = n
    · subst same
      simp [outside]
    · simp [same]

@[simp] lemma size_adopt (parts : List NodeId) : (t.adopt p parts).size = t.size := by
  unfold adopt
  induction parts generalizing t with
  | nil => rfl
  | cons part later ih => rw [List.foldl_cons, ih, size_update]

lemma get?_adopt (parts : List NodeId) :
    (t.adopt p parts).get? m =
      (t.get? m).map fun node => if m ∈ parts then { node with parent := some p } else node := by
  unfold adopt
  induction parts generalizing t with
  | nil => simp
  | cons part later ih =>
    rw [List.foldl_cons, ih, get?_update]
    by_cases same : m = part
    · subst same
      cases t.get? m <;> simp
    · simp [same]

@[simp] lemma size_add (start stop : Nat) (form : Form) :
    (t.add start stop form).2.size = t.size + 1 := by
  have := t.size_adopt (p := t.size) form.children
  unfold size at this
  simp only [add, size, Array.size_push]
  omega

/-- The node that was added. -/
lemma get?_add_self (start stop : Nat) (form : Form) :
    (t.add start stop form).2.get? t.size = some ⟨start, stop, none, form⟩ := by
  have size := t.size_adopt (p := t.size) form.children
  simp only [add, get?, Table.size] at size ⊢
  rw [Array.getElem?_push, if_pos size.symm]

/-- The nodes that were there before only get a parent. -/
lemma get?_add_of_lt (start stop : Nat) (form : Form) (old : m < t.size) :
    (t.add start stop form).2.get? m =
      (t.get? m).map fun node =>
        if m ∈ form.children then { node with parent := some t.size } else node := by
  have size := t.size_adopt (p := t.size) form.children
  rw [← get?_adopt]
  simp only [add, get?, Table.size] at size old ⊢
  rw [Array.getElem?_push, if_neg (old.trans_eq size.symm).ne]

/-- They stay what they are. -/
lemma form?_add {start stop : Nat} {form old : Form} (found : t.form? m = some old) :
    (t.add start stop form).2.form? m = some old := by
  obtain ⟨node, isNode, rfl⟩ := form?_eq_some.mp found
  rw [form?, get?_add_of_lt _ _ _ (lt_size isNode), isNode]
  simp only [Option.map_some]
  split <;> rfl

@[simp] lemma size_reinterpret (form : Form) : (t.reinterpret n form).size = t.size := by
  simp [reinterpret]

lemma get?_reinterpret (form : Form) :
    (t.reinterpret n form).get? m =
      (t.get? m).map fun node =>
        { node with
          form := if m = n then form else node.form
          parent := if m ∈ form.children then some n else node.parent } := by
  rw [reinterpret, get?_adopt, get?_update]
  by_cases same : m = n
  · subst same
    cases t.get? m <;> by_cases part : m ∈ form.children <;> simp [part]
  · cases t.get? m <;> by_cases part : m ∈ form.children <;> simp [part, same]

/-- The nodes span stretches between `lo` and `hi`, one after the other. -/
def Laid (t : Table) : Nat → List NodeId → Nat → Prop
  | lo, [], hi => lo ≤ hi
  | lo, n :: later, hi =>
    ∃ node, t.get? n = some node ∧ lo ≤ node.start ∧ node.start < node.stop ∧
      t.Laid node.stop later hi

namespace Laid

variable {lo lo' hi hi' : Nat} {ns ms : List NodeId}

lemma le (laid : t.Laid lo ns hi) : lo ≤ hi := by
  induction ns generalizing lo with
  | nil => exact laid
  | cons n later ih =>
    obtain ⟨node, _, first, wide, rest⟩ := laid
    have := ih rest
    omega

lemma lt (laid : t.Laid lo ns hi) (nonempty : ns ≠ []) : lo < hi := by
  cases ns with
  | nil => exact absurd rfl nonempty
  | cons n later =>
    obtain ⟨node, _, first, wide, rest⟩ := laid
    have := rest.le
    omega

lemma mono (laid : t.Laid lo ns hi) (before : lo' ≤ lo) (after : hi ≤ hi') :
    t.Laid lo' ns hi' := by
  induction ns generalizing lo lo' with
  | nil => exact before.trans (laid.trans after)
  | cons n later ih =>
    obtain ⟨node, found, first, wide, rest⟩ := laid
    exact ⟨node, found, before.trans first, wide, ih rest le_rfl⟩

lemma append (first : t.Laid lo ns hi) (second : t.Laid lo' ms hi') (apart : hi ≤ lo') :
    t.Laid lo (ns ++ ms) hi' := by
  induction ns generalizing lo with
  | nil => exact second.mono (first.trans apart) le_rfl
  | cons n later ih =>
    obtain ⟨node, found, before, wide, rest⟩ := first
    exact ⟨node, found, before, wide, ih rest⟩

/-- Only the spans of the nodes matter. -/
lemma congr {t' : Table} (laid : t.Laid lo ns hi)
    (same : ∀ n ∈ ns, ∀ node, t.get? n = some node →
      ∃ node', t'.get? n = some node' ∧ node'.start = node.start ∧ node'.stop = node.stop) :
    t'.Laid lo ns hi := by
  induction ns generalizing lo with
  | nil => exact laid
  | cons n later ih =>
    obtain ⟨node, found, before, wide, rest⟩ := laid
    obtain ⟨node', found', start, stop⟩ := same n (by simp) node found
    refine ⟨node', found', by omega, by omega, ?_⟩
    rw [stop]
    exact ih rest fun m mem => same m (by simp [mem])

/-- Each of the nodes lies in the stretch. -/
lemma within (laid : t.Laid lo ns hi) (mem : n ∈ ns) :
    ∃ node, t.get? n = some node ∧ lo ≤ node.start ∧ node.start < node.stop ∧ node.stop ≤ hi := by
  induction ns generalizing lo with
  | nil => cases mem
  | cons m later ih =>
    obtain ⟨node, found, before, wide, rest⟩ := laid
    rcases List.mem_cons.mp mem with rfl | mem
    · exact ⟨node, found, before, wide, rest.le⟩
    · obtain ⟨node', found', before', rest'⟩ := ih rest mem
      exact ⟨node', found', by omega, rest'⟩

/-- No node is there twice. -/
lemma nodup (laid : t.Laid lo ns hi) : ns.Nodup := by
  induction ns generalizing lo with
  | nil => exact List.nodup_nil
  | cons n later ih =>
    obtain ⟨node, found, _, wide, rest⟩ := laid
    refine List.nodup_cons.mpr ⟨fun again => ?_, ih rest⟩
    obtain ⟨node', found', before', _⟩ := rest.within again
    cases found.symm.trans found'
    omega

/-- Two different ones have no byte in common. -/
lemma apart (laid : t.Laid lo ns hi) {node node' : Node} (first : n ∈ ns) (second : m ∈ ns)
    (found : t.get? n = some node) (found' : t.get? m = some node') (other : n ≠ m) :
    node.stop ≤ node'.start ∨ node'.stop ≤ node.start := by
  induction ns generalizing lo with
  | nil => cases first
  | cons k later ih =>
    obtain ⟨head, isHead, _, wide, rest⟩ := laid
    rcases List.mem_cons.mp first with rfl | first'
    · obtain ⟨_, same, before, _⟩ := rest.within ((List.mem_cons.mp second).resolve_left other.symm)
      cases isHead.symm.trans found
      cases same.symm.trans found'
      exact .inl before
    · rcases List.mem_cons.mp second with rfl | second'
      · obtain ⟨_, same, before, _⟩ := rest.within first'
        cases isHead.symm.trans found'
        cases same.symm.trans found
        exact .inr before
      · exact ih rest first' second'

end Laid

/-- The nodes of a table as a forest over the text. `opens` and `closes` are the offsets where
nodes may start and stop. The statements of a block stand between its braces. -/
structure Tidy (opens closes : Nat → Prop) (t : Table) : Prop where
  laid : ∀ {n node}, t.get? n = some node → t.Laid node.start node.form.children node.stop
  opened : ∀ {n node}, t.get? n = some node → opens node.start
  closed : ∀ {n node}, t.get? n = some node → closes node.stop
  braces : ∀ {n node statements}, t.get? n = some node → node.form = .block statements →
    t.Laid (node.start + 1) statements (node.stop - 1)
  below : ∀ {n m}, m ∈ t.children n → m < n
  parents : ∀ {n m}, t.parent? m = some n ↔ m ∈ t.children n

/-- The node is `top` or one of its parts, at any depth. -/
inductive Under (t : Table) (top : NodeId) : NodeId → Prop where
  | self : Under t top top
  | part {n parent : NodeId} (up : t.parent? n = some parent) (rest : Under t top parent) :
    Under t top n

lemma Under.trans {top mid : NodeId} (outer : t.Under top mid) (inner : t.Under mid n) :
    t.Under top n := by
  induction inner with
  | self => exact outer
  | part up _ ih => exact .part up ih

variable {opens closes : Nat → Prop}

namespace Tidy

lemma empty : Tidy opens closes .empty := by
  refine ⟨?_, ?_, ?_, ?_, ?_, ?_⟩ <;> simp [Table.empty, get?, children, form?, parent?]

/-- Nodes may as well start and stop at more offsets. -/
lemma mono {opens' closes' : Nat → Prop} (tidy : t.Tidy opens closes)
    (starts : ∀ offset, opens offset → opens' offset)
    (stops : ∀ offset, closes offset → closes' offset) : t.Tidy opens' closes' :=
  { tidy with
    opened := fun found => starts _ (tidy.opened found)
    closed := fun found => stops _ (tidy.closed found) }

variable (tidy : t.Tidy opens closes)

include tidy

lemma parent?_of_mem (part : m ∈ t.children n) : t.parent? m = some n := tidy.parents.mpr part

lemma lt_parent (up : t.parent? m = some n) : m < n :=
  tidy.below (tidy.parents.mp up)

lemma parent_lt_size (up : t.parent? m = some n) : n < t.size := by
  obtain ⟨node, found, _⟩ := mem_children.mp (tidy.parents.mp up)
  exact lt_size found

lemma under_le {top : NodeId} (under : t.Under top n) : n ≤ top := by
  induction under with
  | self => exact le_rfl
  | part up _ ih => exact (tidy.lt_parent up).le.trans ih

/-- A node lies under one part of another node at most. -/
lemma under_part_unique {top a b : NodeId}
    (isPart : t.parent? a = some top) (isPart' : t.parent? b = some top) (under : t.Under a n)
    (under' : t.Under b n) : a = b := by
  have top_not_under {k : NodeId} (part : t.parent? k = some top) : ¬ t.Under k top := fun inside =>
    absurd (tidy.under_le inside) (Nat.not_le_of_lt (tidy.lt_parent part))
  induction under with
  | self =>
    cases under' with
    | self => rfl
    | part up rest =>
      cases up.symm.trans isPart
      exact absurd rest (top_not_under isPart')
  | part up _ ih =>
    cases under' with
    | self =>
      cases up.symm.trans isPart'
      exact absurd ‹_› (top_not_under isPart)
    | part up' rest' =>
      cases up.symm.trans up'
      exact ih rest'

/-- A part at any depth spans a stretch of the whole. -/
lemma span_under {top : NodeId} {node inner : Node}
    (under : t.Under top n) (found : t.get? top = some node) (found' : t.get? n = some inner) :
    node.start ≤ inner.start ∧ inner.stop ≤ node.stop := by
  induction under generalizing inner with
  | self =>
    cases found.symm.trans found'
    exact ⟨le_rfl, le_rfl⟩
  | part up _ ih =>
    obtain ⟨outer, isOuter, part⟩ := mem_children.mp (tidy.parents.mp up)
    obtain ⟨_, same, before, _, after⟩ := (tidy.laid isOuter).within part
    cases found'.symm.trans same
    have := ih isOuter
    omega

end Tidy

lemma get?_add_eq_some {start stop : Nat} {form : Form} {node : Node}
    (found : (t.add start stop form).2.get? m = some node) :
    (m = t.size ∧ node = ⟨start, stop, none, form⟩) ∨
      ∃ old, t.get? m = some old ∧ node.start = old.start ∧ node.stop = old.stop ∧
        node.form = old.form := by
  rcases Nat.lt_or_ge m t.size with inside | outside
  · rw [get?_add_of_lt _ _ _ inside] at found
    obtain ⟨old, found, same⟩ := Option.map_eq_some_iff.mp found
    refine .inr ⟨old, found, ?_⟩
    rw [← same]
    split <;> simp
  · have inside := lt_size found
    rw [size_add] at inside
    obtain rfl : m = t.size := Nat.le_antisymm (Nat.le_of_lt_succ inside) outside
    exact .inl ⟨rfl, Option.some.inj (found.symm.trans (get?_add_self ..))⟩

lemma children_add (start stop : Nat) (form : Form) :
    (t.add start stop form).2.children m = if m = t.size then form.children else t.children m := by
  unfold children form?
  split
  · subst m
    rw [get?_add_self]
    rfl
  · rename_i other
    rcases Nat.lt_or_ge m t.size with inside | outside
    · rw [get?_add_of_lt _ _ _ inside]
      cases t.get? m with
      | none => rfl
      | some node =>
        simp only [Option.map_some, Option.getD_some]
        split <;> rfl
    · have beyond := Nat.lt_of_le_of_ne outside (Ne.symm other)
      rw [get?_eq_none outside, get?_eq_none (by rw [size_add]; exact beyond)]

lemma parent?_add (start stop : Nat) (form : Form) (known : ∀ m ∈ form.children, m < t.size) :
    (t.add start stop form).2.parent? m =
      if m ∈ form.children then some t.size else t.parent? m := by
  unfold parent?
  rcases Nat.lt_trichotomy m t.size with inside | rfl | outside
  · rw [get?_add_of_lt _ _ _ inside]
    obtain ⟨node, found⟩ := lt_size_iff.mp inside
    simp only [found, Option.map_some, Option.bind_some]
    split <;> rfl
  · rw [get?_add_self, get?_eq_none le_rfl, if_neg fun part => absurd (known _ part) (lt_irrefl _)]
    rfl
  · rw [get?_eq_none outside.le, get?_eq_none (by rw [size_add]; exact outside),
      if_neg fun part => absurd (known _ part) outside.not_gt]

/-- Adding a node does not move the others. -/
lemma Laid.add {lo hi : Nat} {ns : List NodeId} (laid : t.Laid lo ns hi) (start stop : Nat)
    (form : Form) : (t.add start stop form).2.Laid lo ns hi := by
  refine laid.congr fun m _ node found => ?_
  rw [get?_add_of_lt _ _ _ (lt_size found), found]
  exact ⟨_, rfl, by split <;> rfl, by split <;> rfl⟩

/-- Adding a node keeps the forest if the parts of the node are whole trees, in order. -/
lemma Tidy.add (tidy : t.Tidy opens closes) {start stop : Nat} {form : Form}
    (laid : t.Laid start form.children stop) (roots : ∀ m ∈ form.children, t.parent? m = none)
    (opened : opens start) (closed : closes stop)
    (braces : ∀ statements, form = .block statements → t.Laid (start + 1) statements (stop - 1)) :
    (t.add start stop form).2.Tidy opens closes := by
  have known (m : NodeId) (part : m ∈ form.children) : m < t.size := by
    obtain ⟨node, found, _⟩ := laid.within part
    exact lt_size found
  have fresh : t.children t.size = [] := by simp [children, form?, get?_eq_none le_rfl]
  refine ⟨?_, ?_, ?_, ?_, ?_, ?_⟩
  · intro m node found
    obtain ⟨rfl, rfl⟩ | ⟨old, found', h1, h2, h3⟩ := get?_add_eq_some found
    · exact laid.add ..
    · rw [h1, h2, h3]
      exact (tidy.laid found').add ..
  · intro m node found
    obtain ⟨rfl, rfl⟩ | ⟨old, found', h1, _⟩ := get?_add_eq_some found
    · exact opened
    · exact h1 ▸ tidy.opened found'
  · intro m node found
    obtain ⟨rfl, rfl⟩ | ⟨old, found', _, h2, _⟩ := get?_add_eq_some found
    · exact closed
    · exact h2 ▸ tidy.closed found'
  · intro m node statements found isBlock
    obtain ⟨rfl, rfl⟩ | ⟨old, found', h1, h2, h3⟩ := get?_add_eq_some found
    · exact (braces statements isBlock).add ..
    · rw [h1, h2]
      exact (tidy.braces found' (h3 ▸ isBlock)).add ..
  · intro n m part
    rw [children_add] at part
    split at part
    · subst n
      exact known m part
    · exact tidy.below part
  · intro n m
    rw [parent?_add _ _ _ known, children_add]
    by_cases part : m ∈ form.children
    · -- The part had no parent before, so it is a part of the new node only.
      have noPart : m ∉ t.children n := fun again => by
        cases (roots m part).symm.trans (tidy.parent?_of_mem again)
      by_cases new : n = t.size <;> simp [part, new, noPart, eq_comm]
    · by_cases new : n = t.size
      · subst n
        simp only [part, if_false, if_true, iff_false]
        intro up
        have := tidy.parents.mp up
        rw [fresh] at this
        cases this
      · simp only [part, new, if_false]
        exact tidy.parents

/-- Some of the nodes `inside` changed what they are, but not their parts. None became a block or a
word. -/
structure Recast (inside : NodeId → Prop) (t t' : Table) : Prop where
  size : t'.size = t.size
  node : ∀ {m node}, t.get? m = some node →
    ∃ form, t'.get? m = some { node with form := form } ∧ form.children = node.form.children ∧
      (form.isSpelled → form = node.form)
  outside : ∀ {m}, ¬ inside m → t'.get? m = t.get? m

namespace Recast

variable {t' t'' : Table} {inside inside' : NodeId → Prop}

lemma refl (inside : NodeId → Prop) (t : Table) : Recast inside t t :=
  ⟨rfl, fun {_ node} found => ⟨node.form, found, rfl, fun _ => rfl⟩, fun _ => rfl⟩

lemma trans (first : Recast inside t t') (second : Recast inside t' t'') :
    Recast inside t t'' := by
  refine ⟨second.size.trans first.size, fun found => ?_, fun out => ?_⟩
  · obtain ⟨form, found', same, kept⟩ := first.node found
    obtain ⟨form', found'', same', kept'⟩ := second.node found'
    refine ⟨form', found'', same'.trans same, fun spelled => ?_⟩
    obtain rfl : form' = form := kept' spelled
    exact kept spelled
  · exact (second.outside out).trans (first.outside out)

variable (recast : Recast inside t t')

include recast

lemma widen (wider : ∀ m, inside m → inside' m) : Recast inside' t t' :=
  ⟨recast.size, recast.node, fun {m} out => recast.outside fun narrow => out (wider m narrow)⟩

lemma get? (m : NodeId) : t'.get? m = none ∧ t.get? m = none ∨ ∃ node form, t.get? m = some node ∧
      t'.get? m = some { node with form := form } ∧ form.children = node.form.children ∧
        (form.isSpelled → form = node.form) := by
  cases found : t.get? m with
  | none =>
    have beyond : t.size ≤ m := Nat.le_of_not_lt fun known => by
      obtain ⟨node, found'⟩ := lt_size_iff.mp known
      cases found.symm.trans found'
    exact .inl ⟨get?_eq_none (recast.size ▸ beyond), rfl⟩
  | some node =>
    obtain ⟨form, found', same⟩ := recast.node found
    exact .inr ⟨node, form, rfl, found', same⟩

lemma parent? : t'.parent? m = t.parent? m := by
  unfold Table.parent?
  obtain ⟨h, h'⟩ | ⟨node, form, h, h', _⟩ := recast.get? m <;> rw [h, h']
  rfl

lemma children : t'.children m = t.children m := by
  unfold Table.children form?
  obtain ⟨h, h'⟩ | ⟨node, form, h, h', same, _⟩ := recast.get? m <;> rw [h, h']
  simpa using same

lemma form? (out : ¬ inside m) : t'.form? m = t.form? m := by
  rw [Table.form?, recast.outside out, Table.form?]

lemma under_iff {a : NodeId} : t'.Under a n ↔ t.Under a n := by
  constructor
  · intro under
    induction under with
    | self => exact .self
    | part up _ ih => exact .part (recast.parent? ▸ up) ih
  · intro under
    induction under with
    | self => exact .self
    | part up _ ih => exact .part (recast.parent?.trans up) ih

lemma laid {lo hi : Nat} {ns : List NodeId} (laid : t.Laid lo ns hi) : t'.Laid lo ns hi := by
  refine laid.congr fun m _ node found => ?_
  obtain ⟨form, found', _⟩ := recast.node found
  exact ⟨_, found', rfl, rfl⟩

/-- A node has the range it had, the same parts, and if it is spelled the same form. -/
lemma back {node' : Node} (found : t'.get? m = some node') :
    ∃ node, t.get? m = some node ∧ node'.start = node.start ∧ node'.stop = node.stop ∧
      node'.form.children = node.form.children ∧
        (node'.form.isSpelled → node'.form = node.form) := by
  obtain ⟨h, _⟩ | ⟨node, form, h, h', same, kept⟩ := recast.get? m
  · cases found.symm.trans h
  · cases found.symm.trans h'
    exact ⟨node, h, rfl, rfl, same, kept⟩

lemma tidy (tidy : t.Tidy opens closes) : t'.Tidy opens closes := by
  refine ⟨?_, ?_, ?_, ?_, ?_, ?_⟩
  · intro m node' found
    obtain ⟨node, found', h1, h2, h3, _⟩ := recast.back found
    rw [h1, h2, h3]
    exact recast.laid (tidy.laid found')
  · intro m node' found
    obtain ⟨node, found', h1, _⟩ := recast.back found
    exact h1 ▸ tidy.opened found'
  · intro m node' found
    obtain ⟨node, found', _, h2, _⟩ := recast.back found
    exact h2 ▸ tidy.closed found'
  · intro m node' statements found isBlock
    obtain ⟨node, found', h1, h2, _, kept⟩ := recast.back found
    have same := kept (by rw [isBlock]; rfl)
    rw [h1, h2]
    exact recast.laid (tidy.braces found' (same.symm.trans isBlock))
  · intro n m part
    exact tidy.below (recast.children ▸ part)
  · intro n m
    rw [recast.parent?, recast.children]
    exact tidy.parents

end Recast

/-- Changing what a node is, with the same parts. -/
lemma recast_reinterpret {old form : Form} (found : t.form? n = some old)
    (parents : ∀ m ∈ old.children, t.parent? m = some n) (same : form.children = old.children)
    (plain : form.isSpelled = false) :
    Recast (· = n) t (t.reinterpret n form) ∧ (t.reinterpret n form).form? n = some form := by
  obtain ⟨node, isNode, rfl⟩ := form?_eq_some.mp found
  -- The parts have the right parent already.
  have get (m : NodeId) : (t.reinterpret n form).get? m = (t.get? m).map fun node =>
      { node with form := if m = n then form else node.form } := by
    rw [get?_reinterpret]
    cases isInner : t.get? m with
    | none => rfl
    | some inner =>
      by_cases part : m ∈ form.children
      · have up : t.parent? m = some n := parents m (same ▸ part)
        have : inner.parent = some n := by simpa [Table.parent?, isInner] using up
        simp [part, this]
      · simp [part]
  refine ⟨⟨size_reinterpret form, fun {m inner} isInner => ?_, fun {m} outside => ?_⟩, ?_⟩
  · rw [get, isInner]
    refine ⟨_, rfl, ?_⟩
    by_cases self : m = n
    · subst self
      cases isNode.symm.trans isInner
      simpa [plain] using same
    · simp [self]
  · rw [get]
    cases t.get? m <;> simp [outside]
  · rw [form?, get, isNode]
    simp

lemma Tidy.parents_of_form (tidy : t.Tidy opens closes) {form : Form}
    (found : t.form? n = some form) : ∀ m ∈ form.children, t.parent? m = some n := by
  intro m part
  obtain ⟨node, isNode, rfl⟩ := form?_eq_some.mp found
  exact tidy.parent?_of_mem (mem_children.mpr ⟨node, isNode, part⟩)

end Table

end PatternLowering

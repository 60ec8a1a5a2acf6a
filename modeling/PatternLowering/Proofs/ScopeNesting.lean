import PatternLowering.Proofs.ScopeDeclarations

/-!
# The nesting of scopes

Scopes are numbered from the root of the tree downwards, while the scope of a node is looked for
from the node upwards, along parents that the parser has set from the leaves on. Both ways lead to
the same node: the innermost function around, or else the program. Requests for temporaries change
nothing of this, so that binding a file once more gives what the scopes are without their
registries. -/

namespace PatternLowering

open List Scopes

namespace Table

variable {t : Table} {opens closes : Nat → Prop} {n m a : NodeId} {P : NodeId → Prop}

/-! ### Nodes in order -/

def preorderWithin (t : Table) : Nat → NodeId → List NodeId
  | 0, _ => []
  | bound + 1, n => n :: (t.children n).flatMap (t.preorderWithin bound)

/-- A node and then, part by part, what lies under it. Parts have smaller numbers, which bounds the
depth. -/
def preorder (t : Table) (n : NodeId) : List NodeId := t.preorderWithin (n + 1) n

/-- All that lies under a node lies at most as deep as its number says. -/
lemma shallow_self (tidy : t.Tidy opens closes) (n : NodeId) : t.Shallow (n + 1) n := by
  have falls {m : NodeId} (under : t.Under n m) : t.level m + m ≤ t.level n + n := by
    induction under with
    | self => exact Nat.le_refl _
    | @part m parent up _ ih =>
      calc t.level m + m = t.level parent + (m + 1) := by
            rw [level_of_child tidy (tidy.parents.mp up)]
            omega
        _ ≤ t.level parent + parent := Nat.add_le_add_left (tidy.lt_parent up) _
        _ ≤ t.level n + n := ih
  intro m under
  have := falls under
  omega

/-- The depth does not matter where it is enough. -/
lemma preorderWithin_eq (tidy : t.Tidy opens closes) {depth depth' : Nat}
    (shallow : t.Shallow depth n) (shallow' : t.Shallow depth' n) :
    t.preorderWithin depth n = t.preorderWithin depth' n := by
  induction depth generalizing n depth' with
  | zero => exact absurd (shallow n .self) (by omega)
  | succ depth ih =>
    cases depth' with
    | zero => exact absurd (shallow' n .self) (by omega)
    | succ depth' =>
      refine congrArg (n :: ·) (flatMap_congr fun part isPart => ?_)
      exact ih (shallow.child tidy isPart) (shallow'.child tidy isPart)

/-- The node is a function. -/
def isFunction (t : Table) (n : NodeId) : Bool := ((t.form? n).bind Form.function?).isSome

/-- The program and the functions open scopes. -/
def OpensScope (t : Table) (root n : NodeId) : Prop := n = root ∨ t.IsFunction n

/-! ### The innermost node around another one -/

/-- Of the nodes around `n`, itself included, `a` is the innermost one with the property. -/
structure Innermost (t : Table) (P : NodeId → Prop) (n a : NodeId) : Prop where
  holds : P a
  around : t.Under a n
  inner : ∀ {b}, P b → t.Under b n → t.Under b a

lemma Innermost.self (holds : P n) : t.Innermost P n n := ⟨holds, .self, fun _ under => under⟩

/-- A node that is not around itself is around its parent. -/
lemma Under.of_ne (under : t.Under a m) (up : t.parent? m = some n) (other : a ≠ m) :
    t.Under a n := by
  cases under with
  | self => exact absurd rfl other
  | part up' rest =>
    cases up.symm.trans up'
    exact rest

lemma Innermost.of_parent (innermost : t.Innermost P n a) (up : t.parent? m = some n)
    (not : ¬ P m) : t.Innermost P m a where
  holds := innermost.holds
  around := .part up innermost.around
  inner holds under := innermost.inner holds (under.of_ne up fun same => not (same ▸ holds))

/-- What is innermost around the parent is so properly around the part. -/
lemma Innermost.proper (tidy : t.Tidy opens closes) (innermost : t.Innermost P n a)
    (up : t.parent? m = some n) : t.Innermost (fun b => P b ∧ b ≠ m) m a where
  holds := by
    refine ⟨innermost.holds, fun same => ?_⟩
    exact absurd (same ▸ tidy.under_le innermost.around) (Nat.not_le_of_lt (tidy.lt_parent up))
  around := .part up innermost.around
  inner holds under := innermost.inner holds.1 (under.of_ne up holds.2)

end Table

namespace Scopes

variable {s : Scopes} {id : ScopeId}

/-- The node of each scope, with the scope around it. -/
def links (s : Scopes) : List (Option NodeId × Option ScopeId) :=
  s.entries.toList.map fun scope => (scope.node, scope.parent)

lemma map_links : s.links.map Prod.fst = s.nodes := by simp [links, nodes]

lemma links_declare (names : List String) : (s.declare id names).links = s.links :=
  map_update fun _ => rfl

lemma links_push (node : Option NodeId) (parent : Option ScopeId) :
    (s.push node parent).2.links = s.links ++ [(node, parent)] := by simp [links, push]

lemma push_eq (node : Option NodeId) (parent : Option ScopeId) :
    (s.push node parent).1 = s.nodes.length := length_nodes.symm

end Scopes

namespace Binding

variable {t : Table} {opens closes : Nat → Prop} {root n m a : NodeId} {scope : ScopeId}
  {form : Form}

lemma links_enter (t : Table) (scope : ScopeId) (n : NodeId) (form : Form) (s : Scopes) :
    (enter t scope n form s).2.links =
      s.links ++ if form.function?.isSome then [(some n, some scope)] else [] := by
  cases form <;> simp [enter, Form.function?, links_declare, links_push]

lemma enter_scope (t : Table) (scope : ScopeId) (n : NodeId) (form : Form) (s : Scopes) :
    (enter t scope n form s).1 = if form.function?.isSome then s.nodes.length else scope := by
  cases form <;> simp [enter, Form.function?, nodes_declare, push_eq]

/-- Binding a node opens the scopes of the functions under it, in their order. -/
lemma nodes_bind_preorder (t : Table) (depth : Nat) (scope : ScopeId) (n : NodeId) (b : Binding) :
    (bind t depth scope n b).scopes.nodes =
      b.scopes.nodes ++ ((t.preorderWithin depth n).filter t.isFunction).map some := by
  induction depth generalizing scope n b with
  | zero => simp [bind, Table.preorderWithin]
  | succ depth ih =>
    have parts (inner : ScopeId) (ns : List NodeId) (b : Binding) :
        (ns.foldl (fun b part => bind t depth inner part b) b).scopes.nodes =
          b.scopes.nodes ++ ((ns.flatMap (t.preorderWithin depth)).filter t.isFunction).map
            some := by
      induction ns generalizing b with
      | nil => simp
      | cons part later again => rw [foldl_cons, again, ih]; simp
    cases found : t.form? n with
    | none => simp [bind, found, Table.preorderWithin, Table.children, Table.isFunction]
    | some form =>
      have function : t.isFunction n = form.function?.isSome := by simp [Table.isFunction, found]
      have children : t.children n = form.children := by simp [Table.children, found]
      rw [bind, found]
      dsimp only
      rw [parts, nodes_enter, Table.preorderWithin, children, filter_cons, function]
      split <;> simp

/-- Nothing is skipped that does not lie too deep. -/
lemma skipped_bind (tidy : t.Tidy opens closes) {depth : Nat} (shallow : t.Shallow depth n)
    (scope : ScopeId) (b : Binding) : (bind t depth scope n b).skipped = b.skipped := by
  induction depth generalizing n scope b with
  | zero => exact absurd (shallow n .self) (by omega)
  | succ depth ih =>
    have parts (inner : ScopeId) (ns : List NodeId) (isPart : ∀ part ∈ ns, part ∈ t.children n)
      (b : Binding) :
        (ns.foldl (fun b part => bind t depth inner part b) b).skipped = b.skipped := by
      induction ns generalizing b with
      | nil => rfl
      | cons part later again =>
        rw [foldl_cons, again fun m mem => isPart m (by simp [mem])]
        exact ih (shallow.child tidy (isPart part (by simp))) inner b
    cases found : t.form? n with
    | none => simp [bind, found]
    | some form =>
      rw [bind, found]
      exact parts _ form.children (fun part mem => Table.mem_children_of_form found mem) _

/-- The scope is that of the innermost node properly around `n` that opens one. The program stands
in its own scope. -/
def Stands (t : Table) (root : NodeId) (nodes : List (Option NodeId)) (scope : ScopeId)
    (n : NodeId) : Prop :=
  ∃ a, nodes[scope]? = some (some a) ∧ (n = root ∧ a = root ∨
    n ≠ root ∧ t.Innermost (fun b => t.OpensScope root b ∧ b ≠ n) n a)

/-- A function with the scope that it stands in. -/
def Linked (t : Table) (root : NodeId) (nodes : List (Option NodeId))
    (link : Option NodeId × Option ScopeId) : Prop :=
  ∃ f p a, link = (some f, some p) ∧ nodes[p]? = some (some a) ∧
    t.Innermost (fun b => t.OpensScope root b ∧ b ≠ f) f a

/-- Scopes were opened, each by a function in the scope that it stands in. -/
def Extends (t : Table) (root : NodeId) (s s' : Scopes) : Prop :=
  ∃ more, s'.links = s.links ++ more ∧ ∀ link ∈ more, Linked t root s'.nodes link

section Nesting

variable {s s' s'' : Scopes} {known more : List (Option NodeId)}

lemma getElem?_append {node : Option NodeId} (found : known[scope]? = some node) :
    (known ++ more)[scope]? = some node := by
  rw [getElem?_append_left (List.getElem?_eq_some_iff.mp found).1, found]

lemma Stands.append (stands : Stands t root known scope n) :
    Stands t root (known ++ more) scope n := by
  obtain ⟨a, isNode, around⟩ := stands
  exact ⟨a, getElem?_append isNode, around⟩

lemma Linked.append {link : Option NodeId × Option ScopeId} (linked : Linked t root known link) :
    Linked t root (known ++ more) link := by
  obtain ⟨f, p, a, same, isNode, innermost⟩ := linked
  exact ⟨f, p, a, same, getElem?_append isNode, innermost⟩

lemma Extends.refl (t : Table) (root : NodeId) (s : Scopes) :
    Extends t root s s := ⟨[], by simp, by simp⟩

lemma Extends.nodes (extend : Extends t root s s') : ∃ more, s'.nodes = s.nodes ++ more := by
  obtain ⟨more, links, _⟩ := extend
  exact ⟨more.map Prod.fst, by rw [← map_links, links, map_append, map_links]⟩

lemma Extends.trans (first : Extends t root s s') (second : Extends t root s' s'') :
    Extends t root s s'' := by
  obtain ⟨later, nodes⟩ := second.nodes
  obtain ⟨more, links, linked⟩ := first
  obtain ⟨more', links', linked'⟩ := second
  refine ⟨more ++ more', by rw [links', links, append_assoc], fun link mem => ?_⟩
  rcases mem_append.mp mem with mem | mem
  · rw [nodes]
    exact (linked link mem).append
  · exact linked' link mem

lemma extends_enter (program : ¬ t.IsFunction root) (stands : Stands t root s.nodes scope n)
    (found : t.form? n = some form) : Extends t root s (enter t scope n form s).2 := by
  refine ⟨_, links_enter t scope n form s, fun link mem => ?_⟩
  cases function : form.function? with
  | none => simp [function] at mem
  | some parts =>
    obtain rfl : link = (some n, some scope) := by simpa [function] using mem
    obtain ⟨a, isNode, around⟩ := stands
    rcases around with ⟨rfl, _⟩ | ⟨_, innermost⟩
    · exact absurd ⟨form, parts, found, function⟩ program
    · rw [nodes_enter]
      exact ⟨n, scope, a, rfl, getElem?_append isNode, innermost⟩

end Nesting

section Tree

variable (tidy : t.Tidy opens closes) (top : t.parent? root = none)

include tidy top

/-- The parts of a node stand in the scope that it opens, or else in its own. -/
lemma stands_part {s : Scopes} (stands : Stands t root s.nodes scope n)
    (found : t.form? n = some form) (isPart : m ∈ t.children n) :
    Stands t root (enter t scope n form s).2.nodes (enter t scope n form s).1 m := by
  have up := tidy.parent?_of_mem isPart
  have notRoot : m ≠ root := by
    rintro rfl
    cases top.symm.trans up
  obtain ⟨a, isNode, around⟩ := stands
  rw [nodes_enter, enter_scope]
  cases function : form.function? with
  | some parts =>
    have opens : t.OpensScope root n := .inr ⟨form, parts, found, function⟩
    exact ⟨n, by simp, .inr ⟨notRoot, (Table.Innermost.self opens).proper tidy up⟩⟩
  | none =>
    have innermost : t.Innermost (t.OpensScope root) n a := by
      rcases around with ⟨rfl, rfl⟩ | ⟨other, proper⟩
      · exact .self (.inl rfl)
      · refine ⟨proper.holds.1, proper.around, fun opens => proper.inner ⟨opens, ?_⟩⟩
        rintro rfl
        exact opens.elim other (Table.not_isFunction_of_form found function)
    exact ⟨a, by simpa using isNode, .inr ⟨notRoot, innermost.proper tidy up⟩⟩

lemma extends_bind (program : ¬ t.IsFunction root) (depth : Nat) (scope : ScopeId) (n : NodeId)
    (b : Binding) (stands : Stands t root b.scopes.nodes scope n) :
    Extends t root b.scopes (bind t depth scope n b).scopes := by
  induction depth generalizing scope n b with
  | zero => exact .refl t root _
  | succ depth ih =>
    have parts (inner : ScopeId) (ns : List NodeId) (b : Binding)
        (stand : ∀ part ∈ ns, Stands t root b.scopes.nodes inner part) :
        Extends t root b.scopes (ns.foldl (fun b part => bind t depth inner part b) b).scopes := by
      induction ns generalizing b with
      | nil => exact .refl t root _
      | cons part later again =>
        have first := ih inner part b (stand part (by simp))
        obtain ⟨more, nodes⟩ := first.nodes
        refine first.trans (again (bind t depth inner part b) fun m mem => ?_)
        rw [nodes]
        exact (stand m (by simp [mem])).append
    cases found : t.form? n with
    | none =>
      rw [bind, found]
      exact .refl t root _
    | some form =>
      rw [bind, found]
      refine (extends_enter program stands found).trans (parts _ form.children _ fun part mem => ?_)
      exact stands_part tidy top stands found (Table.mem_children_of_form found mem)

end Tree

end Binding

namespace Table.Tree

variable {t : Table} {text : Text} {root n : NodeId} (tree : t.Tree text root)

include tree

lemma parent_root : t.parent? root = none := by
  cases up : t.parent? root with
  | none => rfl
  | some parent =>
    have inside := (tree.tidy.parent_lt_size up).trans_eq tree.last
    exact absurd (tree.tidy.lt_parent up) (Nat.not_lt_of_le (Nat.le_of_lt_succ inside))

/-- From parent to parent every node leads to the program. -/
lemma getLast?_ancestors (inside : n < t.size) : (t.ancestors n).getLast? = some root := by
  induction tree.under_root inside with
  | self => simp [ancestors, ancestorsWithin, tree.parent_root]
  | part up _ ih =>
    rw [ancestors_of_parent tree.tidy up, getLast?_cons, ih (tree.tidy.parent_lt_size up)]
    rfl

/-- The scope that is found from a node upwards. -/
lemma closest_innermost {s : Scopes} (opened : ∀ m, some m ∈ s.nodes ↔ t.OpensScope root m)
    (inside : n < t.size) : ∃ a, s.nodes[s.closest t n]? = some (some a) ∧
      t.Innermost (t.OpensScope root) n a := by
  have opener {m : NodeId} {id : ScopeId} (isOpened : s.opened? m = some id) :
      ∃ a, s.nodes[s.closest t m]? = some (some a) ∧ t.Innermost (t.OpensScope root) m a := by
    have isNode := node_of_opened? isOpened
    rw [closest_eq isOpened]
    exact ⟨m, isNode, .self ((opened m).mp (mem_of_getElem? isNode))⟩
  induction tree.under_root inside with
  | self =>
    obtain ⟨id, isOpened⟩ := opened?_of_mem ((opened root).mpr (.inl rfl))
    exact opener isOpened
  | @part m parent up _ ih =>
    cases isOpened : s.opened? m with
    | some id => exact opener isOpened
    | none =>
      have plain : ¬ t.OpensScope root m := by
        intro opens
        obtain ⟨id, isOpened'⟩ := opened?_of_mem ((opened m).mpr opens)
        cases isOpened.symm.trans isOpened'
      have further : s.closest t m = s.closest t parent := by
        rw [Scopes.closest, ancestors_of_parent tree.tidy up, findSome?_cons, isOpened]
        rfl
      obtain ⟨a, isNode, innermost⟩ := ih (tree.tidy.parent_lt_size up)
      exact ⟨a, further ▸ isNode, innermost.of_parent up plain⟩

end Table.Tree

namespace Scopes

/-- The scopes of a file as the functions in it nest. There is one for the program, which comes
first, and one for each function, in the order of the text. A function's scope has that of the
innermost function around it, or the program, as its parent. Every node is in the scope of the
innermost function around it, itself included, or the program, and the way there is finite. -/
structure Mirrors (t : Table) (root : NodeId) (s : Scopes) : Prop where
  nodes : s.nodes = (root :: (t.preorder root).filter t.isFunction).map some
  distinct : s.nodes.Nodup
  opened : ∀ n, some n ∈ s.nodes ↔ t.OpensScope root n
  program : s.links.head? = some (some root, none)
  parents : ∀ link ∈ s.links.tail, Binding.Linked t root s.nodes link
  ends : t.parent? root = none ∧ ∀ n < t.size, (t.ancestors n).getLast? = some root
  closest : ∀ n < t.size, ∃ a, s.nodes[s.closest t n]? = some (some a) ∧
    t.Innermost (t.OpensScope root) n a

variable {s : Scopes} {id : ScopeId} {t : Table} {root : NodeId}

/-- The scopes without what was done to their temporaries. -/
def emptied (s : Scopes) : Scopes :=
  { s with entries := s.entries.map fun scope => { scope with temps := .empty } }

lemma emptied_setTemps (r : TempRegistry) : (s.setTemps id r).emptied = s.emptied := by
  have entries : (s.setTemps id r).emptied.entries = s.emptied.entries := by
    refine Array.toList_inj.mp ?_
    rw [emptied, emptied, Array.toList_map, Array.toList_map]
    exact map_update fun _ => rfl
  exact congrArg₂ Scopes.mk entries (s.setTemps_identifiers id r)

lemma Untouched.emptied {identifiers : List String} (untouched : s.Untouched identifiers) :
    s.emptied = s := by
  have entries : s.emptied.entries = s.entries := by
    refine Array.toList_inj.mp ?_
    rw [Scopes.emptied, Array.toList_map]
    refine (map_congr_left fun scope mem => ?_).trans (map_id _)
    rw [← untouched.2 scope (Array.mem_toList_iff.mp mem)]
    rfl
  exact congrArg₂ Scopes.mk entries rfl

/-- Requests change registries only. -/
lemma Reachable.emptied (reached : Reachable t root s) :
    s.emptied = (Binding.ofTable t root).scopes := by
  have kept {s : Scopes} (same : s.emptied = (Binding.ofTable t root).scopes) (id : ScopeId)
    (r : TempRegistry) :
      (s.ensured.setTemps (s.ensured.keeper id) r).emptied = (Binding.ofTable t root).scopes := by
    have some : 0 < s.entries.size := by
      have := ofTable_size_pos t root
      rw [← same] at this
      simpa [Scopes.emptied] using this
    rw [ensured_eq_of_pos some, emptied_setTemps, same]
  induction reached with
  | bound => exact (untouched_ofTable t root).emptied
  | acquire _ id ih => exact kept ih id _
  | claim _ id ih => exact kept ih id _
  | release _ id name ih => exact kept ih id _

end Scopes

namespace Binding

variable {t : Table} {text : Text} {root : NodeId}

lemma mirrors_ofTable (tree : t.Tree text root) (shallow : t.Shallow (maxTreeDepth + 1) root) :
    (ofTable t root).scopes.Mirrors t root := by
  have top := tree.parent_root
  -- the scope of the program, which all others are opened in
  generalize start : (Scopes.push ⟨#[], spellings t⟩ (some root) none).2 = first
  have whole : ofTable t root = bind t (maxTreeDepth + 1) 0 root ⟨first, []⟩ := by
    rw [← start]
    rfl
  have firstNodes : first.nodes = [some root] := by rw [← start]; rfl
  have firstLinks : first.links = [(some root, none)] := by rw [← start]; rfl
  obtain ⟨functions, nodes, distinct, all⟩ := nodes_ofTable tree shallow
  have opened (n : NodeId) : some n ∈ (ofTable t root).scopes.nodes ↔ t.OpensScope root n := by
    rw [nodes, mem_map_of_injective (Option.some_injective _), mem_cons, all]
    rfl
  obtain ⟨more, links, linked⟩ := extends_bind tree.tidy top tree.not_isFunction_root
    (maxTreeDepth + 1) 0 root ⟨first, []⟩ ⟨root, by rw [firstNodes]; rfl, .inl ⟨rfl, rfl⟩⟩
  rw [firstLinks, ← whole] at links
  rw [← whole] at linked
  exact {
    nodes := by
      rw [whole, nodes_bind_preorder, firstNodes,
        Table.preorderWithin_eq tree.tidy shallow (Table.shallow_self tree.tidy root)]
      rfl
    distinct := by
      rw [nodes]
      exact distinct.map (Option.some_injective _)
    opened := opened
    program := by rw [links]; rfl
    parents := by rw [links]; exact linked
    ends := ⟨top, fun _ => tree.getLast?_ancestors⟩
    closest := fun _ => tree.closest_innermost opened }

end Binding

attribute [local irreducible] Parsed.ofText

/-- Hoist scopes mirror the nesting of functions. In a file without errors that nests at most as
deeply as the passes descend, each function has one scope and the program another, numbered as they
start in the text; each lies in the scope of the function around it, and every node finds the scope
of the innermost function around it. Whatever was asked of the scopes since, binding the file to
them again gives the same ones with empty registries. -/
theorem scopes_mirror_functions (source : String)
    (clean : (Parsed.ofText source.toList).hasErrors = false)
    (shallow : ∀ n < (Parsed.ofText source.toList).table.size,
      (Parsed.ofText source.toList).table.level n ≤ maxTreeDepth + 1) :
    let t := (Parsed.ofText source.toList).table
    let root := (Parsed.ofText source.toList).root
    (Binding.ofTable t root).skipped = [] ∧ (Binding.ofTable t root).scopes.Mirrors t root ∧
      (∀ scope ∈ (Binding.ofTable t root).scopes.entries, scope.temps = .empty) ∧
      ∀ used, Scopes.Reachable t root used → Binding.rebind used t root = Binding.ofTable t root ∧
        (Binding.rebind used t root).scopes = used.emptied := by
  intro t root
  have tree : t.Tree source.toList root := Lowering.tree_of_clean clean
  have shallow : t.Shallow (maxTreeDepth + 1) root := by
    intro m under
    have inside :
        m < t.size := (tree.tidy.under_le under).trans_lt (tree.last ▸ Nat.lt_succ_self root)
    have low : t.level m ≤ maxTreeDepth + 1 := shallow m inside
    have := t.level_pos root
    omega
  exact ⟨Binding.skipped_bind tree.tidy shallow 0 _, Binding.mirrors_ofTable tree shallow,
    (untouched_ofTable t root).2, fun used reached => ⟨rfl, reached.emptied.symm⟩⟩

/-- A function in an accessor, and another one behind them. -/
def nestedFunctions : String :=
  "var o = \x7bget a() \x7breturn function () \x7bvar b;\x7d;\x7d\x7d; function k(p) \x7b\x7d"

theorem scopes_of_nested_functions :
    (Parsed.ofText nestedFunctions.toList).hasErrors = false ∧
    (∀ n < (Parsed.ofText nestedFunctions.toList).table.size,
      (Parsed.ofText nestedFunctions.toList).table.level n ≤ maxTreeDepth + 1) ∧
    ∃ t root, (Parsed.ofText nestedFunctions.toList).table = t ∧
      (Parsed.ofText nestedFunctions.toList).root = root ∧
      (Binding.ofTable t root).scopes.links.map Prod.snd = [none, some 0, some 1, some 0] ∧
      (Binding.ofTable t root).scopes.Mirrors t root ∧
      ∃ used, used = ((Binding.ofTable t root).scopes.acquire 2).2 ∧
        Binding.rebind used t root = Binding.ofTable t root ∧
        (Binding.rebind used t root).scopes = used.emptied := by
  obtain ⟨clean, shallow, parents⟩ : (Parsed.ofText nestedFunctions.toList).hasErrors = false ∧
      (∀ n < (Parsed.ofText nestedFunctions.toList).table.size,
        (Parsed.ofText nestedFunctions.toList).table.level n ≤ maxTreeDepth + 1) ∧
      (Binding.ofTable (Parsed.ofText nestedFunctions.toList).table
        (Parsed.ofText nestedFunctions.toList).root).scopes.links.map Prod.snd =
          [none, some 0, some 1, some 0] := by decide +kernel
  generalize nestedFunctions = source at clean shallow parents ⊢
  obtain ⟨_, mirrors, _, again⟩ := scopes_mirror_functions source clean shallow
  exact ⟨clean, shallow, _, _, rfl, rfl, parents, mirrors, _, rfl, again _ (.acquire .bound 2)⟩

end PatternLowering

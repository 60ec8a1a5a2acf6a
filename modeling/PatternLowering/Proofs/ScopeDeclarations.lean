import PatternLowering.Proofs.FixedPoints
import PatternLowering.Proofs.Hoisting

/-!
# The declaration of a scope

Every function that the walk reaches has a scope of its own, and the pass never changes which node
opens which. The names that a function declares are those its scope has handed out when the pass is
over, and they are declared at the start of its statements.
-/

namespace PatternLowering

open List Scopes

namespace Scopes

variable {s : Scopes} {n m : NodeId} {id other : ScopeId}

/-- The nodes that open the scopes, in the order of the scopes. -/
def nodes (s : Scopes) : List (Option NodeId) := s.entries.toList.map (·.node)

lemma length_nodes : s.nodes.length = s.entries.size := by simp [nodes]

lemma opened?_eq : s.opened? n = s.nodes.findIdx? fun node => node = some n := by
  rw [opened?, nodes, findIdx?_map, ← findIdx?_toArray]
  rfl

lemma opened?_congr {s' : Scopes} (same : s'.nodes = s.nodes) (n : NodeId) :
    s'.opened? n = s.opened? n := by rw [opened?_eq, opened?_eq, same]

lemma opened?_of_mem (mem : some n ∈ s.nodes) : ∃ id, s.opened? n = some id := by
  rw [opened?_eq, ← Option.isSome_iff_exists, findIdx?_isSome]
  exact any_eq_true.mpr ⟨_, mem, by simp⟩

lemma node_of_opened? (opened : s.opened? n = some id) : s.nodes[id]? = some (some n) := by
  rw [opened?_eq, findIdx?_eq_some_iff_getElem] at opened
  obtain ⟨inside, same, _⟩ := opened
  rw [getElem?_eq_getElem inside]
  simpa using same

lemma opened?_of_node (distinct : s.nodes.Nodup) (isNode : s.nodes[id]? = some (some n)) :
    s.opened? n = some id := by
  obtain ⟨id', opened⟩ := opened?_of_mem (mem_of_getElem? isNode)
  have same := (getElem?_inj (List.getElem?_eq_some_iff.mp isNode).1 distinct).mp
    (isNode.trans (node_of_opened? opened).symm)
  rw [opened, same]

lemma opened?_lt (opened : s.opened? n = some id) : id < s.nodes.length :=
  (List.getElem?_eq_some_iff.mp (node_of_opened? opened)).1

lemma opened?_injective (opened : s.opened? n = some id) (opened' : s.opened? m = some id) :
    n = m := by
  have same := (node_of_opened? opened).symm.trans (node_of_opened? opened')
  simpa using same

/-- What is read off every scope, and an update does not touch. -/
lemma map_update {β : Type} {view : Scope → β} {f : Scope → Scope}
    (same : ∀ scope, view (f scope) = view scope) :
    (s.update id f).entries.toList.map view = s.entries.toList.map view := by
  unfold update
  split
  · rename_i inside
    refine ext_getElem? fun i => ?_
    simp only [Array.toList_set, getElem?_map, getElem?_set]
    split
    · rename_i isId
      subst isId
      simp [inside, same]
    · rfl
  · rfl

lemma nodes_update {f : Scope → Scope} (same : ∀ scope, (f scope).node = scope.node) :
    (s.update id f).nodes = s.nodes := map_update same

/-- Nothing that is done to the temporaries opens a scope. -/
lemma nodes_setTemps (r : TempRegistry) : (s.setTemps id r).nodes = s.nodes :=
  nodes_update fun _ => rfl

lemma temps_setTemps (r : TempRegistry) (apart : other ≠ id) :
    (s.setTemps other r).temps id = s.temps id := by
  rw [temps, temps, get?_setTemps r apart.symm]

/-- Which nodes open scopes, and the temporaries of one of these. -/
def Keeps (nodes : List (Option NodeId)) (id : ScopeId) (r : TempRegistry) (s : Scopes) : Prop :=
  s.nodes = nodes ∧ s.temps id = r

/-- Names of one scope have nothing to do with another one. -/
lemma keeps_stable {nodes : List (Option NodeId)} {r : TempRegistry} (apart : other ≠ id)
    (inside : other < nodes.length) : Stable other (Keeps nodes id r) := by
  have keeps {s : Scopes} (r' : TempRegistry) (kept : Keeps nodes id r s) :
      Keeps nodes id r (s.ensured.setTemps (s.ensured.keeper other) r') := by
    have inside' : other < s.entries.size := by
      rw [← length_nodes, kept.1]
      exact inside
    rw [ensured_eq_of_pos (Nat.zero_lt_of_lt inside'), keeper, if_pos inside']
    exact ⟨(nodes_setTemps r').trans kept.1, (temps_setTemps r' apart).trans kept.2⟩
  exact ⟨fun kept => keeps _ kept, fun kept => keeps _ kept, fun name kept => keeps _ kept⟩

lemma nodes_stable {nodes : List (Option NodeId)} (inhabited : nodes ≠ []) :
    Stable other (fun s => s.nodes = nodes) := by
  have keeps {s : Scopes} (r : TempRegistry) (same : s.nodes = nodes) :
      (s.ensured.setTemps (s.ensured.keeper other) r).nodes = nodes := by
    have some : 0 < s.entries.size := by
      rw [← length_nodes, same]
      exact length_pos_of_ne_nil inhabited
    rw [ensured_eq_of_pos some, nodes_setTemps, same]
  exact ⟨fun same => keeps _ same, fun same => keeps _ same, fun name same => keeps _ same⟩

lemma nodes_declare (names : List String) : (s.declare id names).nodes = s.nodes :=
  nodes_update fun _ => rfl

lemma nodes_push (node : Option NodeId) (parent : Option ScopeId) :
    (s.push node parent).2.nodes = s.nodes ++ [node] := by simp [nodes, push]

end Scopes

namespace Binding

variable {t : Table} {opens closes : Nat → Prop}

lemma nodes_enter (t : Table) (scope : ScopeId) (n : NodeId) (form : Form) (s : Scopes) :
    (enter t scope n form s).2.nodes = s.nodes ++
      if form.function?.isSome then [some n] else [] := by
  cases form <;> simp [enter, Form.function?, nodes_declare, nodes_push]

lemma nodes_foldl (tidy : t.Tidy opens closes) {bindPart : NodeId → Binding → Binding}
    {parts : List NodeId} {lo hi : Nat} (laid : t.Laid lo parts hi)
    (each : ∀ part ∈ parts, ∀ b, ∃ functions,
      (bindPart part b).scopes.nodes = b.scopes.nodes ++ functions.map some ∧
        t.Gathers t.IsFunction functions [part]) (b : Binding) :
    ∃ functions, (parts.foldl (fun b part => bindPart part b) b).scopes.nodes =
        b.scopes.nodes ++ functions.map some ∧ t.Gathers t.IsFunction functions parts := by
  induction parts generalizing lo b with
  | nil => exact ⟨[], by simp, .nil⟩
  | cons part later ih =>
    obtain ⟨functions, same, gathers⟩ := each part (by simp) b
    obtain ⟨functions', same', gathers'⟩ := ih (laid.sublist (sublist_cons_self part later))
      (fun m isPart => each m (by simp [isPart])) (bindPart part b)
    refine ⟨functions ++ functions', ?_, gathers.append gathers' fun a isA m isM => ?_⟩
    · rw [foldl_cons, same', same, append_assoc, map_append]
    · cases mem_singleton.mp isA
      refine laid.disjoint tidy (by simp) (by simp [isM]) ?_
      rintro rfl
      exact (nodup_cons.mp laid.nodup).1 isM

/-- Every function under a node opens one scope, unless it lies too deep. -/
lemma nodes_bind (tidy : t.Tidy opens closes) {depth : Nat} {n : NodeId}
    (shallow : t.Shallow depth n) (scope : ScopeId) (b : Binding) :
    ∃ functions, (bind t depth scope n b).scopes.nodes = b.scopes.nodes ++ functions.map some ∧
      t.Gathers t.IsFunction functions [n] := by
  induction depth generalizing n scope b with
  | zero => exact absurd (shallow n .self) (by omega)
  | succ depth ih =>
    cases found : t.form? n with
    | none =>
      have leaf : t.children n = [] := by simp [Table.children, found]
      refine ⟨[], by simp [bind, found], Table.Gathers.nil.congr fun f isFunction => ?_⟩
      simpa using fun under => Table.not_isFunction_of_leaf tidy leaf under isFunction
    | some form =>
      obtain ⟨node, isNode, rfl⟩ := Table.form?_eq_some.mp found
      have children : t.children n = node.form.children := by simp [Table.children, found]
      obtain ⟨functions, same, gathers⟩ := nodes_foldl tidy (tidy.laid isNode)
        (fun part isPart => ih (shallow.child tidy (children ▸ isPart))
          (enter t scope n node.form b.scopes).1)
        { b with scopes := (enter t scope n node.form b.scopes).2 }
      rw [← children] at gathers
      have bound : (bind t (depth + 1) scope n b).scopes.nodes =
          (enter t scope n node.form b.scopes).2.nodes ++ functions.map some := by
        rw [← same, bind, found]
      rw [bound, nodes_enter]
      cases function : node.form.function? with
      | none =>
        exact ⟨functions, by simp,
          gathers.node tidy (.inr ⟨Table.not_isFunction_of_form found function, rfl⟩)⟩
      | some parts =>
        exact ⟨n :: functions, by simp, gathers.node tidy (.inl ⟨⟨_, _, found, function⟩, rfl⟩)⟩

/-- The program opens the first scope, and each function one of its own. -/
lemma nodes_ofTable {text : Text} {root : NodeId} (tree : t.Tree text root)
    (shallow : t.Shallow (maxTreeDepth + 1) root) : ∃ functions,
      (ofTable t root).scopes.nodes = (root :: functions).map some ∧
        (root :: functions).Nodup ∧ ∀ n, n ∈ functions ↔ t.IsFunction n := by
  obtain ⟨functions, nodes, gathers⟩ := nodes_bind tree.tidy shallow 0
    ⟨(Scopes.push ⟨#[], spellings t⟩ (some root) none).2, []⟩
  have all (n : NodeId) : n ∈ functions ↔ t.IsFunction n := by
    refine (gathers.mem n).trans ⟨And.right, fun isFunction => ⟨⟨root, by simp, ?_⟩, isFunction⟩⟩
    exact tree.under_root isFunction.lt_size
  refine ⟨functions, nodes, nodup_cons.mpr ⟨fun mem => ?_, gathers.nodup⟩, all⟩
  exact tree.not_isFunction_root ((all root).mp mem)

end Binding

namespace Table

variable {t : Table} {opens closes : Nat → Prop} {n m a : NodeId}

lemma under_of_mem_ancestors (mem : a ∈ t.ancestors m) : t.Under a m := by
  unfold ancestors at mem
  generalize t.size + 1 = bound at mem
  induction bound generalizing m with
  | zero => cases mem
  | succ bound ih =>
    rcases mem_cons.mp mem with rfl | mem
    · exact .self
    · cases up : t.parent? m with
      | none => simp [up] at mem
      | some parent => exact .part up (ih (by simpa [up] using mem))

/-- The directives that open a list of statements. -/
def prologue (t : Table) (statements : List NodeId) : List NodeId :=
  statements.takeWhile t.isDirective

lemma not_isFunction_of_directive (tidy : t.Tidy opens closes) (directive : t.isDirective n)
    (under : t.Under n m) : ¬ t.IsFunction m := by
  unfold isDirective at directive
  split at directive
  · rename_i expression found
    split at directive
    · rename_i value isString
      have leaf : t.children expression = [] := by simp [children, isString, Form.children]
      rcases under.cases_part tidy with rfl | ⟨part, isPart, under⟩
      · exact not_isFunction_of_form found rfl
      · have same : part = expression := by simpa [children, found, Form.children] using isPart
        exact not_isFunction_of_leaf tidy leaf (same ▸ under)
    · cases directive
  · cases directive

/-- The functions of a file follow its directives. -/
lemma Tree.function_behind_prologue {text : Text} {root d : NodeId} {program : List NodeId}
    (tree : t.Tree text root) (found : t.form? root = some (.program program))
    (isDirective : d ∈ t.prologue program) (isFunction : t.IsFunction n) {node node' : Node}
    (isNode : t.get? d = some node) (isNode' : t.get? n = some node') :
    node.stop ≤ node'.start := by
  obtain ⟨top, isTop, isProgram⟩ := form?_eq_some.mp found
  have laid := tree.tidy.laid isTop
  rw [isProgram] at laid
  have laid : t.Laid top.start
      (program.takeWhile t.isDirective ++ program.dropWhile t.isDirective) top.stop := by
    rw [takeWhile_append_dropWhile]
    exact laid
  obtain ⟨mid, directives, others⟩ := laid.split
  rcases (tree.under_root (lt_size isNode')).cases_part tree.tidy with rfl | ⟨part, isPart, under⟩
  · exact absurd isFunction (not_isFunction_of_form found rfl)
  · have isPart : part ∈ program := by simpa [children, found, Form.children] using isPart
    rw [← takeWhile_append_dropWhile (p := t.isDirective) (l := program)] at isPart
    rcases mem_append.mp isPart with directive | other
    · exact absurd isFunction
        (not_isFunction_of_directive tree.tidy (mem_takeWhile_imp directive) under)
    · obtain ⟨_, isNode'', _, _, before⟩ := directives.within isDirective
      cases isNode.symm.trans isNode''
      obtain ⟨statement, isStatement, after, _⟩ := others.within other
      have inner := tree.tidy.span_under under isStatement isNode'
      omega

end Table

namespace Scopes

variable {t : Table} {s : Scopes} {root n m : NodeId} {id : ScopeId}

lemma closest_eq (opened : s.opened? n = some id) : s.closest t n = id := by
  simp [closest, Table.ancestors, Table.ancestorsWithin, opened]

/-- A node outside of a function takes its temporaries elsewhere. -/
lemma closest_apart {more : List (Option NodeId)} (nodes : s.nodes = some root :: more)
    (opened : s.opened? n = some id) (inTree : t.Under root m) (outside : ¬ t.Under n m) :
    s.closest t m ≠ id ∧ s.closest t m < s.nodes.length := by
  unfold closest
  cases found : (t.ancestors m).findSome? s.opened? with
  | some other =>
    obtain ⟨a, isAncestor, opened'⟩ := exists_of_findSome?_eq_some found
    refine ⟨?_, opened?_lt opened'⟩
    rintro rfl
    cases opened?_injective opened opened'
    exact outside (Table.under_of_mem_ancestors isAncestor)
  | none =>
    refine ⟨?_, by simp [nodes]⟩
    rintro rfl
    have isRoot := node_of_opened? opened
    simp only [nodes, Option.getD_none, getElem?_cons_zero, Option.some.injEq] at isRoot
    exact outside (isRoot ▸ inTree)

end Scopes

namespace TempDeclaration

variable {t : Table} {statements : List NodeId} {lo hi : Nat}

/-- The text is the declaration of `names` with nothing but blanks around it. -/
def Declares (names : List String) (written : Text) : Prop :=
  ∃ lead trail, written = lead ++ (text names).toList ++ trail ∧
    ∀ c ∈ lead ++ trail, c = ' ' ∨ c = '\t' ∨ c = '\n'

/-- The offset lies behind the directives of the statements and before the others. -/
structure Opens (t : Table) (statements : List NodeId) (offset : Nat) : Prop where
  behind : ∀ d ∈ t.prologue statements, ∀ node, t.get? d = some node → node.stop ≤ offset
  before : ∀ m ∈ statements, m ∉ t.prologue statements →
    ∀ node, t.get? m = some node → offset ≤ node.start

lemma declares_place (t : Table) (source : Text) (statements : List NodeId) (names : List String) :
    Declares names (place t source statements (text names)).2 := by
  unfold place
  split
  · unfold before
    dsimp only
    split
    · rename_i first _ blank
      refine ⟨[], '\n' :: indent source first.start, by simp, fun c mem => ?_⟩
      rw [all_eq_true] at blank
      rcases mem_cons.mp mem with rfl | mem
      · exact .inr (.inr rfl)
      · have := blank c mem
        grind
    · exact ⟨[], [' '], by simp, by simp⟩
  · unfold after
    dsimp only
    split
    · exact ⟨[], ['\n'], by simp, by simp⟩
    · exact ⟨['\n'], [], by simp, by simp⟩

/-- The place of a declaration is at the start of the statements, but behind the directives. -/
lemma opens_place (laid : t.Laid lo statements hi) (nonempty : statements ≠ []) (source : Text)
    (declaration : String) :
    lo ≤ (place t source statements declaration).1 ∧
      (place t source statements declaration).1 ≤ hi ∧
      Opens t statements (place t source statements declaration).1 := by
  have head : (statements.find? fun n => !t.isDirective n) =
      (statements.dropWhile t.isDirective).head? := find?_not_eq_head?_dropWhile _ _
  have whole : t.prologue statements ++ statements.dropWhile t.isDirective = statements :=
    takeWhile_append_dropWhile
  obtain ⟨mid, directives, others⟩ := (whole.symm ▸ laid : t.Laid lo _ hi).split
  cases rest : statements.dropWhile t.isDirective with
  | cons first later =>
    rw [rest] at head others whole
    obtain ⟨node, found, after, wide, following⟩ := others
    have placed : (place t source statements declaration).1 = node.start := by
      simp [place, head, found]
    rw [placed]
    refine ⟨directives.le.trans after, (Nat.le_of_lt wide).trans following.le, ?_, ?_⟩
    · intro d isDirective node' isNode'
      obtain ⟨_, isNode'', _, _, inside⟩ := directives.within isDirective
      cases isNode'.symm.trans isNode''
      exact inside.trans after
    · intro m mem other node' isNode'
      rw [← whole] at mem
      rcases mem_cons.mp ((mem_append.mp mem).resolve_left other) with rfl | mem
      · cases found.symm.trans isNode'
        exact le_rfl
      · obtain ⟨_, isNode'', inside, _⟩ := following.within mem
        cases isNode'.symm.trans isNode''
        exact (Nat.le_of_lt wide).trans inside
  | nil =>
    rw [rest, append_nil] at whole
    obtain ⟨last, isLast⟩ : ∃ last, statements.getLast? = some last :=
      ⟨_, getLast?_eq_some_getLast nonempty⟩
    obtain ⟨initial, parts⟩ := getLast?_eq_some_iff.mp isLast
    obtain ⟨end', before, node, found, after, wide, stop⟩ := (parts ▸ laid : t.Laid lo _ hi).split
    have placed : (place t source statements declaration).1 = node.stop := by
      simp [place, head, rest, isLast, found]
    rw [placed]
    refine ⟨before.le.trans (after.trans (Nat.le_of_lt wide)), stop, ?_, ?_⟩
    · intro d isDirective node' isNode'
      rw [whole, parts] at isDirective
      rcases mem_append.mp isDirective with earlier | isLast
      · obtain ⟨_, isNode'', _, _, inside⟩ := before.within earlier
        cases isNode'.symm.trans isNode''
        omega
      · cases mem_singleton.mp isLast
        cases found.symm.trans isNode'
        exact le_rfl
    · intro m mem other
      exact absurd (whole.symm ▸ mem) other

end TempDeclaration

namespace Pass

variable {input : PassInput} {text : Text} {root n : NodeId} {id : ScopeId}
  {statements : List NodeId} {p : Pass}

/-- A declaration that is prepared for is one insertion, unless there is nothing to declare. -/
lemma declareTemps_inserts (prepared : Prepared input.table text (.declareTemps n statements) p)
    (enabled : input.options.tempDeclarations = true) (opened : p.scopes.opened? n = some id) :
    (p.declareTemps input n statements).buffer =
      if p.scopes.declaredTemps id = [] then p.buffer
      else
        let (offset, written) := TempDeclaration.place input.table text statements
          (TempDeclaration.text (p.scopes.declaredTemps id))
        { p.buffer with edits := Edit.insertInto ⟨offset, offset, written⟩ p.buffer.edits } := by
  obtain ⟨base, inserts⟩ := prepared
  obtain ⟨b, inserted⟩ := inserts (p.scopes.declaredTemps id)
  have same : (p.declareTemps input n statements).buffer = b := by
    simp [declareTemps, enabled, closest_eq opened, inserted]
  rw [same]
  unfold TempDeclaration.insert at inserted
  by_cases none : p.scopes.declaredTemps id = []
  · simpa [none] using inserted.symm
  · simp only [List.isEmpty_iff, none, if_false] at inserted ⊢
    rw [← EditBuffer.source_of_base base]
    exact EditBuffer.eq_of_insert inserted

/-- The pass opens no scope. -/
lemma perform_nodes (actions : List Action) (inhabited : p.scopes.nodes ≠ []) :
    (p.perform input actions).scopes.nodes = p.scopes.nodes :=
  perform_scopes (P := fun s => s.nodes = p.scopes.nodes)
    (fun _ _ _ _ => nodes_stable inhabited) rfl

/-- A scope hands out names at the sites under its node only. -/
lemma declaredTemps_perform {more : List (Option NodeId)} {actions : List Action}
    (nodes : p.scopes.nodes = some root :: more) (opened : p.scopes.opened? n = some id)
    (inTree : ∀ m ∈ lowered actions, input.table.Under root m)
    (outside : ∀ m ∈ lowered actions, ¬ input.table.Under n m) :
    (p.perform input actions).scopes.declaredTemps id = p.scopes.declaredTemps id := by
  have kept : Scopes.Keeps p.scopes.nodes id (p.scopes.temps id)
      (p.perform input actions).scopes := by
    refine perform_scopes (fun m mem s kept => ?_) ⟨rfl, rfl⟩
    have opened' := (opened?_congr kept.1 n).trans opened
    obtain ⟨apart, inside⟩ :=
      closest_apart (kept.1.trans nodes) opened' (inTree m mem) (outside m mem)
    exact keeps_stable apart (kept.1 ▸ inside)
  exact congrArg TempRegistry.declared kept.2

end Pass

/-- Where the declaration of `n`, with these statements, belongs: between the braces of a function,
at the start of the statements, and behind the directives of the file. -/
structure Table.DeclaresAt (t : Table) (root n : NodeId) (statements : List NodeId) (offset : Nat) :
    Prop where
  opens : TempDeclaration.Opens t statements offset
  braces : ∀ form parts body, t.form? n = some form → form.function? = some parts →
    t.get? parts.body = some body → body.start < offset ∧ offset < body.stop
  file : ∀ program, t.form? root = some (.program program) →
    ∀ d ∈ t.prologue program, ∀ node, t.get? d = some node → node.stop ≤ offset

/-- Declarations belong where they are placed, if there is a statement. -/
lemma Table.Tree.declaresAt_place {t : Table} {text : Text} {root n : NodeId}
    {statements : List NodeId} (tree : t.Tree text root) (hoists : t.Hoists root n statements)
    (nonempty : statements ≠ []) (source : Text) (declaration : String) :
    t.DeclaresAt root n statements (TempDeclaration.place t source statements declaration).1 := by
  rcases hoists with ⟨rfl, found⟩ | ⟨form, parts, found, isFunction, isBlock⟩
  · obtain ⟨node, isNode, isProgram⟩ := Table.form?_eq_some.mp found
    have laid := tree.tidy.laid isNode
    rw [isProgram] at laid
    obtain ⟨_, _, opens⟩ := TempDeclaration.opens_place laid nonempty source declaration
    refine ⟨opens, fun form parts body found' isFunction => ?_, fun program found' => ?_⟩
    · cases found.symm.trans found'
      cases isFunction
    · cases found.symm.trans found'
      exact opens.behind
  · obtain ⟨node, isNode, isForm⟩ := Table.form?_eq_some.mp found
    obtain ⟨block, isBody, isStatements⟩ := Table.form?_eq_some.mp isBlock
    obtain ⟨low, high, opens⟩ := TempDeclaration.opens_place
      (tree.tidy.braces isBody isStatements) nonempty source declaration
    refine ⟨opens, fun form' parts' body found' isFunction' isBody' => ?_,
      fun program isProgram d isDirective node' isNode' => ?_⟩
    · cases found.symm.trans found'
      cases isFunction.symm.trans isFunction'
      cases isBody.symm.trans isBody'
      omega
    · have behind := tree.function_behind_prologue isProgram isDirective
        ⟨form, parts, found, isFunction⟩ isNode' isNode
      have isPart : parts.body ∈ t.children n := by
        simp [Table.children, found, Form.children_of_function isFunction, FunctionParts.children]
      have inner := tree.tidy.span_under (.of_child tree.tidy isPart .self) isNode isBody
      omega

/-- How the pass declares what the scope `id`, which `n` opens, has handed out in the end. If there
is a name, one action declares them all, and where `n` has a statement the declaration is where it
belongs. -/
def Pass.DeclaresOnce (input : PassInput) (root n : NodeId) (statements : List NodeId)
    (id : ScopeId) (start : Pass) (plan : List Action) : Prop :=
  ∃ before after, plan = before ++ .declareTemps n statements :: after ∧
    n ∉ declarations before ∧ n ∉ declarations after ∧
    let names := (start.perform input plan).scopes.declaredTemps id
    let old := (start.perform input before).buffer
    let new := ((start.perform input before).declareTemps input n statements).buffer
    (names = [] → new = old) ∧
      (names ≠ [] → ∃ offset written,
        new = { old with edits := Edit.insertInto ⟨offset, offset, written⟩ old.edits } ∧
        TempDeclaration.Declares names written ∧
        (statements ≠ [] → input.table.DeclaresAt root n statements offset) ∧
        (statements = [] → offset = 0))

/-- The pass declares the names of each function, and those of the program, once, if it starts with
no edit and the scopes of the tree. -/
lemma Pass.declaresOnce_of_tree {input : PassInput} {text : Text} {root n : NodeId}
    {statements : List NodeId} {id : ScopeId} {p : Pass} (tree : input.table.Tree text root)
    (shallow : input.table.Shallow maxTreeDepth root)
    (enabled : input.options.tempDeclarations = true)
    (hoists : input.table.Hoists root n statements) (base : p.buffer.base = .ofText text)
    (fresh : p.buffer.edits = []) {more : List (Option NodeId)}
    (nodes : p.scopes.nodes = some root :: more) (opened : p.scopes.opened? n = some id) :
    DeclaresOnce input root n statements id p (input.table.plan root) := by
  obtain ⟨before, after, whole, earlier, later, outside⟩ := tree.declares shallow hoists
  have prepared := plan_along tree base fresh
  rw [whole, along_append] at prepared
  have inTree (m : NodeId) (mem : m ∈ lowered (.declareTemps n statements :: after)) :
      input.table.Under root m := by
    have site : input.table.IsSite m := tree.plan_sites m (by
      rw [whole, lowered_append]
      exact mem_append_right _ mem)
    exact tree.under_root (Table.lt_size_of_isPattern site.1)
  have same : (p.perform input before).scopes.nodes = p.scopes.nodes :=
    perform_nodes before (by simp [nodes])
  have opened' := (opened?_congr same n).trans opened
  have names : (p.perform input (input.table.plan root)).scopes.declaredTemps id =
      (p.perform input before).scopes.declaredTemps id := by
    rw [whole, perform_append]
    exact declaredTemps_perform (same.trans nodes) opened' inTree outside
  have inserts := declareTemps_inserts prepared.2.1 enabled opened'
  rw [← names] at inserts
  refine ⟨before, after, whole, earlier, later, fun none => ?_, fun some => ?_⟩
  · rw [inserts, if_pos none]
  · rw [if_neg some] at inserts
    exact ⟨_, _, inserts, TempDeclaration.declares_place _ _ _ _,
      fun nonempty => tree.declaresAt_place hoists nonempty _ _, fun empty => by
        rw [empty]
        rfl⟩

/-- The program and each function have a scope, there is no other one, and what a scope hands out is
declared once. -/
def Pass.DeclaresScopes (input : PassInput) (root : NodeId) (start : Pass) (plan : List Action) :
    Prop :=
  let scopes := (start.perform input plan).scopes
  (∀ n, (n = root ∨ input.table.IsFunction n) →
      ∃ id < scopes.entries.size, scopes.opened? n = some id) ∧
    ∀ id < scopes.entries.size, ∃ n statements, scopes.opened? n = some id ∧
      input.table.Hoists root n statements ∧ DeclaresOnce input root n statements id start plan

lemma Pass.declaresScopes_of_tree {input : PassInput} {text : Text} {root : NodeId} {p : Pass}
    (tree : input.table.Tree text root) (shallow : input.table.Shallow maxTreeDepth root)
    (enabled : input.options.tempDeclarations = true) (base : p.buffer.base = .ofText text)
    (fresh : p.buffer.edits = []) (scopes : p.scopes = (Binding.ofTable input.table root).scopes) :
    DeclaresScopes input root p (input.table.plan root) := by
  obtain ⟨functions, nodes, distinct, all⟩ := Binding.nodes_ofTable tree fun m under =>
    (shallow m under).trans_le (by omega)
  rw [← scopes] at nodes
  have same : (p.perform input (input.table.plan root)).scopes.nodes = p.scopes.nodes :=
    perform_nodes _ (by simp [nodes])
  refine ⟨fun n scope => ?_, fun id known => ?_⟩
  · have mem : n ∈ root :: functions := mem_cons.mpr (scope.imp_right (all n).mpr)
    obtain ⟨id, opened⟩ := opened?_of_mem
      ((same.trans nodes) ▸ mem_map_of_mem mem : some n ∈ _)
    exact ⟨id, length_nodes ▸ opened?_lt opened, opened⟩
  · rw [← length_nodes, same, nodes, length_map] at known
    have isNode : (p.perform input (input.table.plan root)).scopes.nodes[id]? =
        some (some (root :: functions)[id]) := by
      rw [same, nodes, getElem?_map, getElem?_eq_getElem known]
      rfl
    have opened := opened?_of_node (by
      rw [same, nodes]
      exact distinct.map (Option.some_injective _)) isNode
    have scope := mem_cons.mp (getElem_mem known)
    obtain ⟨statements, hoists⟩ := tree.hoists shallow (scope.imp_right (all _).mp)
    refine ⟨_, statements, opened, hoists, ?_⟩
    exact declaresOnce_of_tree tree shallow enabled hoists base fresh nodes
      ((opened?_congr same _).symm.trans opened)

attribute [local irreducible] Parsed.ofText

/-- Temporaries are declared in their own scope. There is one scope for the program and one for each
function. All the names that a scope hands out in the pass are declared, in their order, by one
statement, and if there is none nothing is declared; the declaration stands at the start of the
statements of the function or the program and behind every directive. A body without statements has
no such place: there the declaration is put before the whole text. -/
theorem temporaries_are_declared_in_their_scope (file source : String) (options : Options)
    (clean : (Parsed.ofText source.toList).hasErrors = false)
    (shallow : ∀ n < (Parsed.ofText source.toList).table.size,
      (Parsed.ofText source.toList).table.level n ≤ maxTreeDepth)
    (enabled : options.tempDeclarations = true) :
    (lower file source options).output = some (String.ofList
      ((Lowering.passStart file source).perform
        (Lowering.passInput file source options) (Lowering.passPlan source)).buffer.apply) ∧
      Pass.DeclaresScopes (Lowering.passInput file source options)
        (Parsed.ofText source.toList).root
        (Lowering.passStart file source) (Lowering.passPlan source) := by
  have tree := Lowering.tree_of_clean clean
  obtain ⟨_, output, _⟩ := Lowering.lower_eq_perform file options clean
  exact ⟨output, Pass.declaresScopes_of_tree tree (tree.shallow shallow) enabled rfl rfl rfl⟩

/-- A program with one function, which takes a temporary in its parameters. -/
def keyedParameter : String :=
  "'a'; f(function (\x7b[[p, q] = z()]: w\x7d) \x7b 'b'; w; \x7d);"

theorem temporaries_of_computed_key_are_declared_in_body :
    (Parsed.ofText keyedParameter.toList).hasErrors = false ∧
    (∀ n < (Parsed.ofText keyedParameter.toList).table.size,
      (Parsed.ofText keyedParameter.toList).table.level n ≤ maxTreeDepth) ∧
    ((Lowering.passStart "a.js" keyedParameter).perform
      (Lowering.passInput "a.js" keyedParameter .default)
      (Lowering.passPlan keyedParameter)).scopes.declaredTemps 1 = ["_a"] ∧
    ∃ n statements, (Parsed.ofText keyedParameter.toList).table.Hoists
        (Parsed.ofText keyedParameter.toList).root n statements ∧
      Pass.DeclaresOnce (Lowering.passInput "a.js" keyedParameter .default)
        (Parsed.ofText keyedParameter.toList).root n statements 1
        (Lowering.passStart "a.js" keyedParameter) (Lowering.passPlan keyedParameter) := by
  obtain ⟨clean, shallow, names, known⟩ : (Parsed.ofText keyedParameter.toList).hasErrors = false ∧
      (∀ n < (Parsed.ofText keyedParameter.toList).table.size,
        (Parsed.ofText keyedParameter.toList).table.level n ≤ maxTreeDepth) ∧
      ((Lowering.passStart "a.js" keyedParameter).perform
        (Lowering.passInput "a.js" keyedParameter .default)
        (Lowering.passPlan keyedParameter)).scopes.declaredTemps 1 = ["_a"] ∧
      1 < ((Lowering.passStart "a.js" keyedParameter).perform
        (Lowering.passInput "a.js" keyedParameter .default)
        (Lowering.passPlan keyedParameter)).scopes.entries.size := by
    decide +kernel
  generalize keyedParameter = source at clean shallow names known ⊢
  obtain ⟨_, scopes⟩ :=
    temporaries_are_declared_in_their_scope "a.js" source .default clean shallow rfl
  obtain ⟨n, statements, _, hoists, declares⟩ := scopes.2 1 known
  exact ⟨clean, shallow, names, n, statements, hoists, declares⟩

/-- The one scope whose declaration goes astray: a function without statements. -/
theorem temporaries_of_empty_body_precede_directives :
    (Parsed.ofText
      "'use strict';\nvar f = function (\x7b[[p, q] = z()]: w\x7d) \x7b\x7d;\n".toList).hasErrors =
        false ∧
    (lower "a.js" "'use strict';\nvar f = function (\x7b[[p, q] = z()]: w\x7d) \x7b\x7d;\n"
      .default).output =
        some ("var _a;\n'use strict';\n" ++
          "var f = function (\x7b[(p = (_a = z())[0], q = _a[1], _a)]: w\x7d) \x7b\x7d;\n") := by
  decide +kernel

end PatternLowering

import PatternLowering.Proofs.Balance
import PatternLowering.Proofs.Nesting
import PatternLowering.Proofs.ScopeDeclarations

/-!
# Temporaries of nested sites

The expressions of a pattern run in between the reads of the pattern's own temporaries. A site in
such an expression keeps what it has asked for, so no site that is lowered later in the same scope
is given the same name again.
-/

namespace PatternLowering

open List

namespace Event

/-- The temporary that was handed out. -/
def temporary? : Event → Option String
  | acquired _ name => some name
  | _ => none

/-- The temporaries handed out, in their order. -/
def temporaries (events : List Event) : List String := events.filterMap temporary?

@[simp] lemma temporaries_nil : temporaries [] = [] := rfl

@[simp] lemma temporaries_append (events events' : List Event) :
    temporaries (events ++ events') = temporaries events ++ temporaries events' :=
  filterMap_append

/-- Nothing was handed out from one state of the log to another. -/
def Quiet (log log' : Array Event) : Prop :=
  ∃ events, log'.toList = log.toList ++ events ∧ temporaries events = []

variable {log log' : Array Event}

lemma Quiet.refl : Quiet log log := ⟨[], by simp, rfl⟩

lemma Quiet.push (quiet : Quiet log log') (event : Event) (other : event.temporary? = none) :
    Quiet log (log'.push event) := by
  obtain ⟨events, same, none⟩ := quiet
  refine ⟨events ++ [event], by simp [same], ?_⟩
  rw [temporaries_append, none, temporaries, filterMap_cons, other]
  rfl

end Event

namespace Scopes

/-- The scopes `s'` go on from `s` after `names` were asked for in the scope `id`; with `retain`
they are all still in use. -/
structure Asks (id : ScopeId) (retain : Bool) (s s' : Scopes) (names : List String) : Prop where
  continues : Continues id s s'
  fresh : ∀ x ∈ names, x ∉ s.held id
  kept : retain → ∀ x ∈ names, x ∈ s'.held id

/-- The same of scopes with a log, which tells the names. -/
def Asked (id : ScopeId) (retain : Bool) (s : Scopes) (log : Array Event) (s' : Scopes)
    (log' : Array Event) : Prop :=
  ∃ events, log'.toList = log.toList ++ events ∧ Asks id retain s s' (Event.temporaries events)

/-- Other events do not matter. -/
lemma Asked.quiet {id : ScopeId} {retain : Bool} {s s' : Scopes} {log log' log'' : Array Event}
    (asked : Asked id retain s log s' log') (quiet : Event.Quiet log' log'') :
    Asked id retain s log s' log'' := by
  obtain ⟨events, same, asks⟩ := asked
  obtain ⟨events', same', none⟩ := quiet
  refine ⟨events ++ events', by rw [same', same, append_assoc], ?_⟩
  rwa [Event.temporaries_append, none, append_nil]

/-- The scopes keep their promises, and there is one at least. -/
structure Alive (s : Scopes) : Prop where
  sound : s.Sound
  inhabited : s.nodes ≠ []

end Scopes

/-- The log of a site tells the temporaries of its levels. -/
lemma PatternLevel.temporaries_events (id : ScopeId) (levels : List PatternLevel)
    (outcome : Except Failure LoweredSite) :
    Event.temporaries (levels.flatMap (events id) ++
      (outcome.toOption.map LoweredSite.event).toList) =
      names levels := by
  have last : Event.temporaries (outcome.toOption.map LoweredSite.event).toList = [] := by
    cases outcome <;> rfl
  rw [Event.temporaries_append, last, append_nil]
  induction levels with
  | nil => rfl
  | cons level later ih =>
    rw [flatMap_cons, Event.temporaries_append, ih]
    cases temp : level.temp <;> simp [events, names, Event.temporaries, Event.temporary?, temp]

lemma SiteBalance.asked {t : Table} {buffer : EditBuffer} {n : NodeId} {retain : Bool}
    {s s' : Scopes} {log log' : Array Event} {outcome : Except Failure LoweredSite}
    {levels : List PatternLevel}
    (balance : SiteBalance t buffer n retain s log outcome s' log' levels) (sound : s'.Sound) :
    Scopes.Asked (s.closest t n) retain s log s' log' := by
  refine ⟨_, balance.events, ⟨sound, balance.only.identifiers, fun x held => ?_⟩, ?_,
    fun retained => ?_⟩
  · cases isRetained : retain with
    | true => exact (balance.retained isRetained x).mpr (.inl held)
    | false => exact (balance.returned isRetained _ x).mpr held
  · rw [PatternLevel.temporaries_events]
    exact balance.fresh
  · rw [PatternLevel.temporaries_events]
    exact fun x mem => (balance.retained retained x).mpr (.inr mem)

lemma Table.lowerSite_balance {t : Table} {scopes : Scopes} (alive : scopes.Alive)
    (buffer : EditBuffer) (n : NodeId) (retain : Bool) (log : Array Event) :
    (t.lowerSite buffer n retain scopes log).2.1.Sound ∧
      ∃ levels, SiteBalance t buffer n retain scopes log
      (t.lowerSite buffer n retain scopes log).1 (t.lowerSite buffer n retain scopes log).2.1
      (t.lowerSite buffer n retain scopes log).2.2 levels :=
  ⟨(lowerSite_preserves (Unwind.fresh_stable _ scopes.identifiers) ⟨alive.sound, rfl⟩).1,
    exists_siteBalance alive.sound (Scopes.length_nodes ▸ length_pos_of_ne_nil alive.inhabited)
    buffer n retain log⟩

namespace Scopes

variable {t : Table} {s s' : Scopes} {n : NodeId} {id other : ScopeId}

lemma closest_congr (same : s'.nodes = s.nodes) (t : Table) (n : NodeId) :
    s'.closest t n = s.closest t n := by
  unfold closest
  rw [funext (opened?_congr same)]

lemma closest_lt (inhabited : s.nodes ≠ []) : s.closest t n < s.nodes.length := by
  unfold closest
  cases found : (t.ancestors n).findSome? s.opened? with
  | none => exact length_pos_of_ne_nil inhabited
  | some id =>
    obtain ⟨_, _, opened⟩ := exists_of_findSome?_eq_some found
    exact opened?_lt opened

lemma held_of_lt (known : id < s.nodes.length) : s.held id = (s.temps id).held := by
  rw [length_nodes] at known
  rw [held, registry, ensured_eq_of_pos (Nat.zero_lt_of_lt known), keeper, if_pos known]

lemma OnlyAt.held_other (only : OnlyAt other s s') (apart : id ≠ other)
    (known : id < s.nodes.length) : s'.held id = s.held id := by
  have known' : id < s'.nodes.length := by rwa [length_nodes, only.size, ← length_nodes]
  rw [held_of_lt known', held_of_lt known, temps, temps, only.others id apart]

end Scopes

namespace Pass

variable {input : PassInput} {p : Pass} {log : Array Event}

lemma report_quiet (quiet : Event.Quiet log p.log) (start stop : Nat) (failure : Failure) :
    Event.Quiet log (p.report input start stop failure).log := by
  unfold report
  dsimp only
  split
  · exact quiet.push _ rfl
  · exact quiet

lemma failed_quiet (quiet : Event.Quiet log p.log) (n : NodeId) (failure : Failure) :
    Event.Quiet log (p.failed input n failure).log := by
  unfold failed
  dsimp only
  refine report_quiet ?_ _ _ failure
  split
  · exact quiet.push _ rfl
  · split
    · exact quiet.push _ rfl
    · exact quiet

lemma declareTemps_quiet (n : NodeId) (statements : List NodeId) :
    Event.Quiet p.log (p.declareTemps input n statements).log := by
  unfold declareTemps
  split
  · exact .refl
  · dsimp only
    split
    · exact .refl
    · exact report_quiet .refl _ _ _

lemma lower_asked (alive : p.scopes.Alive) (retain : Bool) (n : NodeId) :
    Scopes.Asked (p.scopes.closest input.table n) retain p.scopes p.log
      (p.lower input retain n).scopes (p.lower input retain n).log := by
  obtain ⟨sound, levels, balance⟩ := input.table.lowerSite_balance alive p.buffer n retain p.log
  rw [lower_scopes]
  refine (balance.asked sound).quiet ?_
  unfold lower
  dsimp only
  split
  · exact failed_quiet .refl n _
  · split
    · exact failed_quiet .refl n _
    · exact .refl

end Pass

/-- The temporaries that an action asks for. -/
def Action.temporaries (input : PassInput) (action : Action) (p : Pass) : List String :=
  Event.temporaries ((action.run input p).log.toList.drop p.log.size)

namespace Pass

variable {input : PassInput} {p : Pass} {action : Action} {actions : List Action} {n : NodeId}

/-- A site asks for temporaries in its scope, any other action for none. -/
lemma run_asks (input : PassInput) (alive : p.scopes.Alive) (action : Action) :
    Event.temporaries (action.run input p).log.toList =
        Event.temporaries p.log.toList ++ action.temporaries input p ∧
      (action.site? = none → action.temporaries input p = []) ∧
      ∀ n, action.site? = some n → Scopes.Asks (p.scopes.closest input.table n) action.isRetained
        p.scopes (action.run input p).scopes (action.temporaries input p) := by
  have grown {events : List Event} (same : (action.run input p).log.toList =
    p.log.toList ++ events) :
      Event.temporaries (action.run input p).log.toList =
          Event.temporaries p.log.toList ++ action.temporaries input p ∧
        action.temporaries input p = Event.temporaries events := by
    have rest : action.temporaries input p = Event.temporaries events := by
      simp [Action.temporaries, same]
    rw [rest, same, Event.temporaries_append]
    exact ⟨rfl, rfl⟩
  cases action with
  | lower retain m =>
    obtain ⟨events, same, asks⟩ := lower_asked alive retain m
    obtain ⟨whole, rest⟩ := grown same
    refine ⟨whole, nofun, fun n isSite => ?_⟩
    cases isSite
    rw [rest]
    exact asks
  | declareTemps m statements =>
    obtain ⟨events, same, none⟩ := declareTemps_quiet m statements
    obtain ⟨whole, rest⟩ := grown same
    exact ⟨whole, fun _ => rest.trans none, nofun⟩
  | tooDeep m =>
    obtain ⟨events, same, none⟩ : Event.Quiet p.log ((Action.tooDeep m).run input p).log :=
      Event.Quiet.refl.push _ rfl
    obtain ⟨whole, rest⟩ := grown same
    exact ⟨whole, fun _ => rest.trans none, nofun⟩

/-- No action gives back what was in use before it. -/
lemma run_continues (input : PassInput) (alive : p.scopes.Alive) {id : ScopeId}
    (known : id < p.scopes.nodes.length) (action : Action) :
    Scopes.Continues id p.scopes (action.run input p).scopes := by
  cases isSite : action.site? with
  | none =>
    rw [run_scopes isSite]
    exact .refl alive.sound
  | some n =>
    by_cases here : id = p.scopes.closest input.table n
    · subst here
      exact ((run_asks input alive action).2.2 n isSite).continues
    · cases action with
      | lower retain m =>
        cases isSite
        obtain ⟨sound, levels, balance⟩ :=
          input.table.lowerSite_balance alive p.buffer n retain p.log
        rw [Action.run_lower, lower_scopes]
        exact ⟨sound, balance.only.identifiers,
          fun x held => (balance.only.held_other here known).symm ▸ held⟩
      | declareTemps m statements => cases isSite
      | tooDeep m => cases isSite

lemma run_nodes (input : PassInput) (alive : p.scopes.Alive) (action : Action) :
    (action.run input p).scopes.nodes = p.scopes.nodes := perform_nodes [action] alive.inhabited

lemma run_alive (input : PassInput) (alive : p.scopes.Alive) (action : Action) :
    (action.run input p).scopes.Alive :=
  ⟨(run_continues input alive (length_pos_of_ne_nil alive.inhabited) action).sound,
    run_nodes input alive action ▸ alive.inhabited⟩

/-- The actions, each with the temporaries it asks for. -/
def asked (input : PassInput) : List Action → Pass → List (Action × List String)
  | [], _ => []
  | action :: later, p =>
    (action, action.temporaries input p) :: asked input later (action.run input p)

lemma map_asked (actions : List Action) (p : Pass) :
    (p.asked input actions).map Prod.fst = actions := by
  induction actions generalizing p with
  | nil => rfl
  | cons action later ih => rw [asked, map_cons, ih]

/-- The sites that a run comes to, each with the temporaries it asks for. -/
def siteTemporaries (input : PassInput) (actions : List Action) (p : Pass) :
    List (NodeId × List String) :=
  (p.asked input actions).filterMap fun x => x.1.site?.map fun n => (n, x.2)

lemma siteTemporaries_cons (action : Action) (later : List Action) (p : Pass) :
    p.siteTemporaries input (action :: later) =
      (action.site?.map fun n => (n, action.temporaries input p)).toList ++
        (action.run input p).siteTemporaries input later := by
  unfold siteTemporaries
  rw [asked, filterMap_cons]
  cases action.site? <;> rfl

lemma mem_siteTemporaries {site : NodeId × List String} :
    site ∈ p.siteTemporaries input actions ↔
      ∃ action, (action, site.2) ∈ p.asked input actions ∧ action.site? = some site.1 := by
  unfold siteTemporaries
  rw [mem_filterMap]
  constructor
  · rintro ⟨x, mem, found⟩
    obtain ⟨n, isSite, rfl⟩ := Option.map_eq_some_iff.mp found
    exact ⟨x.1, mem, isSite⟩
  · rintro ⟨action, mem, isSite⟩
    exact ⟨_, mem, by rw [isSite]; rfl⟩

lemma map_siteTemporaries (actions : List Action) (p : Pass) :
    (p.siteTemporaries input actions).map Prod.fst = lowered actions := by
  have sites : lowered actions = (p.asked input actions).filterMap (Action.site? ∘ Prod.fst) := by
    rw [← filterMap_map, map_asked]
    rfl
  rw [sites, siteTemporaries, map_filterMap]
  refine filterMap_congr fun x _ => ?_
  cases isSite : x.1.site? <;> simp [isSite]

/-- The log has all these temporaries in it and no other. -/
lemma temporaries_perform (input : PassInput) (alive : p.scopes.Alive) (actions : List Action) :
    Event.temporaries (p.perform input actions).log.toList =
      Event.temporaries p.log.toList ++ (p.siteTemporaries input actions).flatMap Prod.snd := by
  induction actions generalizing p with
  | nil => simp [siteTemporaries, asked]
  | cons action later ih =>
    obtain ⟨whole, none, _⟩ := run_asks input alive action
    rw [perform_cons, ih (run_alive input alive action), whole, siteTemporaries_cons,
      flatMap_append, append_assoc]
    cases isSite : action.site? with
    | none => simp [none isSite]
    | some n => simp

/-- What is in use at the start of a run is not handed out in it. -/
lemma asked_fresh (alive : p.scopes.Alive) {x : Action × List String}
    (mem : x ∈ p.asked input actions) (isSite : x.1.site? = some n) :
    ∀ name ∈ x.2, name ∉ p.scopes.held (p.scopes.closest input.table n) := by
  induction actions generalizing p with
  | nil => cases mem
  | cons action later ih =>
    rcases mem_cons.mp mem with rfl | mem
    · exact ((run_asks input alive action).2.2 n isSite).fresh
    · intro name isName held
      refine ih (run_alive input alive action) mem name isName ?_
      rw [Scopes.closest_congr (run_nodes input alive action)]
      exact (run_continues input alive (Scopes.closest_lt alive.inhabited) action).held name held

/-- The names of a site that is retained are not handed out again in its scope. -/
lemma asked_disjoint (alive : p.scopes.Alive) (actions : List Action) :
    (p.asked input actions).Pairwise fun x y =>
      ∀ n m, x.1.site? = some n → y.1.site? = some m → x.1.isRetained →
        p.scopes.closest input.table n = p.scopes.closest input.table m → x.2.Disjoint y.2 := by
  induction actions generalizing p with
  | nil => exact .nil
  | cons action later ih =>
    have nodes := run_nodes input alive action
    have alive' := run_alive input alive action
    refine pairwise_cons.mpr ⟨fun y mem n m isSite isSite' retained same name isName isName' => ?_,
      ?_⟩
    · refine asked_fresh alive' mem isSite' name isName' ?_
      rw [Scopes.closest_congr nodes, ← same]
      exact ((run_asks input alive action).2.2 n isSite).kept retained name isName
    · refine (ih alive').imp fun disjoint n m isSite isSite' retained same => ?_
      refine disjoint n m isSite isSite' retained ?_
      rw [Scopes.closest_congr nodes, Scopes.closest_congr nodes, same]

end Pass

namespace Table

variable {t : Table} {opens closes : Nat → Prop} {text : Text} {root n m e e' : NodeId}

/-- `n` lies in `e`, and in no function in between, so it runs whenever `e` does. -/
inductive RunsIn (t : Table) (e : NodeId) : NodeId → Prop where
  | self (plain : ¬ t.IsFunction e) : RunsIn t e e
  | part {n parent : NodeId} (up : t.parent? n = some parent) (plain : ¬ t.IsFunction n)
    (rest : RunsIn t e parent) : RunsIn t e n

lemma RunsIn.under (runs : t.RunsIn e n) : t.Under e n := by
  induction runs with
  | self plain => exact .self
  | part up plain _ ih => exact .part up ih

lemma RunsIn.not_isFunction (runs : t.RunsIn e n) : ¬ t.IsFunction e := by
  induction runs with
  | self plain => exact plain
  | part up plain _ ih => exact ih

/-- A function is no part of a pattern, so it has no expressions but itself. -/
lemma HasExpression.not_isFunction (has : t.HasExpression n e) (plain : ¬ t.IsFunction e) :
    ¬ t.IsFunction n := by
  rintro ⟨form, parts, found, isFunction⟩
  cases has with
  | key found' =>
    cases found.symm.trans found'
    cases isFunction
  | target => exact plain ⟨form, parts, found, isFunction⟩
  | inner found' nested _ =>
    cases found.symm.trans found'
    cases form <;> first | (cases isFunction; done) | cases nested

lemma Tree.not_parent_root (tree : t.Tree text root) : t.parent? root = none := by
  by_contra some
  obtain ⟨parent, up⟩ := Option.ne_none_iff_exists'.mp some
  have below := tree.tidy.lt_parent up
  have inside := tree.tidy.parent_lt_size up
  rw [tree.last] at inside
  exact absurd (Nat.le_of_lt_succ inside) (Nat.not_le_of_lt below)

end Table

/-- The program opens a scope, and apart from it only functions do. -/
structure Scopes.OpenedBy (t : Table) (root : NodeId) (s : Scopes) : Prop where
  program : some root ∈ s.nodes
  others : ∀ n, some n ∈ s.nodes → n = root ∨ t.IsFunction n

lemma Binding.openedBy_bind {t : Table} {root : NodeId} (depth : Nat) (scope : ScopeId) (n : NodeId)
    {b : Binding} (opened : b.scopes.OpenedBy t root) :
    (bind t depth scope n b).scopes.OpenedBy t root := by
  induction depth generalizing scope n b with
  | zero => exact opened
  | succ depth ih =>
    rw [bind]
    cases found : t.form? n with
    | none => exact opened
    | some form =>
      dsimp only
      have entered : (enter t scope n form b.scopes).2.OpenedBy t root := by
        refine ⟨?_, fun m mem => ?_⟩
        · rw [nodes_enter]
          exact mem_append_left _ opened.program
        rw [nodes_enter] at mem
        rcases mem_append.mp mem with mem | mem
        · exact opened.others m mem
        · split at mem
          · rename_i isFunction
            obtain ⟨parts, isFunction⟩ := Option.isSome_iff_exists.mp isFunction
            obtain rfl : m = n := by simpa using mem
            exact .inr ⟨form, parts, found, isFunction⟩
          · cases mem
      refine List.foldlRecOn form.children _ (motive := fun b : Binding => b.scopes.OpenedBy t root)
        entered fun b opened part _ => ih _ part opened

lemma Binding.openedBy_ofTable (t : Table) (root : NodeId) :
    (ofTable t root).scopes.OpenedBy t root := by
  refine openedBy_bind _ _ _ ⟨by simp [Scopes.nodes], fun n mem => .inl ?_⟩
  simpa [Scopes.nodes, Scopes.cleared] using mem

namespace Table

variable {t : Table} {text : Text} {root n m e e' parent : NodeId} {s : Scopes}
  (tree : t.Tree text root) (opened : s.OpenedBy t root)

include tree opened

/-- What is no function is in the scope of its parent. -/
lemma closest_of_parent (up : t.parent? n = some parent) (plain : ¬ t.IsFunction n) :
    s.closest t n = s.closest t parent := by
  have none : s.opened? n = none := by
    by_contra some
    obtain ⟨id, opens⟩ := Option.ne_none_iff_exists'.mp some
    rcases opened.others n (mem_of_getElem? (Scopes.node_of_opened? opens)) with rfl | isFunction
    · cases up.symm.trans tree.not_parent_root
    · exact plain isFunction
  rw [Scopes.closest, ancestors_of_parent tree.tidy up, findSome?_cons, none]
  rfl

lemma RunsIn.closest (runs : t.RunsIn e n) : s.closest t n = s.closest t e := by
  induction runs with
  | self plain => rfl
  | part up plain _ ih => exact (closest_of_parent tree opened up plain).trans ih

lemma HasExpression.closest (has : t.HasExpression n e) (plain : ¬ t.IsFunction e) :
    s.closest t e = s.closest t n := by
  induction has with
  | @key n key target found =>
    have isPart : key ∈ t.children n := mem_children_of_form found (by simp [Form.children])
    exact closest_of_parent tree opened (tree.tidy.parent?_of_mem isPart) plain
  | target found isTarget unnamed => rfl
  | inner found nested inside ih =>
    have isPart := mem_children_of_form found (Form.nestedParts_subset _ _ nested)
    refine (ih plain).trans ?_
    exact closest_of_parent tree opened (tree.tidy.parent?_of_mem isPart)
      (inside.not_isFunction plain)

omit opened in
/-- Different expressions of a pattern have nothing in common. -/
lemma Tree.expressions_apart (isPattern : t.isPattern n) (has : t.HasExpression n e)
    (has' : t.HasExpression n e') (other : e ≠ e') : t.Apart e e' := by
  obtain ⟨declared, fits⟩ := tree.fits_target isPattern
  obtain ⟨parent, _, up, _⟩ := tree.takes isPattern
  obtain ⟨node, isNode, wide⟩ := tree.tidy.wide_of_parent up
  have laid : t.Laid node.start [n] node.stop := ⟨node, isNode, le_rfl, wide, le_rfl⟩
  exact (fits.expressions_laid tree.tidy rfl laid).disjoint tree.tidy
    ((mem_patternExpressions tree.tidy).mpr has) ((mem_patternExpressions tree.tidy).mpr has') other

end Table

/-- In a list of sites with their temporaries, those of a site in an expression of a pattern are
different from those of the pattern, and from those of a site in another expression of it. -/
structure Table.KeepsTemporaries (t : Table) (sites : List (NodeId × List String)) : Prop where
  around : ∀ site ∈ sites, ∀ nested ∈ sites, ∀ e, t.HasExpression site.1 e → t.RunsIn e nested.1 →
    nested.2.Disjoint site.2
  beside : ∀ site ∈ sites, ∀ nested ∈ sites, ∀ other ∈ sites, ∀ e e', e ≠ e' →
    t.HasExpression site.1 e → t.RunsIn e nested.1 →
    t.HasExpression site.1 e' → t.RunsIn e' other.1 → nested.2.Disjoint other.2

namespace Pass

variable {input : PassInput} {text : Text} {root : NodeId} {p : Pass}

/-- The second site is not in the first one, and if both are in one scope it shares no temporary
that the first one retains. -/
def Precedes (t : Table) (s : Scopes) (x y : Action × List String) : Prop :=
  ¬ t.Inside x.1 y.1 ∧ ∀ n m, x.1.site? = some n → y.1.site? = some m → x.1.isRetained →
    s.closest t n = s.closest t m → x.2.Disjoint y.2

/-- Of any two actions of the pass one precedes the other. -/
lemma precedes_or (tree : input.table.Tree text root) (alive : p.scopes.Alive)
    {x y : Action × List String} (mem : x ∈ p.asked input (input.table.plan root))
    (mem' : y ∈ p.asked input (input.table.plan root)) (other : x ≠ y) :
    Precedes input.table p.scopes x y ∨ Precedes input.table p.scopes y x := by
  have ordered : (p.asked input (input.table.plan root)).Pairwise fun x y =>
      ¬ input.table.Inside x.1 y.1 := by
    have ordered := tree.plan_nests.ordered
    rwa [← map_asked (input.table.plan root) p, pairwise_map] at ordered
  have precedes :
      (p.asked input (input.table.plan root)).Pairwise (Precedes input.table p.scopes) :=
    ordered.and (asked_disjoint alive _)
  have :
      Std.Symm fun x y => Precedes input.table p.scopes x y ∨ Precedes input.table p.scopes y x :=
    ⟨fun _ _ => Or.symm⟩
  have either : (p.asked input (input.table.plan root)).Pairwise fun x y =>
      Precedes input.table p.scopes x y ∨ Precedes input.table p.scopes y x := precedes.imp .inl
  exact either.forall mem mem' other

/-- The pass keeps temporaries apart, if it starts with the scopes of the tree. -/
lemma keepsTemporaries_of_tree (tree : input.table.Tree text root) (sound : p.scopes.Sound)
    (opened : p.scopes.OpenedBy input.table root) :
    input.table.KeepsTemporaries (p.siteTemporaries input (input.table.plan root)) := by
  have alive : p.scopes.Alive := ⟨sound, ne_nil_of_mem opened.program⟩
  have isAction {x : Action × List String} (mem : x ∈ p.asked input (input.table.plan root)) :
      x.1 ∈ input.table.plan root := by
    rw [← map_asked (input.table.plan root) p]
    exact mem_map_of_mem mem
  have isPattern {x : Action × List String} {n : NodeId}
      (mem : x ∈ p.asked input (input.table.plan root)) (isSite : x.1.site? = some n) :
      input.table.isPattern n :=
    (tree.plan_sites n (mem_filterMap.mpr ⟨_, isAction mem, isSite⟩)).1
  have closest {n e m : NodeId} (has : input.table.HasExpression n e)
    (runs : input.table.RunsIn e m) :
      p.scopes.closest input.table m = p.scopes.closest input.table n :=
    (runs.closest tree opened).trans (has.closest tree opened runs.not_isFunction)
  have distinct {a b : Action} {n m : NodeId} (isA : a.site? = some n) (isB : b.site? = some m)
      (other : n ≠ m) (names names' : List String) : (a, names) ≠ (b, names') := by
    intro same
    rw [(Prod.mk.inj same).1, isB] at isA
    exact other (Option.some.inj isA).symm
  constructor
  · intro site isSite nested isNested e has runs
    obtain ⟨a, mem, isA⟩ := mem_siteTemporaries.mp isSite
    obtain ⟨b, mem', isB⟩ := mem_siteTemporaries.mp isNested
    have inside : input.table.Inside a b := ⟨_, _, e, isA, isB, has, runs.under⟩
    have below : nested.1 < site.1 :=
      (tree.tidy.under_le runs.under).trans_lt (has.lt tree.tidy (isPattern mem isA))
    rcases precedes_or tree alive mem mem' (distinct isA isB below.ne' _ _) with before | before
    · exact absurd inside before.1
    · exact before.2 _ _ isB isA
        (tree.plan_nests.retained a (isAction mem) b (isAction mem') inside) (closest has runs)
  · intro site isSite nested isNested another isAnother e e' apart has runs has' runs'
    obtain ⟨a, mem, isA⟩ := mem_siteTemporaries.mp isSite
    obtain ⟨b, mem', isB⟩ := mem_siteTemporaries.mp isNested
    obtain ⟨c, mem'', isC⟩ := mem_siteTemporaries.mp isAnother
    have retained := tree.plan_nests.retained a (isAction mem) b (isAction mem')
      ⟨_, _, e, isA, isB, has, runs.under⟩
    have retained' := tree.plan_nests.retained a (isAction mem) c (isAction mem'')
      ⟨_, _, e', isA, isC, has', runs'.under⟩
    have same := (closest has runs).trans (closest has' runs').symm
    have other : nested.1 ≠ another.1 := fun same =>
      tree.expressions_apart (isPattern mem isA) has has' apart _ runs.under (same ▸ runs'.under)
    rcases precedes_or tree alive mem' mem'' (distinct isB isC other _ _) with before | before
    · exact before.2 _ _ isB isC retained same
    · exact (before.2 _ _ isC isB retained' same.symm).symm

end Pass

attribute [local irreducible] Parsed.ofText

/-- Nothing is handed out before the pass. -/
lemma Lowering.temporaries_passStart (file source : String) :
    Event.temporaries (passStart file source).log.toList = [] := by
  refine filterMap_eq_nil_iff.mpr fun event mem => ?_
  simp only [passStart, boundEvents, Array.toList_append, mem_append, mem_map,
    mem_cons, not_mem_nil, or_false] at mem
  rcases mem with rfl | ⟨n, _, rfl⟩ | rfl <;> rfl

/-- Sites inside of a pattern do not touch the temporaries of the pattern. The temporaries of a site
that runs with a computed key or a target of a pattern are different from those of the pattern, and
from those of a site that runs with another key or target of it. The sites are all those that the
pass lowers, and the temporaries all those that it is handed out. -/
theorem nested_sites_keep_their_temporaries (file source : String) (options : Options)
    (clean : (Parsed.ofText source.toList).hasErrors = false) :
    ((Lowering.passStart file source).siteTemporaries (Lowering.passInput file source options)
        (Lowering.passPlan source)).map Prod.fst = lowered (Lowering.passPlan source) ∧
      Event.temporaries (lower file source options).log.toList =
        ((Lowering.passStart file source).siteTemporaries (Lowering.passInput file source options)
          (Lowering.passPlan source)).flatMap Prod.snd ∧
      (Parsed.ofText source.toList).table.KeepsTemporaries
        ((Lowering.passStart file source).siteTemporaries (Lowering.passInput file source options)
          (Lowering.passPlan source)) := by
  have tree : (Lowering.passInput file source options).table.Tree source.toList
      (Parsed.ofText source.toList).root := Lowering.tree_of_clean clean
  have sound : (Lowering.passStart file source).scopes.Sound := Scopes.Reachable.bound.sound.1
  have opened : (Lowering.passStart file source).scopes.OpenedBy
      (Lowering.passInput file source options).table (Parsed.ofText source.toList).root :=
    Binding.openedBy_ofTable _ _
  have handedOut := Pass.temporaries_perform (Lowering.passInput file source options)
    ⟨sound, ne_nil_of_mem opened.program⟩ (Lowering.passPlan source)
  obtain ⟨_, _, _, log⟩ := Lowering.lower_eq_perform file options clean
  refine ⟨Pass.map_siteTemporaries _ _, ?_, Pass.keepsTemporaries_of_tree tree sound opened⟩
  rw [Lowering.temporaries_passStart, nil_append] at handedOut
  rw [log, Array.toList_push, Event.temporaries_append, handedOut]
  exact append_nil _

/-- A pattern with a site in a key and another one in a target. -/
def keyAndTarget : String := "(\x7b[[a, b] = f()]: c, d: ([e, g] = h()).i\x7d = j());"

theorem sites_in_key_and_target_keep_their_temporaries :
    (Parsed.ofText keyAndTarget.toList).hasErrors = false ∧
    (Lowering.passStart "a.js" keyAndTarget).siteTemporaries
        (Lowering.passInput "a.js" keyAndTarget .default) (Lowering.passPlan keyAndTarget) =
      [(2, ["_a"]), (11, ["_b"]), (19, ["_c"])] ∧
    (∃ key, (Parsed.ofText keyAndTarget.toList).table.HasExpression 19 key ∧
      (Parsed.ofText keyAndTarget.toList).table.RunsIn key 2) ∧
    (∃ target, (Parsed.ofText keyAndTarget.toList).table.HasExpression 19 target ∧
      (Parsed.ofText keyAndTarget.toList).table.RunsIn target 11) ∧
    ["_a"].Disjoint ["_c"] ∧ ["_b"].Disjoint ["_c"] ∧ ["_a"].Disjoint ["_b"] := by
  obtain ⟨clean, sites, forms, parents⟩ :
      (Parsed.ofText keyAndTarget.toList).hasErrors = false ∧
      (Lowering.passStart "a.js" keyAndTarget).siteTemporaries
        (Lowering.passInput "a.js" keyAndTarget .default) (Lowering.passPlan keyAndTarget) =
          [(2, ["_a"]), (11, ["_b"]), (19, ["_c"])] ∧
      [2, 5, 7, 11, 14, 15, 17, 18, 19].map (Parsed.ofText keyAndTarget.toList).table.form? =
        [some (.arrayPattern [some 0, some 1]), some (.assignment 2 .plain 4),
          some (.bindingProperty (some 5) true 6), some (.arrayPattern [some 9, some 10]),
          some (.assignment 11 .plain 13), some (.parenthesized 14), some (.member 15 16),
          some (.bindingProperty (some 8) false 17), some (.objectPattern [7, 18])] ∧
      [2, 11, 14, 15].map (Parsed.ofText keyAndTarget.toList).table.parent? =
        [some 5, some 14, some 15, some 17] := by decide +kernel
  generalize keyAndTarget = source at clean sites forms parents ⊢
  obtain ⟨_, _, keeps⟩ := nested_sites_keep_their_temporaries "a.js" source .default clean
  rw [sites] at keeps
  simp only [map_cons, map_nil, List.cons.injEq, and_true] at forms parents
  obtain ⟨is2, is5, is7, is11, is14, is15, is17, is18, is19⟩ := forms
  obtain ⟨up2, up11, up14, up15⟩ := parents
  have hasKey : (Parsed.ofText source.toList).table.HasExpression 19 5 :=
    .inner is19 (by simp [Form.nestedParts]) (.key is7)
  have inKey : (Parsed.ofText source.toList).table.RunsIn 5 2 :=
    .part up2 (Table.not_isFunction_of_form is2 rfl) (.self (Table.not_isFunction_of_form is5 rfl))
  have hasTarget : (Parsed.ofText source.toList).table.HasExpression 19 17 :=
    .inner is19 (by simp [Form.nestedParts]) (.inner is18 (by simp [Form.nestedParts])
      (.target is17 rfl (by simp [Table.name?, is17, Form.name?])))
  have inTarget : (Parsed.ofText source.toList).table.RunsIn 17 11 :=
    .part up11 (Table.not_isFunction_of_form is11 rfl) <|
      .part up14 (Table.not_isFunction_of_form is14 rfl) <|
        .part up15 (Table.not_isFunction_of_form is15 rfl)
          (.self (Table.not_isFunction_of_form is17 rfl))
  refine ⟨clean, sites, ⟨5, hasKey, inKey⟩, ⟨17, hasTarget, inTarget⟩, ?_, ?_, ?_⟩
  · exact keeps.around (19, ["_c"]) (by simp) (2, ["_a"]) (by simp) 5 hasKey inKey
  · exact keeps.around (19, ["_c"]) (by simp) (11, ["_b"]) (by simp) 17 hasTarget inTarget
  · exact keeps.beside (19, ["_c"]) (by simp) (2, ["_a"]) (by simp) (11, ["_b"]) (by simp) 5 17
      (by decide) hasKey inKey hasTarget inTarget

end PatternLowering

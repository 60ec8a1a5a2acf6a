import PatternLowering.Proofs.Editing
import PatternLowering.Proofs.Positions
import PatternLowering.Proofs.Unwinding

/-!
# Carrying out the plan

The walk over a node changes the buffer inside the range of the node only. So a site finds all edits
either outside of its range or inside one of the expressions that it takes over, and a function
finds none across the place where its temporaries are declared.
-/

namespace PatternLowering

open List Table

/-- Where an edit has its effect before all else: at the start of the text. -/
def Edit.AtTop (e : Edit) : Prop := e.start = 0 ∧ e.stop = 0

lemma Edit.AtTop.outside {e : Edit} (top : e.AtTop) (r : Nat × Nat) : e.Outside r := by
  obtain ⟨start, stop⟩ := top
  unfold Edit.Outside
  omega

namespace Table

/-- The nodes whose text a site takes over: its value, unless that is a variable, and the
expressions of its pattern. -/
def embedded (t : Table) (place : Lowerable) (n : NodeId) : List NodeId :=
  (if (t.name? place.value).isSome then [] else [place.value]) ++ t.patternExpressions n

end Table

namespace Pass

variable {t : Table} {n : NodeId}

lemma range_of_get? {node : Node} (found : t.get? n = some node) :
    range t n = (node.start, node.stop) := by simp [range, found]

/-- The first range lies in the second. -/
def Within (r r' : Nat × Nat) : Prop := r'.1 ≤ r.1 ∧ r.2 ≤ r'.2

/-- The ranges have no byte in common. -/
def Beside (r r' : Nat × Nat) : Prop := r.2 ≤ r'.1 ∨ r'.2 ≤ r.1

/-- The second state has the edits of the first one, and others in the ranges only. -/
structure Grows (ranges : List (Nat × Nat)) (p p' : Pass) : Prop where
  base : p'.buffer.base = p.buffer.base
  kept : ∀ {e}, e ∈ p.buffer.edits → e ∈ p'.buffer.edits
  new : ∀ {e}, e ∈ p'.buffer.edits →
    e ∈ p.buffer.edits ∨ (∃ r ∈ ranges, e.Inside r) ∨ e.AtTop

namespace Grows

variable {p p' p'' : Pass} {ranges ranges' : List (Nat × Nat)}

lemma of_buffer (same : p'.buffer = p.buffer) : Grows ranges p p' :=
  ⟨by rw [same], fun mem => same ▸ mem, fun mem => .inl (same ▸ mem)⟩

lemma trans (first : Grows ranges p p') (second : Grows ranges' p' p'') :
    Grows (ranges ++ ranges') p p'' := by
  refine ⟨second.base.trans first.base, fun mem => second.kept (first.kept mem), fun mem => ?_⟩
  rcases second.new mem with mem | ⟨r, isRange, inside⟩ | top
  · rcases first.new mem with mem | ⟨r, isRange, inside⟩ | top
    · exact .inl mem
    · exact .inr (.inl ⟨r, mem_append_left _ isRange, inside⟩)
    · exact .inr (.inr top)
  · exact .inr (.inl ⟨r, mem_append_right _ isRange, inside⟩)
  · exact .inr (.inr top)

lemma widen (grows : Grows ranges p p') (wider : ∀ r ∈ ranges, ∃ r' ∈ ranges', Within r r') :
    Grows ranges' p p' := by
  refine ⟨grows.base, grows.kept, fun mem => ?_⟩
  rcases grows.new mem with mem | ⟨r, isRange, inside⟩ | top
  · exact .inl mem
  · obtain ⟨r', isRange', before, after⟩ := wider r isRange
    exact .inr (.inl ⟨r', isRange', inside.mono before after⟩)
  · exact .inr (.inr top)

end Grows

/-- What holds before each action that is carried out. -/
def Along (input : PassInput) (E : Action → Pass → Prop) : List Action → Pass → Prop
  | [], _ => True
  | action :: later, p => E action p ∧ Along input E later (action.run input p)

lemma along_append {input : PassInput} {E : Action → Pass → Prop} {first second : List Action}
    {p : Pass} : Along input E (first ++ second) p ↔
      Along input E first p ∧ Along input E second (p.perform input first) := by
  induction first generalizing p with
  | nil => simp [Along]
  | cons action later ih => simp [Along, ih, and_assoc]

/-- The buffer is ready for an action. A site finds every edit outside of its range or inside one of
the nodes that it takes over; a declaration can be inserted. -/
def Prepared (t : Table) (text : Text) (action : Action) (p : Pass) : Prop :=
  p.buffer.base = .ofText text ∧
    match action with
    | .lower _ n => ∀ place, t.lowerable n = .ok place → ∀ e ∈ p.buffer.edits,
        e.Outside (range t place.whole) ∨ ∃ m ∈ t.embedded place n, e.Inside (range t m)
    | .declareTemps _ statements => ∀ temps, ∃ b,
        TempDeclaration.insert t p.buffer statements temps = .ok b
    | .tooDeep _ => True

/-- Where the ranges are clear of edits, the actions find the buffer prepared and change it only in
the ranges. -/
def Runs (input : PassInput) (text : Text) (actions : List Action) (ranges : List (Nat × Nat)) :
    Prop :=
  ∀ p : Pass, p.buffer.base = .ofText text → (∀ r ∈ ranges, ∀ e ∈ p.buffer.edits, e.Outside r) →
    Along input (Prepared input.table text) actions p ∧ Grows ranges p (p.perform input actions)

namespace Runs

variable {input : PassInput} {text : Text} {actions actions' : List Action}
  {ranges ranges' : List (Nat × Nat)}

lemma nil : Runs input text [] [] := fun _ _ _ => ⟨trivial, .of_buffer rfl⟩

lemma tooDeep (n : Option NodeId) : Runs input text [.tooDeep n] [] :=
  fun _ base _ => ⟨⟨⟨base, trivial⟩, trivial⟩, .of_buffer rfl⟩

lemma append (first : Runs input text actions ranges) (second : Runs input text actions' ranges')
    (beside : ∀ r ∈ ranges, ∀ r' ∈ ranges', Beside r r') :
    Runs input text (actions ++ actions') (ranges ++ ranges') := by
  intro p base clear
  obtain ⟨along, grows⟩ := first p base fun r mem => clear r (mem_append_left _ mem)
  obtain ⟨along', grows'⟩ := second (p.perform input actions) (grows.base.trans base)
    fun r' mem' e isEdit => by
      rcases grows.new isEdit with isEdit | ⟨r, mem, inside⟩ | top
      · exact clear r' (mem_append_right _ mem') e isEdit
      · exact inside.outside (beside r mem r' mem')
      · exact top.outside r'
  exact ⟨along_append.mpr ⟨along, along'⟩, by simpa using grows.trans grows'⟩

lemma widen (runs : Runs input text actions ranges)
    (wider : ∀ r ∈ ranges, ∃ r' ∈ ranges', Within r r') : Runs input text actions ranges' := by
  intro p base clear
  obtain ⟨along, grows⟩ := runs p base fun r mem e isEdit => by
    obtain ⟨r', mem', before, after⟩ := wider r mem
    exact (clear r' mem' e isEdit).mono before after
  exact ⟨along, grows.widen wider⟩

lemma flatMap {α : Type} {f : α → List Action} {g : α → Nat × Nat} {xs : List α}
    (each : ∀ x ∈ xs, Runs input text (f x) [g x])
    (beside : xs.Pairwise fun x y => Beside (g x) (g y)) :
    Runs input text (xs.flatMap f) (xs.map g) := by
  induction xs with
  | nil => exact nil
  | cons x later ih =>
    obtain ⟨first, rest⟩ := pairwise_cons.mp beside
    refine (each x (by simp)).append (ih (fun y mem => each y (by simp [mem])) rest)
      fun r mem r' mem' => ?_
    cases mem_singleton.mp mem
    obtain ⟨y, isY, rfl⟩ := mem_map.mp mem'
    exact first y isY

end Runs

section Actions

variable {input : PassInput} {text : Text}

lemma failed_buffer (failure : Failure) (p : Pass) :
    (p.failed input n failure).buffer = p.buffer := by
  unfold failed report
  dsimp only
  split
  · rfl
  · split <;> rfl

/-- Lowering a site replaces its range or leaves the buffer as it is. -/
lemma lower_buffer (input : PassInput) (retain : Bool) (n : NodeId) (p : Pass) :
    (p.lower input retain n).buffer = p.buffer ∨
      ∃ place whole text, input.table.lowerable n = .ok place ∧
        input.table.get? place.whole = some whole ∧
        p.buffer.replace whole.start whole.stop text = .ok (p.lower input retain n).buffer := by
  unfold lower
  dsimp only
  split
  · exact .inl (failed_buffer _ _)
  · rename_i site lowered
    split
    · exact .inl (failed_buffer _ _)
    · rename_i buffer replaced
      obtain ⟨place, whole, _, _, _, isPlace, isWhole, _, _, start, stop, _⟩ :=
        lowerSite_eq_ok (Prod.ext lowered rfl)
      rw [start, stop] at replaced
      exact .inr ⟨place, whole, _, isPlace, isWhole, replaced⟩

/-- A site takes over what was done inside its range before. -/
lemma Runs.site {actions : List Action} {ms : List NodeId} {whole : NodeId} {node : Node}
    (runs : Runs input text actions (ms.map (range input.table))) (retain : Bool)
    (found : input.table.get? whole = some node) (wide : node.start < node.stop)
    (inner : ∀ m ∈ ms, Within (range input.table m) (range input.table whole))
    (placed : ∀ place, input.table.lowerable n = .ok place →
      place.whole = whole ∧ ∀ m ∈ ms, m ∈ input.table.embedded place n) :
    Runs input text (actions ++ [.lower retain n]) [range input.table whole] := by
  intro p base clear
  have clear : ∀ e ∈ p.buffer.edits, e.Outside (range input.table whole) := clear _ (by simp)
  obtain ⟨along, grows⟩ := runs p base fun r mem e isEdit => by
    obtain ⟨m, isM, rfl⟩ := mem_map.mp mem
    exact (clear e isEdit).mono (inner m isM).1 (inner m isM).2
  have within {e : Edit} {r : Nat × Nat} (mem : r ∈ ms.map (range input.table))
    (inside : e.Inside r) :
      e.Inside (range input.table whole) := by
    obtain ⟨m, isM, rfl⟩ := mem_map.mp mem
    exact inside.mono (inner m isM).1 (inner m isM).2
  refine ⟨along_append.mpr ⟨along, ⟨grows.base.trans base, fun place isPlace e isEdit => ?_⟩,
    trivial⟩, ?_⟩
  · obtain ⟨rfl, embedded⟩ := placed place isPlace
    rcases grows.new isEdit with isEdit | ⟨r, mem, inside⟩ | top
    · exact .inl (clear e isEdit)
    · obtain ⟨m, isM, rfl⟩ := mem_map.mp mem
      exact .inr ⟨m, embedded m isM, inside⟩
    · exact .inl (top.outside _)
  · rw [perform_append]
    change Grows _ p ((p.perform input actions).lower input retain n)
    rcases lower_buffer input retain n (p.perform input actions) with
      same | ⟨place, node', text', isPlace, isWhole, replaced⟩
    · have unchanged : Grows [] (p.perform input actions)
          ((p.perform input actions).lower input retain n) := .of_buffer same
      refine (grows.trans unchanged).widen fun r mem => ?_
      rw [append_nil] at mem
      obtain ⟨m, isM, rfl⟩ := mem_map.mp mem
      exact ⟨_, by simp, inner m isM⟩
    · obtain ⟨rfl, _⟩ := placed place isPlace
      cases found.symm.trans isWhole
      have range_eq := range_of_get? found
      rw [range_eq] at clear within ⊢
      obtain ⟨base', edits⟩ := EditBuffer.mem_edits_of_replace wide replaced
      refine ⟨base'.trans grows.base, fun {e} mem => ?_, fun {e} mem => ?_⟩
      · exact (edits e).mpr (.inr ⟨grows.kept mem, (clear e mem).not_isWithin⟩)
      · rcases (edits e).mp mem with rfl | ⟨mem, outside⟩
        · refine .inr (.inl ⟨_, mem_singleton_self _, wide.le, ?_⟩)
          rw [Edit.isWithin_iff]
          exact .inr ⟨wide.ne, le_rfl, le_rfl⟩
        · rcases grows.new mem with mem | ⟨r, isRange, inside⟩ | top
          · exact .inl mem
          · exact absurd (within isRange inside).2 outside
          · exact .inr (.inr top)

/-- A pattern that cannot be lowered is only reported. -/
lemma Runs.refused {actions : List Action} {ranges : List (Nat × Nat)}
    (runs : Runs input text actions ranges) (retain : Bool) {failure : Failure}
    (refused : input.table.lowerable n = .error failure) :
    Runs input text (actions ++ [.lower retain n]) ranges := by
  have lower : Runs input text [.lower retain n] [] := by
    intro p base _
    refine ⟨⟨⟨base, fun place isPlace => ?_⟩, trivial⟩, .of_buffer ?_⟩
    · cases refused.symm.trans isPlace
    · rcases lower_buffer input retain n p with same | ⟨place, _, _, isPlace, _⟩
      · exact same
      · cases refused.symm.trans isPlace
  simpa using runs.append lower (by simp)

end Actions

section Ranges

variable {opens closes : Nat → Prop} {m : NodeId}

lemma within_of_under (tidy : t.Tidy opens closes) {node : Node} (found : t.get? n = some node)
    (under : t.Under n m) : Within (range t m) (range t n) := by
  have known : ∃ inner, t.get? m = some inner := by
    cases under with
    | self => exact ⟨node, found⟩
    | part up _ =>
      obtain ⟨inner, isInner, _⟩ := tidy.wide_of_parent up
      exact ⟨inner, isInner⟩
  obtain ⟨inner, isInner⟩ := known
  rw [range_of_get? found, range_of_get? isInner]
  exact tidy.span_under under found isInner

lemma within_of_mem (tidy : t.Tidy opens closes) {node : Node} (found : t.get? n = some node)
    (isPart : m ∈ node.form.children) : Within (range t m) (range t n) :=
  within_of_under tidy found
    (.of_child tidy (mem_children.mpr ⟨node, found, isPart⟩) .self)

/-- Nodes that follow one another are side by side. -/
lemma beside_of_laid {lo hi : Nat} {ns : List NodeId} (laid : t.Laid lo ns hi) :
    ns.Pairwise fun a b => Beside (range t a) (range t b) := by
  induction ns generalizing lo with
  | nil => exact .nil
  | cons n later ih =>
    obtain ⟨node, found, _, _, rest⟩ := laid
    refine .cons (fun m mem => .inl ?_) (ih rest)
    obtain ⟨inner, isInner, before, _⟩ := rest.within mem
    rw [range_of_get? found, range_of_get? isInner]
    exact before

lemma Within.trans {r r' r'' : Nat × Nat} (inner : Within r r') (outer : Within r' r'') :
    Within r r'' := ⟨outer.1.trans inner.1, inner.2.trans outer.2⟩

lemma Beside.mono {r r' s s' : Nat × Nat} (beside : Beside r s) (first : Within r' r)
    (second : Within s' s) : Beside r' s' :=
  beside.imp (fun before => (first.2.trans before).trans second.1)
    fun before => (second.2.trans before).trans first.1

lemma Beside.symm {r r' : Nat × Nat} (beside : Beside r r') : Beside r' r := Or.symm beside

end Ranges

section Declarations

variable {input : PassInput} {text : Text} {root : NodeId} {statements : List NodeId} {lo hi : Nat}

/-- Temporaries are declared at an end of a statement or, if there is none, at the start of the
text. -/
lemma place_offset (laid : t.Laid lo statements hi) (source : Text) (declaration : String) :
    (TempDeclaration.place t source statements declaration).1 = 0 ∧ statements = [] ∨
      ∃ m ∈ statements, ∃ node, t.get? m = some node ∧
        ((TempDeclaration.place t source statements declaration).1 = node.start ∨
          (TempDeclaration.place t source statements declaration).1 = node.stop) := by
  unfold TempDeclaration.place
  cases first : statements.find? fun n => !t.isDirective n with
  | some m =>
    have mem := mem_of_find?_eq_some first
    obtain ⟨node, found, _⟩ := laid.within mem
    exact .inr ⟨m, mem, node, found, .inl (by simp [found])⟩
  | none =>
    cases last : statements.getLast? with
    | none => exact .inl ⟨by simp, getLast?_eq_none_iff.mp last⟩
    | some m =>
      have mem := mem_of_getLast? last
      obtain ⟨node, found, _⟩ := laid.within mem
      exact .inr ⟨m, mem, node, found, .inr (by simp [found])⟩

lemma place_isBoundary (tree : t.Tree text root) (laid : t.Laid lo statements hi)
    (declaration : String) :
    text.isBoundary (TempDeclaration.place t text statements declaration).1 := by
  obtain ⟨top, _⟩ | ⟨m, _, node, found, same | same⟩ := place_offset laid text declaration
  · rw [top]
    exact text.isBoundary_zero
  · rw [same]
    exact tree.tidy.opened found
  · rw [same]
    exact tree.tidy.closed found

/-- The place lies outside of a replacement that is in a statement or lies outside of them all. -/
lemma place_uncovered (laid : t.Laid lo statements hi) (source : Text) (declaration : String)
    {e : Edit} (fits : e.start = e.stop ∨ e.stop ≤ lo ∨ hi ≤ e.start ∨
      ∃ m ∈ statements, e.Inside (range t m)) :
    e.start = e.stop ∨ (TempDeclaration.place t source statements declaration).1 ≤ e.start ∨
      e.stop ≤ (TempDeclaration.place t source statements declaration).1 := by
  obtain ⟨top, _⟩ | ⟨m, isStatement, node, found, at_end⟩ := place_offset laid source declaration
  · rw [top]
    exact .inr (.inl (Nat.zero_le _))
  · obtain ⟨_, found', before, wide, after⟩ := laid.within isStatement
    cases found.symm.trans found'
    rcases fits with insertion | early | late | ⟨m', isStatement', inside⟩
    · exact .inl insertion
    · omega
    · omega
    · obtain ⟨node', isNode', _, wide', _⟩ := laid.within isStatement'
      have apart : node = node' ∨ node.stop ≤ node'.start ∨ node'.stop ≤ node.start := by
        by_cases same : m = m'
        · subst same
          exact .inl (Option.some.inj (found.symm.trans isNode'))
        · exact .inr (laid.apart isStatement isStatement' found isNode' same)
      obtain ⟨_, within⟩ := inside
      rw [range_of_get? isNode', Edit.isWithin_iff] at within
      dsimp only at within
      rcases apart with rfl | apart <;> omega

/-- The declaration can be inserted if every replacement is in a statement or lies outside of
them. -/
lemma prepared_declareTemps (tree : t.Tree text root) {p : Pass}
    (base : p.buffer.base = .ofText text) (laid : t.Laid lo statements hi)
    (fits : ∀ e ∈ p.buffer.edits, e.start = e.stop ∨ e.stop ≤ lo ∨ hi ≤ e.start ∨
      ∃ m ∈ statements, e.Inside (range t m)) (n : NodeId) :
    Prepared t text (.declareTemps n statements) p := by
  refine ⟨base, fun temps => ?_⟩
  unfold TempDeclaration.insert
  split
  · exact ⟨_, rfl⟩
  · have boundary : p.buffer.source.isBoundary
        (TempDeclaration.place t p.buffer.source statements (TempDeclaration.text temps)).1 := by
      rw [EditBuffer.source_of_base base]
      exact place_isBoundary tree laid _
    have inserted : ∃ b, p.buffer.insert
        (TempDeclaration.place t p.buffer.source statements (TempDeclaration.text temps)).1
        (TempDeclaration.place t p.buffer.source statements (TempDeclaration.text temps)).2 =
          .ok b :=
      ⟨_, EditBuffer.insert_eq_ok boundary fun e mem => place_uncovered laid _ _ (fits e mem)⟩
    exact inserted

/-- A declaration is a new insertion at its place. -/
lemma declareTemps_buffer (input : PassInput) (n : NodeId) (statements : List NodeId) (p : Pass) :
    (p.declareTemps input n statements).buffer = p.buffer ∨ ∃ names, names ≠ [] ∧
      p.buffer.insert
        (TempDeclaration.place input.table p.buffer.source statements
          (TempDeclaration.text names)).1
        (TempDeclaration.place input.table p.buffer.source statements
          (TempDeclaration.text names)).2 =
          .ok (p.declareTemps input n statements).buffer := by
  unfold declareTemps
  split
  · exact .inl rfl
  · dsimp only
    split
    · rename_i buffer inserted
      unfold TempDeclaration.insert at inserted
      split at inserted
      · cases inserted
        exact .inl rfl
      · rename_i some
        exact .inr ⟨_, by simpa using some, inserted⟩
    · unfold report
      dsimp only
      split
      · exact .inl rfl
      · exact .inl rfl

/-- The temporaries of a function are declared inside its body, between the statements. -/
lemma Runs.declare {actions : List Action} {ms : List NodeId} {whole : NodeId}
    (tree : input.table.Tree text root)
    (runs : Runs input text actions (ms.map (range input.table)))
    (laid : input.table.Laid lo statements hi)
    (inside : (range input.table whole).1 < lo ∧ hi < (range input.table whole).2)
    (inner : ∀ m ∈ ms, Within (range input.table m) (range input.table whole))
    (around : ∀ m ∈ ms, m ∈ statements ∨ (range input.table m).2 ≤ lo ∨
      hi ≤ (range input.table m).1) (n : NodeId) :
    Runs input text (actions ++ [.declareTemps n statements]) [range input.table whole] := by
  intro p base clear
  have clear : ∀ e ∈ p.buffer.edits, e.Outside (range input.table whole) := clear _ (by simp)
  obtain ⟨along, grows⟩ := runs p base fun r mem e isEdit => by
    obtain ⟨m, isM, rfl⟩ := mem_map.mp mem
    exact (clear e isEdit).mono (inner m isM).1 (inner m isM).2
  have base' := grows.base.trans base
  have prepared :
      Prepared input.table text (.declareTemps n statements) (p.perform input actions) := by
    refine prepared_declareTemps tree base' laid (fun e isEdit => ?_) n
    rcases grows.new isEdit with isEdit | ⟨r, mem, within⟩ | top
    · have := clear e isEdit
      unfold Edit.Outside at this
      omega
    · obtain ⟨m, isM, rfl⟩ := mem_map.mp mem
      rcases around m isM with isStatement | apart
      · exact .inr (.inr (.inr ⟨m, isStatement, within⟩))
      · obtain ⟨_, within⟩ := within
        rw [Edit.isWithin_iff] at within
        omega
    · exact .inl (top.1.trans top.2.symm)
  refine ⟨along_append.mpr ⟨along, prepared, trivial⟩, ?_⟩
  have grown : Grows [range input.table whole] p (p.perform input actions) :=
      grows.widen fun r mem => by
    obtain ⟨m, isM, rfl⟩ := mem_map.mp mem
    exact ⟨_, mem_singleton_self _, inner m isM⟩
  rw [perform_append]
  change Grows _ p ((p.perform input actions).declareTemps input n statements)
  rcases declareTemps_buffer input n statements (p.perform input actions) with
    same | ⟨names, _, inserted⟩
  · have unchanged : Grows [] (p.perform input actions)
        ((p.perform input actions).declareTemps input n statements) := .of_buffer same
    simpa using grown.trans unchanged
  · obtain ⟨base'', edits⟩ := EditBuffer.mem_edits_of_insert inserted
    refine ⟨base''.trans grows.base, fun {e} mem => (edits e).mpr (.inr (grows.kept mem)),
      fun {e} mem => ?_⟩
    rcases (edits e).mp mem with rfl | mem
    · obtain ⟨top, _⟩ | ⟨m, isStatement, node, found, at_end⟩ :=
        place_offset laid (p.perform input actions).buffer.source (TempDeclaration.text names)
      · exact .inr (.inr ⟨top, top⟩)
      · obtain ⟨_, found', before, wide, after⟩ := laid.within isStatement
        cases found.symm.trans found'
        refine .inr (.inl ⟨_, mem_singleton_self _, le_rfl, ?_⟩)
        rw [Edit.isWithin_iff]
        dsimp only
        omega
    · exact grown.new mem

end Declarations

/-- How far the walks over nodes reach: to the range of the node, or to those of its parts. -/
structure Walks (input : PassInput) (text : Text) (inner : Bool → Option NodeId → List Action) :
    Prop where
  nothing (retain : Bool) : Runs input text (inner retain none) []
  named (retain : Bool) {e : NodeId} (named : (input.table.name? e).isSome) :
    Runs input text (inner retain (some e)) []
  single (retain : Bool) {e : NodeId} (walkable : input.table.Walkable e) :
    Runs input text (inner retain (some e)) [range input.table e]
  parts (retain : Bool) {e : NodeId} (walkable : input.table.Walkable e) {form : Form}
    (found : input.table.form? e = some form) (noTargets : form.hasTargets = false) :
    Runs input text (inner retain (some e)) (form.children.map (range input.table))

namespace Walks

variable {input : PassInput} {text : Text} {root : NodeId}
  {inner : Bool → Option NodeId → List Action} {retain : Bool} {node : Node}
  (walks : Walks input text inner) (tree : input.table.Tree text root)

include walks

lemma all (retain : Bool) {ns : List NodeId} {lo hi : Nat} (laid : input.table.Laid lo ns hi)
    (walkable : ∀ m ∈ ns, input.table.Walkable m) :
    Runs input text ((Step.walks retain ns).flatMap (Step.actions inner))
      (ns.map (range input.table)) := by
  have same : (Step.walks retain ns).flatMap (Step.actions inner) =
      ns.flatMap fun m => inner retain (some m) := by simp [Step.walks, Step.actions, flatMap_map]
  rw [same]
  exact .flatMap (fun m mem => walks.single retain (walkable m mem)) (beside_of_laid laid)

include tree

/-- A pattern that is not lowered. -/
lemma refused (retain : Bool) {declared : Bool} {m : NodeId} {lo hi : Nat}
    (fits : Fits input.table (.target declared) m) (laid : input.table.Laid lo [m] hi)
    {failure : Failure} (refused : input.table.lowerable m = .error failure) :
    Runs input text ((Step.ofPattern input.table retain m).flatMap (Step.actions inner))
      [range input.table m] := by
  have walkable {e : NodeId} (mem : e ∈ input.table.patternExpressions m) :=
    fits.expressions_walkable tree.tidy rfl mem
  have expressions := walks.all true (fits.expressions_laid tree.tidy rfl laid)
    fun e mem => (walkable mem).1
  rw [Step.ofPattern, flatMap_append]
  refine (expressions.refused retain refused).widen fun r mem => ?_
  obtain ⟨e, isExpression, rfl⟩ := mem_map.mp mem
  obtain ⟨node, found, _⟩ := laid
  exact ⟨_, mem_singleton_self _, within_of_under tree.tidy found (walkable isExpression).2⟩

variable (isNode : input.table.get? n = some node)

include isNode

lemma site {target : NodeId} {value : Option NodeId} {declared : Bool}
    (children : node.form.children = target :: value.toList)
    (isPattern : input.table.isPattern target) (fits : Fits input.table (.target declared) target)
    (written : ∀ v ∈ value, input.table.Walkable v)
    (context : node.form = .declarator target value ∨
      ∃ v, value = some v ∧ node.form = .assignment target .plain v) :
    Runs input text
      ((Step.walk retain value :: Step.ofPattern input.table retain target).flatMap
        (Step.actions inner)) [range input.table n] := by
  have tidy := tree.tidy
  have laid := tidy.laid isNode
  have found : input.table.form? n = some node.form := form?_eq_some.mpr ⟨node, isNode, rfl⟩
  have isPart : target ∈ node.form.children := by simp [children]
  have up := tidy.parent?_of_mem (mem_children_of_form found isPart)
  have inside {m : NodeId} (mem : m ∈ node.form.children) := within_of_mem tidy isNode mem
  have walkable {e : NodeId} (mem : e ∈ input.table.patternExpressions target) :=
    fits.expressions_walkable tidy rfl mem
  obtain ⟨inner', isTarget, _⟩ := laid.within isPart
  have part {e : NodeId} (mem : e ∈ input.table.patternExpressions target) :
      Within (range input.table e) (range input.table target) :=
    within_of_under tidy isTarget (walkable mem).2
  have expressions := walks.all true
    (fits.expressions_laid tidy rfl (laid.sublist (singleton_sublist.mpr isPart)))
    fun e mem => (walkable mem).1
  -- A value that is a variable is left as it is.
  let values := value.toList.filter fun v => (input.table.name? v).isNone
  have first : Runs input text (inner retain value) (values.map (range input.table)) := by
    cases value with
    | none => exact walks.nothing retain
    | some v =>
      by_cases named : (input.table.name? v).isSome
      · have : values = [] := by simp [values, Option.isSome_iff_ne_none.mp named]
        rw [this]
        exact walks.named retain named
      · have : values = [v] := by simpa [values] using named
        rw [this]
        exact walks.single retain (written v rfl)
  have isValue {v : NodeId} (mem : v ∈ values) : v ∈ value.toList := (mem_filter.mp mem).1
  have both := first.append expressions fun r mem r' mem' => by
    obtain ⟨v, isV, rfl⟩ := mem_map.mp mem
    obtain ⟨e, isE, rfl⟩ := mem_map.mp mem'
    rw [children] at laid
    have beside := (pairwise_cons.mp (beside_of_laid laid)).1 v (isValue isV)
    exact beside.symm.mono ⟨le_rfl, le_rfl⟩ (part isE)
  rw [← map_append] at both
  have placed (place : Lowerable) (ok : input.table.lowerable target = .ok place) :
      place.whole = n ∧ value = some place.value := by
    rcases context with isDeclarator | ⟨v, rfl, isAssignment⟩
    · exact lowerable_of_declarator isPattern up (isDeclarator ▸ found) ok
    · rw [lowerable_of_assignment isPattern up (isAssignment ▸ found)] at ok
      cases ok
      exact ⟨rfl, rfl⟩
  have result := both.site retain isNode (laid.lt (by simp [children])) (fun m mem => ?_)
    fun place ok => ⟨(placed place ok).1, fun m mem => ?_⟩
  · rw [flatMap_cons, Step.ofPattern, flatMap_append, ← append_assoc]
    exact result
  · rcases mem_append.mp mem with mem | mem
    · exact inside (children ▸ mem_cons_of_mem _ (isValue mem))
    · exact (part mem).trans (inside isPart)
  · obtain ⟨_, rfl⟩ := placed place ok
    rcases mem_append.mp mem with mem | mem
    · obtain ⟨isValue, noName⟩ := mem_filter.mp mem
      obtain rfl : m = place.value := by simpa using isValue
      have noName : (input.table.name? place.value).isSome = false := by simpa using noName
      simp [Table.embedded, noName]
    · exact mem_append_right _ mem

lemma loop {isOf : Bool} {head subject body : NodeId}
    (isLoop : node.form = .forEach isOf head subject body) (isPattern : input.table.isPattern head)
    (fits : Fits input.table (.target false) head)
    (parts : ∀ m ∈ [subject, body], input.table.Walkable m) : Runs input text
      ((Step.ofPattern input.table retain head ++ Step.walks retain [subject, body]).flatMap
        (Step.actions inner)) [range input.table n] := by
  have tidy := tree.tidy
  have children : node.form.children = [head, subject, body] := by rw [isLoop]; rfl
  have laid := tidy.laid isNode
  rw [children] at laid
  have found : input.table.form? n = some (.forEach isOf head subject body) :=
    form?_eq_some.mpr ⟨node, isNode, isLoop⟩
  have up : input.table.parent? head = some n :=
    tidy.parent?_of_mem (mem_children_of_form found (by simp [Form.children]))
  have first := walks.refused tree retain fits (laid.sublist (by simp))
    (lowerable_of_place isPattern (place?_of_loop isPattern up found))
  have later := walks.all retain (laid.sublist (sublist_cons_self head _)) parts
  rw [flatMap_append]
  refine (first.append later fun r mem r' mem' => ?_).widen fun r mem => ?_
  · cases mem_singleton.mp mem
    obtain ⟨m, isM, rfl⟩ := mem_map.mp mem'
    exact (pairwise_cons.mp (beside_of_laid laid)).1 m isM
  · have mem : r ∈ [head, subject, body].map (range input.table) := by simpa using mem
    obtain ⟨m, isM, rfl⟩ := mem_map.mp mem
    exact ⟨_, mem_singleton_self _, within_of_mem tidy isNode (children ▸ isM)⟩

/-- The patterns among the parameters of a function stay. -/
lemma parameters (retain : Bool) {parts : FunctionParts}
    (isFunction : node.form.function? = some parts)
    (fits : ∀ m ∈ parts.parameters, Fits input.table (.target true) m) {lo hi : Nat}
    (laid : input.table.Laid lo (parts.parameters.filter input.table.isPattern) hi) :
    Runs input text
      (((parts.parameters.filter input.table.isPattern).flatMap
        (Step.ofPattern input.table retain)).flatMap (Step.actions inner))
      ((parts.parameters.filter input.table.isPattern).map (range input.table)) := by
  have found : input.table.form? n = some node.form := form?_eq_some.mpr ⟨node, isNode, rfl⟩
  rw [flatMap_assoc]
  refine .flatMap (fun m mem => ?_) (beside_of_laid laid)
  obtain ⟨isParameter, isPattern⟩ := mem_filter.mp mem
  have isPart : m ∈ node.form.children := by
    rw [Form.children_of_function isFunction]
    simp [FunctionParts.children, isParameter]
  have up := tree.tidy.parent?_of_mem (mem_children_of_form found isPart)
  exact walks.refused tree retain (fits m isParameter) (laid.sublist (singleton_sublist.mpr mem))
    (lowerable_of_place isPattern (place?_of_parameter up found isFunction isParameter))

lemma function {parts : FunctionParts} (isFunction : node.form.function? = some parts)
    (fits : ∀ m ∈ parts.parameters, Fits input.table (.target true) m)
    (body : Fits input.table .block parts.body) :
    Runs input text ((Step.ofFunction input.table retain n parts).flatMap (Step.actions inner))
      [range input.table n] := by
  have tidy := tree.tidy
  obtain ⟨statements, isBlock⟩ := body.block_form
  obtain ⟨block, isBody, blockForm⟩ := form?_eq_some.mp isBlock
  let patterns := parts.parameters.filter input.table.isPattern
  have ordered : (patterns ++ [parts.body]).Sublist node.form.children := by
    rw [Form.children_of_function isFunction, FunctionParts.children, append_assoc]
    exact (filter_sublist.append (.refl _)).trans (sublist_append_right _ _)
  have laid := (tidy.laid isNode).sublist ordered
  have inside {m : NodeId} (mem : m ∈ patterns ++ [parts.body]) :
      Within (range input.table m) (range input.table n) :=
    within_of_mem tidy isNode (ordered.subset mem)
  have isLast : parts.body ∈ patterns ++ [parts.body] := by simp
  obtain ⟨_, isBody', _, wide, _⟩ := laid.within isLast
  cases isBody.symm.trans isBody'
  have around : Within (block.start, block.stop) (range input.table n) :=
    range_of_get? isBody ▸ inside isLast
  have before {m : NodeId} (mem : m ∈ patterns) :
      Beside (range input.table m) (block.start, block.stop) :=
    range_of_get? isBody ▸
      (pairwise_append.mp (beside_of_laid laid)).2.2 m mem _ (mem_singleton_self _)
  have within {m : NodeId} (mem : m ∈ statements) :
      Within (range input.table m) (block.start, block.stop) :=
    range_of_get? isBody ▸ within_of_mem tidy isBody (by rw [blockForm]; exact mem)
  have both := (walks.parameters tree isNode retain isFunction fits
    (laid.sublist (sublist_append_left _ _))).append
    (walks.parts retain (body.walkable rfl) isBlock rfl) fun r mem r' mem' => by
      obtain ⟨m, isM, rfl⟩ := mem_map.mp mem
      obtain ⟨m', isM', rfl⟩ := mem_map.mp mem'
      exact (before isM).mono ⟨le_rfl, le_rfl⟩ (within isM')
  rw [← map_append] at both
  rw [Step.ofFunction, Step.ofBody, isBlock, flatMap_append, flatMap_cons,
    ← append_assoc]
  refine both.declare tree (tidy.braces isBody blockForm) ?_ (fun m mem => ?_) (fun m mem => ?_) n
  · unfold Within at around
    omega
  · rcases mem_append.mp mem with mem | mem
    · exact inside (mem_append_left _ mem)
    · exact (within mem).trans around
  · rcases mem_append.mp mem with mem | mem
    · have := before mem
      unfold Beside at this
      exact .inr (by omega)
    · exact .inl mem

/-- The walk at a node keeps to the node, and to its parts if it does nothing but walk over
these. -/
lemma shape {steps : List Step} (shape : WalkShape input.table retain n node.form steps) :
    Runs input text (steps.flatMap (Step.actions inner)) [range input.table n] ∧
      (node.form.hasTargets = false → Runs input text (steps.flatMap (Step.actions inner))
        (node.form.children.map (range input.table))) := by
  cases shape with
  | plain parts =>
    have runs := walks.all retain (tree.tidy.laid isNode) parts
    refine ⟨runs.widen fun r mem => ?_, fun _ => runs⟩
    obtain ⟨m, isM, rfl⟩ := mem_map.mp mem
    exact ⟨_, mem_singleton_self _, within_of_mem tree.tidy isNode isM⟩
  | site children isPattern fits written context =>
    refine ⟨walks.site tree isNode children isPattern fits written context, fun noTargets => ?_⟩
    rcases context with form | ⟨_, _, form⟩ <;> rw [form] at noTargets <;> cases noTargets
  | loop isLoop isPattern fits parts =>
    refine ⟨walks.loop tree isNode isLoop isPattern fits parts, fun noTargets => ?_⟩
    rw [isLoop] at noTargets
    cases noTargets
  | function isFunction name parameters body =>
    refine ⟨walks.function tree isNode isFunction parameters body, fun noTargets => ?_⟩
    cases form : node.form <;> rw [form] at isFunction noTargets <;> cases isFunction <;>
      cases noTargets

end Walks

variable {input : PassInput} {text : Text} {root : NodeId}

lemma walks_planWithin (tree : input.table.Tree text root) (depth : Nat) :
    Walks input text (input.table.planWithin depth) := by
  induction depth with
  | zero =>
    have idle (ranges : List (Nat × Nat)) (n : Option NodeId) :
        Runs input text [.tooDeep n] ranges :=
      (Runs.tooDeep n).widen (by simp)
    exact ⟨fun _ => idle _ _, fun _ _ _ => idle _ _, fun _ _ _ => idle _ _,
      fun _ _ _ _ _ _ => idle _ _⟩
  | succ depth walks =>
    have shape (retain : Bool) {e : NodeId} (walkable : input.table.Walkable e) {form : Form}
        (found : input.table.form? e = some form) :
        Runs input text (input.table.planWithin (depth + 1) retain (some e))
            [range input.table e] ∧
          (form.hasTargets = false → Runs input text
            (input.table.planWithin (depth + 1) retain (some e))
            (form.children.map (range input.table))) := by
      obtain ⟨node, isNode, rfl⟩ := form?_eq_some.mp found
      rw [Table.planWithin, found]
      exact walks.shape tree isNode (walkable.shape retain found)
    refine ⟨fun _ => .nil, fun retain e named => ?_, fun retain e walkable => ?_,
      fun retain e walkable form found => (shape retain walkable found).2⟩
    · obtain ⟨name, spelled⟩ := Option.isSome_iff_exists.mp named
      rw [Table.planWithin, form?_of_name? spelled]
      exact .nil
    · obtain ⟨role, fits⟩ := walkable.fits
      obtain ⟨form, _, found, _⟩ := fits.form
      exact (shape retain walkable found).1

/-- Every action of the pass finds the buffer prepared. -/
lemma plan_along (tree : input.table.Tree text root) {p : Pass}
    (base : p.buffer.base = .ofText text) (fresh : p.buffer.edits = []) :
    Along input (Prepared input.table text) (input.table.plan root) p := by
  obtain ⟨form, _, found, _⟩ := tree.fits.form
  obtain ⟨statements, rfl⟩ := tree.form_root found
  obtain ⟨node, isNode, isProgram⟩ := form?_eq_some.mp found
  have laid := tree.tidy.laid isNode
  rw [isProgram] at laid
  have runs : Runs input text (input.table.planWithin maxTreeDepth false (some root))
      (statements.map (range input.table)) :=
    (walks_planWithin tree maxTreeDepth).parts false (tree.fits.walkable rfl) found rfl
  obtain ⟨along, grows⟩ := runs p base (by simp [fresh])
  rw [Table.plan, found]
  refine along_append.mpr ⟨along, ?_, trivial⟩
  refine prepared_declareTemps tree (grows.base.trans base) laid (fun e isEdit => ?_) root
  rcases grows.new isEdit with isEdit | ⟨r, mem, inside⟩ | top
  · rw [fresh] at isEdit
    cases isEdit
  · obtain ⟨m, isStatement, rfl⟩ := mem_map.mp mem
    exact .inr (.inr (.inr ⟨m, isStatement, inside⟩))
  · exact .inl (top.1.trans top.2.symm)

section Replacement

variable {input : PassInput} {text : Text} {root n : NodeId} {place : Lowerable} {node : Node}

/-- What a site takes over lies in its range. -/
lemma embedded_within (tree : t.Tree text root) (ok : t.lowerable n = .ok place) {m : NodeId}
    (mem : m ∈ t.embedded place n) : Within (range t m) (range t place.whole) := by
  obtain ⟨form, found, children⟩ := tree.lowerable_parts ok
  obtain ⟨node, isWhole, rfl⟩ := form?_eq_some.mp found
  obtain ⟨declared, fits⟩ := tree.fits_target (isPattern_of_lowerable ok)
  have isChild {k : NodeId} (mem : k ∈ [n, place.value]) : k ∈ t.children place.whole :=
    mem_children_of_form found (children ▸ mem)
  refine within_of_under tree.tidy isWhole ?_
  rcases mem_append.mp mem with isValue | isExpression
  · split at isValue
    · cases isValue
    · cases mem_singleton.mp isValue
      exact .of_child tree.tidy (isChild (by simp)) .self
  · exact .of_child tree.tidy (isChild (by simp))
      (fits.expressions_walkable tree.tidy rfl isExpression).2

lemma wide_of_lowerable (tree : t.Tree text root) (ok : t.lowerable n = .ok place)
    (isWhole : t.get? place.whole = some node) : node.start < node.stop := by
  obtain ⟨form, found, children⟩ := tree.lowerable_parts ok
  obtain ⟨_, isWhole', rfl⟩ := form?_eq_some.mp found
  cases isWhole.symm.trans isWhole'
  exact (tree.tidy.laid isWhole).lt (by simp [children])

/-- A prepared site can be replaced. -/
lemma Prepared.replace {retain : Bool} {p : Pass} (tree : t.Tree text root)
    (prepared : Prepared t text (.lower retain n) p) (ok : t.lowerable n = .ok place)
    (isWhole : t.get? place.whole = some node) (replacement : Text) :
    p.buffer.replace node.start node.stop replacement = .ok
      { p.buffer with
        edits := Edit.insertInto ⟨node.start, node.stop, replacement⟩
          (p.buffer.edits.filter fun e => !e.isWithin node.start node.stop) } := by
  obtain ⟨base, edits⟩ := prepared
  refine EditBuffer.replace_eq_ok (wide_of_lowerable tree ok isWhole) ?_ ?_ fun e mem => ?_
  · rw [EditBuffer.source_of_base base]
    exact tree.tidy.opened isWhole
  · rw [EditBuffer.source_of_base base]
    exact tree.tidy.closed isWhole
  · rw [← range_of_get? isWhole]
    refine (edits place ok e mem).imp_right fun ⟨m, isEmbedded, inside⟩ => ?_
    have within := embedded_within tree ok isEmbedded
    exact inside.mono within.1 within.2

end Replacement

end Pass

end PatternLowering

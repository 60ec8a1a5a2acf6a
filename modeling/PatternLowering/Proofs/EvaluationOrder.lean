import PatternLowering.Proofs.Bindings
import PatternLowering.Proofs.Destructuring

/-!
# The order of evaluation

In an assignment that is destructured, the value comes before everything in the pattern. The lowered
site reads it in the first of its bindings, before every computed key. But a plain assignment
evaluates the object and the key of its target first: if the first target of the pattern is an
access, that one target comes before the value.
-/

namespace PatternLowering

/-- What is evaluated in a list of bindings: the value of the site, a variable, a computed key, or
the object and the key of a target. -/
inductive Operand where
  | source (text : String)
  | variable (name : String)
  | key (text : String)
  | target (text : String)
deriving DecidableEq, Repr

/-- The operands of an expression in the order of their evaluation. -/
def Expr.operands : Expr → List Operand
  | source text => [.source text]
  | named name => [.variable name]
  | parens inside => inside.operands
  | assign _ value => value.operands
  | access object accessor => object.operands ++ accessor.written.map .key

namespace FlatBinding

/-- The subexpressions of the target come first. -/
def operands (b : FlatBinding) : List Operand :=
  ((b.target.map Target.written).getD []).map .target ++ b.value.operands

end FlatBinding

/-- The operands of a lowered site in the order of their evaluation. -/
def LoweredSite.operands (site : LoweredSite) : List Operand :=
  site.bindings.flatMap FlatBinding.operands

/-- What is evaluated for the value of a site: a variable, or the expression as it is written
now. -/
def Table.valueOperand (t : Table) (buffer : EditBuffer) (n : NodeId) : Operand :=
  match t.name? n with
  | some name => .variable name
  | none => .source (t.textOf buffer n)

namespace Unwind

/-- The operand is the first of the expression. -/
def StartsWith (operand : Operand) (e : Expr) : Prop := ∃ later, e.operands = operand :: later

lemma upward_startsWith (operand : Operand) : Upward (StartsWith operand) := by
  constructor
  · rintro e name ⟨later, starts⟩
    exact ⟨later, starts⟩
  · rintro e accessor ⟨later, starts⟩
    exact ⟨later ++ accessor.written.map .key, by simp [Expr.operands, starts]⟩

/-- The first binding evaluates its target and then the value. -/
lemma site_operands {setting : Setting} {pattern : Pattern} {value : Value} {operand : Operand}
    {bindings : List FlatBinding} {w w' : Workbench} (isAssignment : setting.context = .assignment)
    (item : StartsWith operand value.forItem) (access : StartsWith operand value.forAccess)
    (unwound : site setting pattern value w = .ok bindings w') :
    ∃ later, bindings.flatMap FlatBinding.operands =
      ((pattern.opening?.map Target.written).getD []).map .target ++ operand :: later := by
  have upward := upward_startsWith operand
  have opens : Opens setting pattern (StartsWith operand) bindings :=
    level_opens upward item access
      (fun nonzero next starts ran => parts_opens upward setting pattern nonzero next starts ran)
      unwound
  obtain ⟨b, others, rfl, ⟨later, starts⟩, target⟩ := opens
  refine ⟨later ++ others.flatMap FlatBinding.operands, ?_⟩
  simp [FlatBinding.operands, starts, target isAssignment]

end Unwind

lemma Table.siteValue_startsWith {t : Table} {buffer : EditBuffer} {n : NodeId} {value : Value}
    (found : t.siteValue buffer n = .ok value) :
    Unwind.StartsWith (t.valueOperand buffer n) value.forItem ∧
      Unwind.StartsWith (t.valueOperand buffer n) value.forAccess := by
  unfold siteValue at found
  unfold valueOperand
  cases spelled : t.name? n with
  | some name =>
    simp only [spelled] at found
    cases found
    exact ⟨⟨[], rfl⟩, ⟨[], rfl⟩⟩
  | none =>
    simp only [spelled] at found
    obtain ⟨text, isText, made⟩ := Except.bind_eq_ok.mp found
    cases Except.pure_eq_ok.mp made
    have same : text = t.textOf buffer n := by
      unfold Pattern.nodeText at isText
      unfold textOf
      split at isText
      · rename_i node isNode
        cases isText
        rw [isNode]
        rfl
      · cases isText
    dsimp only
    rw [← same]
    constructor
    · cases t.isSequence n <;> exact ⟨[], rfl⟩
    · cases t.needsParens n <;> exact ⟨[], rfl⟩

/-- Of all that a lowered assignment evaluates, its value comes first, before every computed key and
every other target; only the first target of the pattern, if that is no variable, comes before
it. -/
theorem value_follows_first_target {t : Table} {n : NodeId} {buffer : EditBuffer} {retain : Bool}
    {scopes scopes' : Scopes} {log log' : Array Event} {site : LoweredSite} {place : Lowerable}
    (lowered : t.lowerSite buffer n retain scopes log = (.ok site, scopes', log'))
    (isPlace : t.lowerable n = .ok place) (isAssignment : place.context = .assignment) :
    ∃ pattern later, Pattern.read t buffer n = .ok pattern ∧
      site.operands = ((pattern.opening?.map Target.written).getD []).map .target ++
        t.valueOperand buffer place.value :: later ∧
      ((∃ later, site.operands = t.valueOperand buffer place.value :: later) ↔
        ∀ text, pattern.opening? ≠ some (.reference text)) := by
  obtain ⟨place', whole, pattern, value, w, isPlace', _, read, isValue, _, _, unwound⟩ :=
    Table.lowerSite_eq_ok lowered
  cases isPlace.symm.trans isPlace'
  obtain ⟨item, access⟩ := Table.siteValue_startsWith isValue
  obtain ⟨later, operands⟩ := Unwind.site_operands isAssignment item access unwound
  refine ⟨pattern, later, read, operands, ?_⟩
  rw [LoweredSite.operands, operands]
  cases pattern.opening? with
  | none => simp
  | some target =>
    cases target with
    | named name => simp [Target.written]
    | reference text =>
      have other : t.valueOperand buffer place.value ≠ .target text := by
        unfold Table.valueOperand
        split <;> simp
      simp [Target.written, other.symm]

attribute [local irreducible] Parsed.ofText

/-- The table of `[a, b().c] = f()`. -/
def variableFirst : Table := (Parsed.ofText "[a, b().c] = f()".toList).table

theorem variableFirst_evaluates_value_first :
    ∃ place site scopes log, variableFirst.lowerable 5 = .ok place ∧ place.context = .assignment ∧
      variableFirst.lowerSite (.ofText "[a, b().c] = f()".toList) 5 false
        (Binding.ofTable variableFirst 10).scopes #[] = (.ok site, scopes, log) ∧
      ∃ pattern later, Pattern.read variableFirst (.ofText "[a, b().c] = f()".toList) 5 =
        .ok pattern ∧
        site.operands = ((pattern.opening?.map Target.written).getD []).map .target ++
          variableFirst.valueOperand (.ofText "[a, b().c] = f()".toList) place.value :: later ∧
        ((∃ later, site.operands =
            variableFirst.valueOperand (.ofText "[a, b().c] = f()".toList) place.value :: later) ↔
          ∀ text, pattern.opening? ≠ some (.reference text)) := by
  obtain ⟨isPlace, good⟩ : variableFirst.lowerable 5 = .ok ⟨.assignment, 8, 7⟩ ∧
      (variableFirst.lowerSite (.ofText "[a, b().c] = f()".toList) 5 false
        (Binding.ofTable variableFirst 10).scopes #[]).1.toOption.isSome := by decide +kernel
  generalize lowered : variableFirst.lowerSite _ 5 false _ #[] = outcome at good ⊢
  obtain ⟨failure | site, scopes, log⟩ := outcome
  · cases good
  · exact ⟨_, site, scopes, log, isPlace, rfl, rfl, value_follows_first_target lowered isPlace rfl⟩

/-- The table of `[a().b, c] = f()`. -/
def accessFirst : Table := (Parsed.ofText "[a().b, c] = f()".toList).table

/-- The object of the first target comes before the value. -/
theorem accessFirst_evaluates_target_first :
    accessFirst.lowerable 5 = .ok ⟨.assignment, 8, 7⟩ ∧
    accessFirst.valueOperand (.ofText "[a().b, c] = f()".toList) 7 = .source "f()" ∧
    ∃ site scopes log,
      accessFirst.lowerSite (.ofText "[a().b, c] = f()".toList) 5 false
        (Binding.ofTable accessFirst 10).scopes #[] = (.ok site, scopes, log) ∧
      site.operands = [.target "a().b", .source "f()", .variable "_a", .variable "_a"] := by
  obtain ⟨isPlace, isValue, operands⟩ : accessFirst.lowerable 5 = .ok ⟨.assignment, 8, 7⟩ ∧
      accessFirst.valueOperand (.ofText "[a().b, c] = f()".toList) 7 = .source "f()" ∧
      (accessFirst.lowerSite (.ofText "[a().b, c] = f()".toList) 5 false
        (Binding.ofTable accessFirst 10).scopes #[]).1.toOption.map (·.operands) =
          some [.target "a().b", .source "f()", .variable "_a", .variable "_a"] := by decide +kernel
  refine ⟨isPlace, isValue, ?_⟩
  generalize accessFirst.lowerSite _ 5 false _ #[] = outcome at operands ⊢
  obtain ⟨failure | site, scopes, log⟩ := outcome
  · cases operands
  · exact ⟨site, scopes, log, rfl, Option.some.inj operands⟩

end PatternLowering

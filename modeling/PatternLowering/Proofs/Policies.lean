import PatternLowering.Proofs.Planning

/-!
# The policy on places where nothing is lowered

The policy decides whether a pattern in such a place is an error or a warning. Nothing else depends
on it: a run under another policy is the same run with these diagnostics recast.
-/

namespace PatternLowering

namespace Diagnostic

/-- The diagnostic as another policy has it. -/
def recast (policy : Policy) (d : Diagnostic) : Diagnostic :=
  if d.code = 2002 then { d with category := policy.category } else d

/-- The same diagnostic under both policies. The category differs if it is about a place where
nothing is lowered. -/
def SameButPolicy (warned refused : Diagnostic) : Prop :=
  refused = { warned with category := refused.category } ∧
    if warned.code = 2002 then warned.category = .warning ∧ refused.category = .error
    else refused.category = warned.category

lemma sameButPolicy_recast {d : Diagnostic} (warned : d.recast .warn = d) :
    d.SameButPolicy (d.recast .error) := by
  unfold SameButPolicy recast at *
  by_cases refused : d.code = 2002
  · simp only [if_pos refused] at warned ⊢
    exact ⟨trivial, (congrArg category warned).symm, rfl⟩
  · simp only [if_neg refused]
    exact ⟨trivial, trivial⟩

end Diagnostic

lemma Failure.recast_diagnostic (file : String) (lines : LineMap) (policy policy' : Policy)
    (start stop : Nat) (failure : Failure) :
    (failure.diagnostic file lines policy start stop).recast policy' =
      failure.diagnostic file lines policy' start stop := by
  cases failure <;> rfl

lemma SyntaxFault.recast_diagnostic (file : String) (lines : LineMap) (policy : Policy)
    (fault : SyntaxFault) :
    (fault.diagnostic file lines).recast policy = fault.diagnostic file lines := by
  refine if_neg ?_
  change fault.cause.code ≠ 2002
  cases fault.cause <;> simp [SyntaxError.code]

def PassInput.withPolicy (policy : Policy) (input : PassInput) : PassInput :=
  { input with options := { input.options with policy := policy } }

namespace Pass

def recast (policy : Policy) (p : Pass) : Pass :=
  { p with diagnostics := p.diagnostics.map (Diagnostic.recast policy) }

variable (policy : Policy) (input : PassInput) (p : Pass)

lemma report_recast (start stop : Nat) (failure : Failure) :
    (p.report input start stop failure).recast policy =
      (p.recast policy).report (input.withPolicy policy) start stop failure := by
  have found := failure.recast_diagnostic input.file input.lines input.options.policy
    policy start stop
  have line (policy : Policy) : (failure.diagnostic input.file input.lines policy start stop).line =
      input.lines.lineOf start := rfl
  cases internal : failure.isInternal <;>
    simp [report, recast, record, internal, PassInput.withPolicy, found, line]

/-- A failure is noted and reported; what goes along with the two goes along with the failure of a
site. -/
lemma failed_map (g : Pass → Pass) (input' : PassInput) (table : input'.table = input.table)
    (records : ∀ p event, g (record p event) = (g p).record event) (n : NodeId) {failure : Failure}
    (reports : ∀ p start stop, g (report input start stop failure p) =
      (g p).report input' start stop failure) :
    g (p.failed input n failure) = (g p).failed input' n failure := by
  unfold failed
  rw [table]
  dsimp only
  rw [reports]
  by_cases internal : failure.isInternal
  · rw [if_pos internal, if_pos internal, records]
  · rw [if_neg internal, if_neg internal]
    by_cases placed : (input.table.sitePosition n).place?.isSome
    · rw [if_pos placed, if_pos placed, records]
    · rw [if_neg placed, if_neg placed]

lemma failed_recast (n : NodeId) (failure : Failure) :
    (p.failed input n failure).recast policy =
      (p.recast policy).failed (input.withPolicy policy) n failure :=
  failed_map input p (recast policy) (input.withPolicy policy) rfl (fun _ _ => rfl) n
      fun p start stop =>
    report_recast policy input p start stop failure

lemma lower_recast (retain : Bool) (n : NodeId) :
    (p.lower input retain n).recast policy = (p.recast policy).lower (input.withPolicy policy)
      retain n := by
  unfold lower
  dsimp only [PassInput.withPolicy, recast]
  rcases input.table.lowerSite p.buffer n retain p.scopes p.log with ⟨result, scopes, log⟩
  cases result with
  | error failure => exact failed_recast policy input _ n failure
  | ok site =>
    dsimp only
    cases p.buffer.replace site.start site.stop site.replacement.toList with
    | error error => exact failed_recast policy input _ n (.edit error)
    | ok buffer => rfl

section Declarations

variable {policy input p} {n : NodeId} {statements : List NodeId}

lemma declareTemps_of_off (off : input.options.tempDeclarations = false) :
    p.declareTemps input n statements = p := if_pos (by simp [off])

lemma declareTemps_of_ok {buffer : EditBuffer} (on : input.options.tempDeclarations = true)
    (inserted : TempDeclaration.insert input.table p.buffer statements
      (p.scopes.declaredTemps (p.scopes.closest input.table n)) = .ok buffer) :
    p.declareTemps input n statements = { p with buffer := buffer } := by
  simp [declareTemps, on, inserted]

lemma declareTemps_of_error {error : EditError} (on : input.options.tempDeclarations = true)
    (failed : TempDeclaration.insert input.table p.buffer statements
      (p.scopes.declaredTemps (p.scopes.closest input.table n)) = .error error) :
    p.declareTemps input n statements =
      p.report input (range input.table n).1 (range input.table n).2 (.edit error) := by
  simp [declareTemps, on, failed]

end Declarations

lemma declareTemps_recast (n : NodeId) (statements : List NodeId) :
    (p.declareTemps input n statements).recast policy =
      (p.recast policy).declareTemps (input.withPolicy policy) n statements := by
  cases on : input.options.tempDeclarations with
  | false =>
    have same :
        (p.recast policy).declareTemps (input.withPolicy policy) n statements = p.recast policy :=
      declareTemps_of_off on
    rw [declareTemps_of_off on, same]
  | true =>
    cases inserted : TempDeclaration.insert input.table p.buffer statements
        (p.scopes.declaredTemps (p.scopes.closest input.table n)) with
    | ok buffer =>
      have same : (p.recast policy).declareTemps (input.withPolicy policy) n statements =
          { p.recast policy with buffer := buffer } := declareTemps_of_ok on inserted
      rw [declareTemps_of_ok on inserted, same]
      rfl
    | error error =>
      have same : (p.recast policy).declareTemps (input.withPolicy policy) n statements =
          (p.recast policy).report (input.withPolicy policy) (range input.table n).1
            (range input.table n).2 (.edit error) := declareTemps_of_error on inserted
      rw [declareTemps_of_error on inserted, same, report_recast]

lemma run_recast (action : Action) : (action.run input p).recast policy =
    action.run (input.withPolicy policy) (p.recast policy) := by
  cases action with
  | lower retain n => exact lower_recast policy input p retain n
  | declareTemps n statements => exact declareTemps_recast policy input p n statements
  | tooDeep n => rfl

lemma perform_recast (actions : List Action) : (p.perform input actions).recast policy =
    (p.recast policy).perform (input.withPolicy policy) actions := by
  induction actions generalizing p with
  | nil => rfl
  | cons action later ih => rw [perform_cons, perform_cons, ih, run_recast]

end Pass

namespace Lowering

def recast (policy : Policy) (l : Lowering) : Lowering :=
  { l with diagnostics := l.diagnostics.map (Diagnostic.recast policy) }

lemma ofParsed_recast (policy : Policy) (file : String) (options : Options) (parsed : Parsed)
    (lines : LineMap) (buffer : EditBuffer) (log : Array Event) :
    ofParsed file { options with policy := policy } parsed lines buffer log =
      (ofParsed file options parsed lines buffer log).recast policy := by
  have ran (input : PassInput) (start : Pass) (fresh : start.diagnostics = []) :
      start.run (input.withPolicy policy) parsed.root = (start.run input parsed.root).recast
        policy := by
    have same : start.recast policy = start := by
      cases start
      cases fresh
      rfl
    rw [Pass.run_eq_perform, Pass.run_eq_perform]
    have later := start.perform_recast policy input (input.table.plan parsed.root)
    rw [same] at later
    dsimp only [PassInput.withPolicy] at later ⊢
    rw [← later]
    simp [Pass.record, Pass.finish, Pass.recast]
  unfold ofParsed
  dsimp only
  have last := ran ⟨parsed.table, file, lines, options⟩
    ⟨buffer, (Binding.ofTable parsed.table parsed.root).scopes, [], 0,
      log ++ (boundEvents (Binding.ofTable parsed.table parsed.root)).toArray⟩ rfl
  rw [PassInput.withPolicy] at last
  rw [last]
  rfl

/-- A run under another policy is the same run with the diagnostics recast. -/
lemma lower_recast (policy : Policy) (file source : String) (options : Options) :
    lower file source { options with policy := policy } = (lower file source options).recast
      policy := by
  unfold lower ofReading
  dsimp only
  split
  · have same (faults : List SyntaxFault) (lines : LineMap) :
        (faults.map (SyntaxFault.diagnostic file lines)).map (Diagnostic.recast policy) =
          faults.map (SyntaxFault.diagnostic file lines) := by
      rw [List.map_map]
      exact List.map_congr_left fun fault _ => fault.recast_diagnostic file _ policy
    rw [recast, same]
  · exact ofParsed_recast policy file options _ _ _ _

/-- The two runs of a text under the two policies. -/
structure SameButPolicy (warned refused : Lowering) : Prop where
  output : warned.output = refused.output
  edits : warned.edits = refused.edits
  diagnostics : List.Forall₂ Diagnostic.SameButPolicy warned.diagnostics refused.diagnostics
  log : warned.log = refused.log

lemma sameButPolicy (file source : String) (tempDeclarations : Bool) :
    SameButPolicy (lower file source ⟨.warn, tempDeclarations⟩)
      (lower file source ⟨.error, tempDeclarations⟩) := by
  have warned := lower_recast .warn file source ⟨.warn, tempDeclarations⟩
  have refused := lower_recast .error file source ⟨.warn, tempDeclarations⟩
  dsimp only at warned refused
  rw [refused]
  refine ⟨rfl, rfl, ?_, rfl⟩
  have same : ∀ d ∈ (lower file source ⟨.warn, tempDeclarations⟩).diagnostics, d.recast .warn = d :=
    List.map_inj_left.mp ((congrArg diagnostics warned).symm.trans (List.map_id _).symm)
  refine List.forall₂_map_right_iff.mpr (List.forall₂_same.mpr fun d mem => ?_)
  exact Diagnostic.sameButPolicy_recast (same d mem)

end Lowering

end PatternLowering

import PatternLowering.Proofs.Faults

/-!
# Texts that lowering leaves alone

A text without patterns stays as it is: there is nothing to lower, so there are no temporaries to
declare. An output need not be such a text. It need not even parse.
-/

namespace PatternLowering

namespace Pass

variable {input : PassInput} {p : Pass}

/-- Without sites and temporaries, nothing is done. -/
lemma perform_idle {actions : List Action} (noSites : lowered actions = [])
    (noTemps : ∀ id, p.scopes.declaredTemps id = []) :
    (p.perform input actions).buffer = p.buffer ∧
      (p.perform input actions).diagnostics = p.diagnostics := by
  induction actions generalizing p with
  | nil => exact ⟨rfl, rfl⟩
  | cons action later ih =>
    rw [perform_cons]
    cases action with
    | lower retain n => simp [lowered, Action.site?] at noSites
    | declareTemps n statements =>
      have idle : (p.declareTemps input n statements) = p := by
        simp [declareTemps, noTemps, TempDeclaration.insert]
      rw [Action.run_declareTemps, idle]
      exact ih noSites noTemps
    | tooDeep n =>
      have noTemps' : ∀ id, ((Action.tooDeep n).run input p).scopes.declaredTemps id = [] := noTemps
      exact ih noSites noTemps'

end Pass

attribute [local irreducible] Parsed.ofText

namespace Lowering

variable {file source : String} {options : Options}

lemma start_declaredTemps (id : ScopeId) :
    (passStart file source).scopes.declaredTemps id = [] := by
  obtain ⟨_, empty⟩ := Scopes.untouched_ofTable (Parsed.ofText source.toList).table
    (Parsed.ofText source.toList).root
  change (Scopes.temps _ id).declared = []
  unfold Scopes.temps
  cases found : Scopes.get? _ id with
  | none => rfl
  | some scope =>
    have mem := Array.mem_of_getElem? found
    simp [empty scope mem, TempRegistry.empty, TempRegistry.declared]

variable (clean : (Parsed.ofText source.toList).hasErrors = false)

include clean

/-- Every action of the pass is handled. -/
lemma handled_along :
    Pass.Along (passInput file source options) (Pass.Handled (passInput file source options))
      (passPlan source) (passStart file source) := by
  have tree := tree_of_clean clean
  refine (prepared_along clean).imp fun action mem p prepared => ?_
  have isSite (n : NodeId) (isSite : n ∈ action.site?) :
      (Parsed.ofText source.toList).table.IsSite n :=
    tree.plan_sites n (List.mem_filterMap.mpr ⟨action, mem, isSite⟩)
  exact Pass.handled_of_prepared tree isSite prepared

/-- A text in which the pass finds nothing to lower is not touched. -/
lemma unchanged_of_no_sites (noSites : lowered (passPlan source) = []) :
    (lower file source options).diagnostics = [] ∧ (lower file source options).edits = 0 ∧
      (lower file source options).output = some source := by
  obtain ⟨reports, output, edits, _⟩ := lower_eq_perform file options clean
  have idle : ((passStart file source).perform (passInput file source options)
        (passPlan source)).buffer = (passStart file source).buffer ∧
      ((passStart file source).perform (passInput file source options)
        (passPlan source)).diagnostics = (passStart file source).diagnostics :=
    Pass.perform_idle noSites start_declaredTemps
  rw [reports, output, edits, idle.1, idle.2]
  refine ⟨rfl, rfl, ?_⟩
  change some (String.ofList (Text.slice source.toList 0 (Text.size source.toList))) = _
  rw [Text.slice_all, String.ofList_toList]

/-- A text without patterns is not touched. -/
theorem unchanged_of_no_pattern
    (none : ∀ n, (Parsed.ofText source.toList).table.isPattern n = false) :
    (lower file source options).diagnostics = [] ∧ (lower file source options).edits = 0 ∧
      (lower file source options).output = some source := by
  refine unchanged_of_no_sites clean (List.eq_nil_iff_forall_not_mem.mpr fun n mem => ?_)
  have site := (tree_of_clean clean).plan_sites n mem
  exact Bool.false_ne_true ((none n).symm.trans site.1)

end Lowering

/-- The end of a declaration that was left to the end of its line can be lost: here the replacement
of the next statement is read as arguments of the value before it. -/
theorem lowered_lines_run_together :
    (lower "a.js" "var [a] = x++\n[d, e] = f, g.h = 1\n" .default).diagnostics = [] ∧
    (lower "a.js" "var [a] = x++\n[d, e] = f, g.h = 1\n" .default).output =
      some "var a = (x++)[0]\n(d = f[0], e = f[1], f), g.h = 1\n" ∧
    (Parsed.ofText "var a = (x++)[0]\n(d = f[0], e = f[1], f), g.h = 1\n".toList).hasErrors =
      true := by
  decide +kernel

end PatternLowering

import PatternLowering.Grammar.Program
import PatternLowering.Proofs.Statements

/-!
# Programs as trees

The nodes of a text that parses without errors are one tree over the whole text, in which every node
plays its role.
-/

namespace PatternLowering

open Parse ParseState

namespace Productions

lemma exhausted_sound (text : Text) : exhausted.Sound text where
  statement _ := meets_first_fail _
  binding _ := meets_first_fail _
  assignment _ _ := meets_first_fail _
  binary _ _ _ := meets_first_fail _
  unary _ := meets_first_fail _
  construct _ := meets_first_fail _
  literal _ _ ready _ _ := meets_fail _ fun _ same => same ▸ ready.reported

lemma within_sound (text : Text) (depth : Nat) : (within depth).Sound text := by
  induction depth with
  | zero => exact exhausted_sound text
  | succ depth ih =>
    exact
      { statement := Grammar.statement_makes ih
        binding := Grammar.binding_makes ih
        assignment := Grammar.assignment_makes ih
        binary := Grammar.binary_makes ih
        unary := Grammar.unary_makes ih
        construct := Grammar.construct_makes ih
        literal := Grammar.literal_turns ih.literal }

end Productions

/-- The nodes of the table are one tree that spans the text, with `root` as the program. -/
structure Table.Tree (text : Text) (t : Table) (root : NodeId) : Prop where
  tidy : t.Tidy (fun offset => text.isBoundary offset) (fun offset => text.isBoundary offset)
  fits : Fits t .program root
  whole : ∃ node, t.get? root = some node ∧ node.start = 0 ∧ node.stop = text.size
  last : t.size = root + 1
  rooted : ∀ {m}, m < root → ∃ parent, t.parent? m = some parent

namespace Reading

variable {text : Text}

/-- The state on the first token. -/
lemma ready_start (text : Text) : (start text).Ready text where
  scanner := .takeFaults .first
  behind := Nat.zero_le _
  closed := fun some => absurd some (lt_irrefl 0)
  reported := fun unknown none =>
    Scanner.faults_of_scan_unknown unknown (List.append_eq_nil_iff.mp none).2
  tidy := .empty
  size := rfl
  spelled := fun found => absurd (Table.lt_size found) (Nat.not_lt_zero _)

/-- A reading that came to the end of the text, from `s0` on. -/
structure Complete (text : Text) (s0 : ParseState) (reading : Reading) : Prop where
  holds : Holds text s0 false (reading.statements.toList.map (.statement, ·)) reading.state
  ended : reading.state.scanner.token.kind = .endOfFile

lemma continueWithin_complete {inner : Productions} {s0 s : ParseState} {found : Array NodeId}
    {bound : Nat} (sound : inner.Sound text)
    (holds : Holds text s0 false (found.toList.map (.statement, ·)) s)
    (enough : text.size < s.here + bound)
    (clean : (continueWithin inner bound found s).state.faults = []) :
    Complete text s0 (continueWithin inner bound found s) := by
  induction bound generalizing found s with
  | zero =>
    have stands := holds.ready.scanner.stands
    exact absurd enough (Nat.not_lt.mpr (stands.start_le_stop.trans stands.stop_le_size))
  | succ bound ih =>
    rw [continueWithin] at clean ⊢
    split at clean
    · rw [if_pos ‹_›]
      exact ⟨holds, ‹_›⟩
    · rw [if_neg ‹_›]
      cases ran : inner.statement s with
      | ok n s' =>
        have made := (sound.statement s).ok ⟨rfl, holds.ready⟩ ran
        have both : Holds text s0 false ((found.push n).toList.map (.statement, ·)) s' := by
          simpa using (holds.trans made).relax (by simp)
        have further : s.here < s'.here := (made.passed rfl).trans_le made.ready.behind
        rw [ran] at clean
        exact ih both (by omega) clean
      | error halt s' =>
        have failed := (sound.statement s).error ⟨rfl, holds.ready⟩ ran
        rw [ran] at clean
        exact absurd clean failed.2

lemma ofText_complete (clean : (ofText text).state.faults = []) :
    Complete text (start text) (ofText text) :=
  continueWithin_complete (Productions.within_sound text _) (.refl (ready_start text)) (by omega)
    clean

end Reading

/-- The program node takes all the statements. -/
lemma Reading.Complete.tree {text : Text} {statements : Array NodeId} {halt : Option Halt}
    {s : ParseState} (complete : Complete text (start text) ⟨statements, halt, s⟩) :
    (s.table.add 0 s.size (.program statements.toList)).2.Tree text s.table.size := by
  have holds : Holds text (start text) false (statements.toList.map (.statement, ·)) s :=
    complete.holds
  have parts : (statements.toList.map (Role.statement, ·)).map Prod.snd = statements.toList := by
    simp [Function.comp_def]
  have roots {m : NodeId} (known : m < s.table.size) :
      s.table.parent? m = none ↔ m ∈ statements.toList := by
    have := holds.roots (Nat.zero_le m) known
    rwa [parts] at this
  have laid : s.table.Laid 0 statements.toList s.size := by
    have laid := holds.laid
    rw [parts] at laid
    have stands := holds.ready.scanner.stands
    have inside : s.here ≤ text.size := stands.start_le_stop.trans stands.stop_le_size
    have := holds.ready.behind
    have := holds.ready.size
    have := holds.forward
    exact laid.mono (Nat.zero_le _) (by omega)
  have known (m : NodeId) (part : m ∈ statements.toList) : m < s.table.size := by
    obtain ⟨node, found, _⟩ := laid.within part
    exact Table.lt_size found
  have self := s.table.get?_add_self 0 s.size (.program statements.toList)
  refine ⟨?_, ?_, ⟨_, self, rfl, holds.ready.size⟩, Table.size_add .., ?_⟩
  · have tidy := holds.ready.tidy.mono (fun _ opens => Text.Opens.isBoundary opens)
      fun _ closes => Text.Closes.isBoundary closes
    refine tidy.add laid (fun m part => (roots (known m part)).mpr part) text.isBoundary_zero ?_
      (by nofun)
    rw [holds.ready.size]
    exact text.isBoundary_size
  · refine .mk (Table.form?_eq_some.mpr ⟨_, self, rfl⟩) rfl fun part mem => ?_
    exact (holds.fits mem).congr fun _ _ => Table.form?_add
  · intro m inside
    rw [Table.parent?_add 0 s.size (.program statements.toList) known]
    by_cases part : m ∈ statements.toList
    · exact ⟨_, if_pos part⟩
    · have rooted : s.table.parent? m ≠ none := fun none => part ((roots inside).mp none)
      obtain ⟨parent, up⟩ := Option.ne_none_iff_exists'.mp rooted
      exact ⟨parent, (if_neg part).trans up⟩

/-- The table of a text that parses without errors is a tree. -/
lemma Parsed.tree {text : Text} (clean : (ofText text).faults = []) :
    (ofText text).table.Tree text (ofText text).root := by
  have holds := Reading.ofText_complete clean
  unfold Parsed.ofText Reading.toParsed
  generalize Reading.ofText text = reading at holds
  obtain ⟨statements, halt, s⟩ := reading
  exact holds.tree

end PatternLowering

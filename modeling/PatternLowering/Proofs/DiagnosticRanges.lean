import PatternLowering.Proofs.ShortTexts
import PatternLowering.Proofs.Sites

/-!
# Diagnostics point into the source

Every diagnostic is about a stretch of the source that starts and stops between characters, and its
line is the line in which that stretch starts. A line break is a line feed, a carriage return, or
the two together. -/

namespace PatternLowering

open List

/-- A line break ends at the offset: a line feed, or a carriage return that no line feed follows. -/
def Text.EndsBreak (text : Text) (offset : Nat) : Prop :=
  ∃ before rest, text = before ++ rest ∧ Text.size before = offset ∧
    (before.getLast? = some '\n' ∨ before.getLast? = some '\r' ∧ rest.head? ≠ some '\n')

namespace Text

variable {rest : Text} {c : Char} {k : Nat}

lemma not_endsBreak_nil : ¬ EndsBreak [] k := by
  rintro ⟨before, rest, same, _, last⟩
  obtain ⟨rfl, rfl⟩ := append_eq_nil_iff.mp same.symm
  simp at last

/-- A break of a text is its first character or a break of the rest. -/
lemma endsBreak_cons : EndsBreak (c :: rest) k ↔
    (k = c.utf8Size ∧ (c = '\n' ∨ c = '\r' ∧ rest.head? ≠ some '\n')) ∨
      ∃ k', k = c.utf8Size + k' ∧ EndsBreak rest k' := by
  constructor
  · rintro ⟨before, after, same, rfl, last⟩
    cases before with
    | nil => simp at last
    | cons x before =>
      obtain ⟨rfl, rfl⟩ := List.cons.inj same
      cases before with
      | nil => exact .inl ⟨by simp, by simpa using last⟩
      | cons y before => exact .inr ⟨_, rfl, y :: before, after, rfl, rfl, by simpa using last⟩
  · rintro (⟨rfl, last⟩ | ⟨k', rfl, before, after, rfl, rfl, last⟩)
    · exact ⟨[c], rest, rfl, by simp, by simpa using last⟩
    · refine ⟨c :: before, after, rfl, rfl, ?_⟩
      cases before with
      | nil => simp at last
      | cons y before => simpa using last

end Text

namespace LineMap

lemma mem_breakEnds {offset : Nat} {text : Text} {k : Nat} :
    k ∈ breakEnds offset text ↔ ∃ k', k = offset + k' ∧ text.EndsBreak k' := by
  fun_induction breakEnds offset text with
  | case1 => simp [Text.not_endsBreak_nil]
  | case2 offset rest ih =>
    have carriage : ('\r').utf8Size = 1 := rfl
    have feed : ('\n').utf8Size = 1 := rfl
    simp only [mem_cons, ih, Text.endsBreak_cons, carriage, feed, head?_cons]
    constructor
    · rintro (rfl | ⟨k', rfl, ends⟩)
      · exact ⟨2, rfl, .inr ⟨1, rfl, .inl ⟨rfl, by simp⟩⟩⟩
      · exact ⟨2 + k', by omega, .inr ⟨1 + k', by omega, .inr ⟨k', rfl, ends⟩⟩⟩
    · rintro ⟨k', rfl, ⟨_, impossible⟩ | ⟨k', rfl, ⟨rfl, _⟩ | ⟨k', rfl, ends⟩⟩⟩
      · simp at impossible
      · exact .inl rfl
      · exact .inr ⟨k', by omega, ends⟩
  | case3 offset c rest apart next ending ih =>
    have alone : c = '\n' ∨ c = '\r' ∧ rest.head? ≠ some '\n' := by
      rcases ending with feed | carriage
      · exact .inl feed
      · refine .inr ⟨carriage, fun first => ?_⟩
        obtain ⟨later, rfl⟩ := head?_eq_some_iff.mp first
        exact apart later carriage rfl
    simp only [mem_cons, ih, Text.endsBreak_cons]
    constructor
    · rintro (rfl | ⟨k', rfl, ends⟩)
      · exact ⟨c.utf8Size, rfl, .inl ⟨rfl, alone⟩⟩
      · exact ⟨c.utf8Size + k', by omega, .inr ⟨k', rfl, ends⟩⟩
    · rintro ⟨k', rfl, ⟨rfl, _⟩ | ⟨k', rfl, ends⟩⟩
      · exact .inl rfl
      · exact .inr ⟨k', by omega, ends⟩
  | case4 offset c rest apart next other ih =>
    simp only [ih, Text.endsBreak_cons]
    constructor
    · rintro ⟨k', rfl, ends⟩
      exact ⟨c.utf8Size + k', by omega, .inr ⟨k', rfl, ends⟩⟩
    · rintro ⟨k', rfl, ⟨_, ending⟩ | ⟨k', rfl, ends⟩⟩
      · exact absurd (ending.imp_right And.left) other
      · exact ⟨k', by omega, ends⟩

lemma breakEnds_sorted (offset : Nat) (text : Text) :
    (breakEnds offset text).Pairwise (· < ·) ∧ ∀ k ∈ breakEnds offset text, offset < k := by
  fun_induction breakEnds offset text with
  | case1 => simp
  | case2 offset rest ih =>
    refine ⟨pairwise_cons.mpr ⟨ih.2, ih.1⟩, fun k mem => ?_⟩
    rcases mem_cons.mp mem with rfl | mem
    · omega
    · have := ih.2 k mem
      omega
  | case3 offset c rest _ next _ ih =>
    have := c.utf8Size_pos
    refine ⟨pairwise_cons.mpr ⟨ih.2, ih.1⟩, fun k mem => ?_⟩
    rcases mem_cons.mp mem with rfl | mem
    · omega
    · have := ih.2 k mem
      omega
  | case4 offset c rest _ next _ ih =>
    have := c.utf8Size_pos
    refine ⟨ih.1, fun k mem => ?_⟩
    have := ih.2 k mem
    omega

lemma takeWhile_eq_filter {starts : List Nat} (sorted : starts.Pairwise (· < ·)) (offset : Nat) :
    starts.takeWhile (· ≤ offset) = starts.filter (· ≤ offset) := by
  induction starts with
  | nil => rfl
  | cons start later ih =>
    obtain ⟨above, sorted⟩ := pairwise_cons.mp sorted
    by_cases before : start ≤ offset
    · rw [takeWhile_cons_of_pos (by simpa using before), filter_cons_of_pos (by simpa using before),
        ih sorted]
    · rw [takeWhile_cons_of_neg (by simpa using before), filter_cons_of_neg (by simpa using before)]
      refine (filter_eq_nil_iff.mpr fun k mem => ?_).symm
      have := above k mem
      simp only [decide_eq_true_eq]
      omega

/-- The line of an offset is one more than the number of breaks that end at or before it. -/
lemma lineOf_eq (text : Text) (offset : Nat) :
    (ofText text).lineOf offset = 1 + Set.ncard {k | k ≤ offset ∧ text.EndsBreak k} := by
  have sorted := (breakEnds_sorted 0 text).1
  have ends : {k | k ≤ offset ∧ text.EndsBreak k} =
      ((breakEnds 0 text).filter (· ≤ offset)).toFinset := by
    ext k
    simp [mem_breakEnds, and_comm]
  have distinct : ((breakEnds 0 text).filter (· ≤ offset)).Nodup :=
    (sorted.imp fun lt => Nat.ne_of_lt lt).filter _
  rw [ends, Set.ncard_coe_finset, toFinset_card_of_nodup distinct, ← takeWhile_eq_filter sorted]
  have first : (0 :: breakEnds 0 text).takeWhile (· ≤ offset) = 0 :: (breakEnds 0 text).takeWhile
    (· ≤ offset) :=
    takeWhile_cons_of_pos (by simp)
  rw [lineOf, upTo, ofText, first, length_cons]
  omega

end LineMap

/-- The diagnostic is about a stretch of the text, and tells the line in which that starts. -/
structure Diagnostic.PointsInto (text : Text) (d : Diagnostic) : Prop where
  inside : d.start + d.length ≤ text.size
  opens : text.isBoundary d.start
  closes : text.isBoundary (d.start + d.length)
  line : d.line = 1 + Set.ncard {k | k ≤ d.start ∧ text.EndsBreak k}

lemma SyntaxFault.Within.pointsInto {text : Text} {fault : SyntaxFault} (within : fault.Within text)
    (file : String) : (fault.diagnostic file (.ofText text)).PointsInto text :=
  ⟨Text.le_size_of_isBoundary within.2, within.1, within.2, LineMap.lineOf_eq text fault.start⟩

/-! ### Lowering -/

/-- A node starts and stops between characters. -/
lemma Table.Tree.range_within {t : Table} {text : Text} {root : NodeId} (tree : t.Tree text root)
    (n : NodeId) : text.isBoundary (Pass.range t n).1 ∧ text.isBoundary (Pass.range t n).2 ∧
      (Pass.range t n).1 ≤ (Pass.range t n).2 := by
  unfold Pass.range
  cases found : t.get? n with
  | none => exact ⟨text.isBoundary_zero, text.isBoundary_zero, Nat.le_refl _⟩
  | some node => exact ⟨tree.tidy.opened found, tree.tidy.closed found, (tree.tidy.laid found).le⟩

namespace Pass

variable {input : PassInput} {text : Text} {root : NodeId} {p : Pass}

/-- All that was reported so far points into the text. -/
def Points (text : Text) (p : Pass) : Prop := ∀ d ∈ p.diagnostics, d.PointsInto text

lemma Points.report (points : p.Points text) (lines : input.lines = .ofText text) {start stop : Nat}
    (opens : text.isBoundary start) (closes : text.isBoundary stop) (forward : start ≤ stop)
    (failure : Failure) : (p.report input start stop failure).Points text := by
  have found :
      (failure.diagnostic input.file input.lines input.options.policy start stop).PointsInto
        text := by
    have whole : start + (stop - start) = stop := Nat.add_sub_of_le forward
    refine ⟨?_, opens, ?_, ?_⟩
    · exact whole.trans_le (Text.le_size_of_isBoundary closes)
    · exact whole.symm ▸ closes
    · rw [lines]
      exact LineMap.lineOf_eq text start
  intro d mem
  have mem' :
      d ∈ p.diagnostics ++ [failure.diagnostic input.file input.lines input.options.policy
        start stop] := by
    unfold Pass.report at mem
    dsimp only at mem
    split at mem <;> exact mem
  rcases mem_append.mp mem' with mem | mem
  · exact points d mem
  · rw [mem_singleton.mp mem]
    exact found

section Steps

variable (tree : input.table.Tree text root) (lines : input.lines = .ofText text)

include tree lines

lemma Points.failed (points : p.Points text) (n : NodeId) (failure : Failure) :
    (p.failed input n failure).Points text := by
  obtain ⟨opens, closes, forward⟩ := tree.range_within (reportedNode input.table n)
  unfold Pass.failed
  dsimp only
  refine Points.report ?_ lines opens closes forward failure
  split
  · exact points
  · split <;> exact points

lemma Points.lower (points : p.Points text) (retain : Bool) (n : NodeId) :
    (p.lower input retain n).Points text := by
  unfold Pass.lower
  dsimp only
  split
  · refine Points.failed tree lines ?_ n _
    exact points
  · split
    · refine Points.failed tree lines ?_ n _
      exact points
    · exact points

lemma Points.declareTemps (points : p.Points text) (n : NodeId) (statements : List NodeId) :
    (p.declareTemps input n statements).Points text := by
  obtain ⟨opens, closes, forward⟩ := tree.range_within n
  unfold Pass.declareTemps
  split
  · exact points
  · dsimp only
    split
    · exact points
    · exact points.report lines opens closes forward _

lemma Points.perform (points : p.Points text) (actions : List Action) :
    (p.perform input actions).Points text := by
  induction actions generalizing p with
  | nil => exact points
  | cons action later ih =>
    refine ih ?_
    cases action with
    | lower retain n => exact points.lower tree lines retain n
    | declareTemps n statements => exact points.declareTemps tree lines n statements
    | tooDeep n => exact points

end Steps

end Pass

/-- Every diagnostic points into the source. -/
theorem diagnostics_point_into_source (file source : String) (options : Options) :
    ∀ d ∈ (lower file source options).diagnostics, d.PointsInto source.toList := by
  cases clean : (Parsed.ofText source.toList).hasErrors with
  | true =>
    intro d mem
    rw [Lowering.lower_of_faulty file options clean] at mem
    obtain ⟨fault, isFault, rfl⟩ := mem_map.mp mem
    exact (Parsed.faults_within _ fault isFault).pointsInto file
  | false =>
    rw [(Lowering.lower_eq_perform file options clean).1]
    have nothing : (Lowering.passStart file source).Points source.toList :=
      fun d mem => by cases mem
    exact nothing.perform (Lowering.tree_of_clean clean) rfl _

/-- A comment that is not closed, behind a line break of two characters and a letter of two
bytes. -/
theorem open_comment_is_in_line_two : ∃ d ∈ (lower "a.js" "é;\r\n/*é" .default).diagnostics,
    d.start = 5 ∧ d.length = 2 ∧ d.line = 2 ∧ d.PointsInto "é;\r\n/*é".toList := by
  have only : (lower "a.js" "é;\r\n/*é" .default).diagnostics =
      [SyntaxFault.diagnostic "a.js" (.ofText "é;\r\n/*é".toList) ⟨5, 2, .openComment⟩] := by
    decide +kernel
  have mem : SyntaxFault.diagnostic "a.js" (.ofText "é;\r\n/*é".toList) ⟨5, 2, .openComment⟩ ∈
      (lower "a.js" "é;\r\n/*é" .default).diagnostics := by simp [only]
  exact ⟨_, mem, rfl, rfl, by decide +kernel, diagnostics_point_into_source _ _ _ _ mem⟩

end PatternLowering

import PatternLowering.Proofs.FaultRanges

/-!
# Short texts

All that is counted in a text lies in it. So 32 bits lose nothing of a text of fewer than `2 ^ 32`
bytes: its tree, its lines and its lowering are the same as with numbers of any size. A text of
blanks shows what a longer one loses.
-/

namespace PatternLowering

lemma Node.in32_eq {node : Node} (forward : node.start ≤ node.stop) (small : node.stop < 2 ^ 32) :
    node.in32 = node := by
  rw [in32, low32_eq (forward.trans_lt small), low32_eq small, max_eq_right forward]

lemma SyntaxFault.in32_eq {fault : SyntaxFault} (small : fault.start + fault.length < 2 ^ 32) :
    fault.in32 = fault := by
  rw [in32, low32_eq (by omega), low32_eq (by omega)]

lemma LineMap.le_of_mem_breakEnds {text : Text} {offset k : Nat} (mem : k ∈ breakEnds offset text) :
    k ≤ offset + text.size := by
  fun_induction breakEnds offset text with
  | case1 => cases mem
  | case2 offset rest ih =>
    have feed : ('\n').utf8Size = 1 := rfl
    have carriage : ('\r').utf8Size = 1 := rfl
    rw [Text.size_cons, Text.size_cons, feed, carriage]
    rcases List.mem_cons.mp mem with rfl | mem
    · omega
    · have := ih mem
      omega
  | case3 offset c rest _ next ends ih =>
    rw [Text.size_cons]
    rcases List.mem_cons.mp mem with rfl | mem
    · omega
    · have := ih mem
      omega
  | case4 offset c rest _ next goesOn ih =>
    rw [Text.size_cons]
    have := ih mem
    omega

section Short

variable {text : Text} (small : text.size < 2 ^ 32)

include small

lemma LineMap.ofText32_eq : ofText32 text = ofText text := by
  have kept : (breakEnds 0 text).map low32 = breakEnds 0 text :=
    (List.map_congr_left fun k mem => low32_eq (by have := le_of_mem_breakEnds mem; omega)).trans
      (List.map_id _)
  rw [ofText32, kept, ofText]

/-- The tree of a short text and its errors are the same in 32 bits. -/
lemma Parsed.ofText32_eq : ofText32 text = ofText text := by
  have bounds := Reading.ofText_inBounds text
  have nodes : (ofText text).table.nodes.map Node.in32 = (ofText text).table.nodes := by
    refine Array.ext (by simp) fun n inside _ => ?_
    rw [Array.getElem_map]
    have found : (ofText text).table.get? n = some _ :=
      Array.getElem?_eq_getElem (by simpa using inside)
    rcases Table.get?_add_eq_some found with ⟨_, isProgram⟩ | ⟨old, isOld, start, stop, _⟩
    · rw [isProgram]
      exact Node.in32_eq (Nat.zero_le _) (bounds.size ▸ small)
    · obtain ⟨_, closes, forward⟩ := bounds.nodes isOld
      have inText := Text.le_size_of_isBoundary closes
      exact Node.in32_eq (by omega) (by omega)
  have faults : (ofText text).faults.map SyntaxFault.in32 = (ofText text).faults := by
    refine (List.map_congr_left fun fault mem => ?_).trans (List.map_id _)
    have inText := Text.le_size_of_isBoundary (faults_within text fault mem).2
    exact SyntaxFault.in32_eq (by omega)
  rw [ofText32, in32, nodes, faults]

end Short

lemma lower32_eq (file : String) {source : String} (options : Options)
    (small : Text.size source.toList < 2 ^ 32) :
    lower32 file source options = lower file source options := by
  have parsed :
      (Reading.ofText source.toList).toParsed.in32 = (Reading.ofText source.toList).toParsed :=
    Parsed.ofText32_eq small
  rw [lower32, lower, parsed, LineMap.ofText32_eq small, EditBuffer.ofText32_eq small]

/-! ### Blanks -/

lemma Gap.skipFrom_blanks (n : Nat) (seen : Bool) (offset : Nat) :
    skipFrom .spaces seen offset (List.replicate n ' ') = ⟨⟨offset + n, []⟩, seen, none⟩ := by
  induction n generalizing offset with
  | zero => rfl
  | succ n ih =>
    have step : skipFrom .spaces seen offset (List.replicate (n + 1) ' ') =
        skipFrom .spaces seen (offset + 1) (List.replicate n ' ') := by
      rw [List.replicate_succ, skipFrom, if_neg (by decide), if_pos (by decide)]
      · rfl
      · nofun
      · nofun
    rw [step, ih, Nat.add_assoc, Nat.add_comm 1]

lemma Scanner.scan_blanks (n : Nat) : (Scanner.ofText (List.replicate n ' ')).scan =
    ⟨⟨.endOfFile, n, n, false⟩, ⟨n, []⟩, ⟨n, []⟩, []⟩ := by
  have gap : Gap.skip (.atStart (List.replicate n ' ')) = ⟨⟨n, []⟩, false, none⟩ :=
    (Gap.skipFrom_blanks n false 0).trans (by rw [Nat.zero_add])
  change settle (Gap.skip (.atStart (List.replicate n ' '))).stop _ _ _ = _
  simp only [ofText, gap]
  rfl

/-- A text of blanks is a program without statements. -/
lemma Parsed.ofText_blanks (n : Nat) :
    ofText (List.replicate n ' ') = ⟨⟨#[⟨0, n, none, .program []⟩]⟩, 0, []⟩ := by
  have start : Reading.start (List.replicate n ' ') =
      ⟨⟨⟨.endOfFile, n, n, false⟩, ⟨n, []⟩, ⟨n, []⟩, []⟩, .empty, [], 0, n⟩ := by
    change ParseState.mk (Scanner.ofText (List.replicate n ' ')).scan.takeFaults.2 .empty
      ([] ++ (Scanner.ofText (List.replicate n ' ')).scan.takeFaults.1) 0 (Text.size _) = _
    rw [Scanner.scan_blanks, Text.size_blanks]
    rfl
  have read :
      Reading.ofText (List.replicate n ' ') =
        ⟨#[], none, Reading.start (List.replicate n ' ')⟩ := by
    rw [Reading.ofText, Reading.continueWithin, start]
    rfl
  rw [ofText, read, start]
  rfl

/-- In 32 bits its program ends behind the lower 32 bits of the number of blanks. -/
lemma Parsed.ofText32_blanks (n : Nat) : ofText32 (List.replicate n ' ') =
    ⟨⟨#[⟨0, low32 n, none, .program []⟩]⟩, 0, []⟩ := by
  simp [ofText32, ofText_blanks, in32, Node.in32, low32]

end PatternLowering

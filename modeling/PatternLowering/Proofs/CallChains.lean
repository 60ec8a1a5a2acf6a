import PatternLowering.Proofs.DepthLimits
import PatternLowering.Proofs.PatternParsers

/-!
# Long chains of calls

Calls that follow one another are read in a loop, so a short text of small nesting can have as many
levels as it has calls. An assignment in parentheses that is called often enough lies below the
levels that the walk descends, and is passed over without a report.
-/

namespace PatternLowering

open Parse ParseState Table

/-- Calls without arguments, and the end of the statement. -/
def emptyCalls : Nat → Text
  | 0 => [';']
  | count + 1 => '(' :: ')' :: emptyCalls count

/-- An assignment to a pattern, the result of which is called, and the result of that, and so on. -/
def calledAssignment (count : Nat) : Text :=
  '(' :: '[' :: 'a' :: ']' :: ' ' :: '=' :: ' ' :: 'x' :: ')' :: emptyCalls count

namespace Text.Next

lemma openBracket (later : Text) : Next ('[' :: later) (.punctuator .openBracket) later :=
  fun _ => ⟨rfl, rfl, rfl, rfl⟩

lemma closeBracket (later : Text) : Next (']' :: later) (.punctuator .closeBracket) later :=
  fun _ => ⟨rfl, rfl, rfl, rfl⟩

lemma element (later : Text) : Next ('a' :: ']' :: later) .identifier (']' :: later) := by
  intro offset
  exact ⟨rfl, Lexeme.read_word [] (by decide) rfl⟩

end Text.Next

/-- The parser stands on the first token of the calls. -/
def ParseState.AtCalls : Nat → ParseState → Prop
  | 0, s => s.Onto [] (.punctuator .semicolon) []
  | count + 1, s => s.Onto [] (.punctuator .openParen) (')' :: emptyCalls count)

lemma ParseState.next_emptyCalls (count : Nat) :
    ∃ k later, (emptyCalls count).Next k later ∧ ∀ s : ParseState, s.Onto [] k later →
      s.AtCalls count := by
  cases count with
  | zero => exact ⟨_, _, .semicolon [], fun _ onto => onto⟩
  | succ count => exact ⟨_, _, .openParen _, fun _ onto => onto⟩

/-- The node `n` is a chain of `count` calls without arguments, the innermost of which calls
`inner`. -/
inductive Table.Calls (t : Table) (inner : NodeId) : (count : Nat) → (n : NodeId) → Prop where
  | none : t.Calls inner 0 inner
  | call {count : Nat} {callee n : NodeId} (found : t.form? n = some (.call callee []))
    (rest : t.Calls inner count callee) : t.Calls inner (count + 1) n

namespace Table.Calls

variable {t t' : Table} {inner callee n : NodeId} {count : Nat}

lemma preserved (calls : t.Calls inner count n) (keeps : t.Preserves t') :
    t'.Calls inner count n := by
  induction calls with
  | none => exact .none
  | call found _ ih => exact .call (keeps.form? found) ih

/-- One more call inside. -/
lemma inside (calls : t.Calls inner count n) (found : t.form? inner = some (.call callee [])) :
    t.Calls callee (count + 1) n := by
  induction calls with
  | none => exact .call found .none
  | call found' _ ih => exact .call found' ih

/-- The walk does not get to the other end of a chain that has as many calls as it may descend
levels. -/
lemma lowered_planWithin (calls : t.Calls inner count n) {depth : Nat} (long : depth ≤ count)
    (retain : Bool) : lowered (t.planWithin depth retain (some n)) = [] := by
  induction depth generalizing count n with
  | zero => rfl
  | succ depth ih =>
    cases calls with
    | none => omega
    | @call count callee _ found rest =>
      have walks :
          t.planWithin (depth + 1) retain (some n) = t.planWithin depth retain (some callee) := by
        rw [planWithin, found]
        simp [Step.ofForm, Step.walks, Step.actions, Form.children]
      rw [walks]
      exact ih rest (by omega)

end Table.Calls

/-- The node `a` assigns to a pattern. -/
def Table.AssignsPattern (t : Table) (a : NodeId) : Prop :=
  ∃ n value elements, t.form? a = some (.assignment n .plain value) ∧
    t.form? n = some (.arrayPattern elements)

/-- The node `n` is a chain of calls of an assignment to a pattern, which stands in parentheses. -/
def Table.CallsAssignment (t : Table) (count : Nat) (n : NodeId) : Prop :=
  ∃ e a, t.Calls e count n ∧ t.form? e = some (.parenthesized a) ∧ t.AssignsPattern a

lemma Table.AssignsPattern.preserved {t t' : Table} {a : NodeId} (assigns : t.AssignsPattern a)
    (keeps : t.Preserves t') : t'.AssignsPattern a := by
  obtain ⟨n, value, elements, isAssignment, isPattern⟩ := assigns
  exact ⟨n, value, elements, keeps.form? isAssignment, keeps.form? isPattern⟩

lemma Table.CallsAssignment.preserved {t t' : Table} {count : Nat} {n : NodeId}
    (calls : t.CallsAssignment count n) (keeps : t.Preserves t') : t'.CallsAssignment count n := by
  obtain ⟨e, a, chain, isEnclosed, assigns⟩ := calls
  exact ⟨e, a, chain.preserved keeps, keeps.form? isEnclosed, assigns.preserved keeps⟩

namespace Grammar

variable {limit : Prop} {inner : Productions} {s s1 : ParseState} {n : NodeId} {k : TokenKind}
  {rest later : Text}

/-! ### Reading the calls -/

variable {α : Type} {depth : Nat}

lemma iterate_none {a : α} {step : α → Parse (Option α)} (done : step a s = .ok none s) :
    iterate a step s = .ok a s := by
  change iterateWithin step (s.size + 1) a s = _
  rw [iterateWithin, EStateM.bind_of_ok done]
  rfl

lemma many_none {step : Parse (Option α)} (done : step s = .ok none s) :
    many step s = .ok [] s := by
  unfold many
  rw [EStateM.bind_of_ok (iterate_none ?_)]
  · rfl
  · rw [EStateM.bind_of_ok done]
    rfl

lemma isAtPunctuator_same {p : Punctuator} (same : s.scanner.token.kind = .punctuator p) :
    isAtPunctuator p s = .ok true s := by
  change EStateM.Result.ok (decide (s.scanner.token.kind = .punctuator p)) s = _
  rw [decide_eq_true same]

lemma callArguments_empty (inner : Productions)
    (onto : s.Onto [] (.punctuator .openParen) (')' :: rest)) (next : rest.Next k later) :
    ∃ s1, callArguments inner s = .ok [] s1 ∧ s1.Onto [] k later ∧ s1.table = s.table := by
  obtain ⟨s1, expected, onto1, table1⟩ := onto.expect (.closeParen rest)
  obtain ⟨s2, passed, onto2, table2⟩ := onto1.advance next
  refine ⟨s2, ?_, onto2, table2.trans table1⟩
  unfold callArguments
  rw [EStateM.bind_of_ok expected, EStateM.bind_of_ok (many_none ?_), EStateM.bind_of_ok passed]
  · rfl
  · rw [EStateM.bind_of_ok (isAtPunctuator_same onto1.kind)]
    rfl

/-- One access or call behind `callee`. -/
def trailing (inner : Productions) (start : Nat) (callee : NodeId) : Parse (Option NodeId) := do
  if ← isAtMember then return some (← memberAccess inner start callee)
  if ← isAtPunctuator .openParen then
    let arguments ← callArguments inner
    return some (← finish start (.call callee arguments))
  return none

lemma trailing_call (inner : Productions) {count start : Nat} {callee : NodeId}
    (atCalls : s.AtCalls (count + 1)) :
    ∃ m s1, trailing inner start callee s = .ok (some m) s1 ∧ s1.AtCalls count ∧
      s.table.Preserves s1.table ∧ s1.table.form? m = some (.call callee []) := by
  have onto : s.Onto [] (.punctuator .openParen) (')' :: emptyCalls count) := atCalls
  obtain ⟨k, later, next, atNext⟩ := next_emptyCalls count
  obtain ⟨s1, called, onto1, table⟩ := callArguments_empty inner onto next
  obtain ⟨m, s2, finished, onto2, keeps, found⟩ := onto1.finish start (.call callee [])
  have noMember : isAtMember s = .ok false s := by
    change EStateM.Result.ok (decide (s.scanner.token.kind = .punctuator .dot) ||
      decide (s.scanner.token.kind = .punctuator .openBracket)) s = _
    simp [onto.kind]
  refine ⟨m, s2, ?_, atNext s2 onto2, table ▸ keeps, found⟩
  unfold trailing
  rw [EStateM.bind_of_ok noMember, if_neg (by simp),
    EStateM.bind_of_ok (isAtPunctuator_same onto.kind),
    if_pos rfl, EStateM.bind_of_ok called, EStateM.bind_of_ok finished]
  rfl

lemma trailing_none {start : Nat} {callee : NodeId} (ends : s.scanner.token.kind.EndsOperand) :
    trailing inner start callee s = .ok none s := by
  have noCall : isAtPunctuator .openParen s = .ok false s := isAt_other ends.noCall
  unfold trailing
  rw [EStateM.bind_of_ok (isAtMember_other ends), if_neg (by simp), EStateM.bind_of_ok noCall,
    if_neg (by simp)]
  rfl

/-- The loop reads all the calls. -/
lemma calls_follow {count : Nat} (start bound : Nat) {callee : NodeId} (atCalls : s.AtCalls count) :
    Follows limit (fun n s' => s'.Onto [] (.punctuator .semicolon) [] ∧ s.table.Preserves s'.table ∧
      s'.table.Calls callee count n) (iterateWithin (trailing inner start) bound callee s) := by
  induction count generalizing bound callee s with
  | zero =>
    cases bound with
    | zero => trivial
    | succ bound =>
      have onto : s.Onto [] (.punctuator .semicolon) [] := atCalls
      rw [iterateWithin, EStateM.bind_of_ok (trailing_none (onto.kind ▸ endsOperand_semicolon))]
      exact ⟨onto, .refl _, .none⟩
  | succ count ih =>
    cases bound with
    | zero => trivial
    | succ bound =>
      obtain ⟨m, s1, called, atCalls1, keeps, found⟩ := trailing_call inner atCalls
      rw [iterateWithin, EStateM.bind_of_ok called]
      refine (ih bound atCalls1).imp ?_
      rintro n s' ⟨onto, keeps', calls⟩
      exact ⟨onto, keeps.trans keeps', calls.inside (keeps'.form? found)⟩

/-- An operand that is called. -/
lemma leftHandSide_called {count : Nat} {Q : NodeId → ParseState → Prop}
    (starts : s.scanner.token.kind.StartsOperand) (reads : Follows limit Q (primary inner s))
    (ends : ∀ e s1, Q e s1 → s1.AtCalls count) :
    Follows limit (Ended fun n s' => s'.Onto [] (.punctuator .semicolon) [] ∧
      ∃ e s1, Q e s1 ∧ s1.table.Preserves s'.table ∧ s'.table.Calls e count n)
        (leftHandSide inner s) := by
  unfold leftHandSide
  rw [here_bind]
  have noNew : isAtKeyword .newKw s = .ok false s := isAt_other starts.noConstruct
  rw [EStateM.bind_of_ok noNew]
  refine reads.bind fun e s1 holds => ?_
  refine (calls_follow s.here (s1.size + 1) (ends e s1 holds)).imp ?_
  rintro n s' ⟨onto, keeps, calls⟩
  exact ⟨⟨onto, e, s1, holds, keeps, calls⟩, onto.kind ▸ endsOperand_semicolon⟩

/-! ### Reading the assignment -/

/-- A loop that goes round once. -/
lemma follows_iterate_once {a : α} {step : α → Parse (Option α)} {R Q : α → ParseState → Prop}
    (first : Follows limit (fun found s1 => ∃ b, found = some b ∧ R b s1) (step a s))
    (done : ∀ b s1, R b s1 → step b s1 = .ok none s1 ∧ Q b s1) :
    Follows limit Q (iterate a step s) := by
  change Follows limit Q (iterateWithin step (s.size + 1) a s)
  rw [iterateWithin]
  refine first.bind ?_
  rintro _ s1 ⟨b, rfl, holds⟩
  obtain ⟨ended, holds'⟩ := done b s1 holds
  cases s.size with
  | zero => trivial
  | succ bound =>
    dsimp only
    rw [iterateWithin, EStateM.bind_of_ok ended]
    exact holds'

lemma follows_many_one {step : Parse (Option α)} {R : α → ParseState → Prop}
    {Q : List α → ParseState → Prop}
    (first : Follows limit (fun found s1 => ∃ a, found = some a ∧ R a s1) (step s))
    (done : ∀ a s1, R a s1 → step s1 = .ok none s1 ∧ Q [a] s1) : Follows limit Q (many step s) := by
  unfold many
  refine Follows.bind (follows_iterate_once (R := fun found s1 => ∃ a, found = #[a] ∧ R a s1)
    (Q := fun found s1 => ∃ a, found = #[a] ∧ R a s1) ?_ ?_) ?_
  · refine first.bind ?_
    rintro _ s1 ⟨a, rfl, holds⟩
    exact ⟨_, rfl, a, rfl, holds⟩
  · rintro _ s1 ⟨a, rfl, holds⟩
    refine ⟨?_, a, rfl, holds⟩
    rw [EStateM.bind_of_ok (done a s1 holds).1]
    rfl
  · rintro _ s1 ⟨a, rfl, holds⟩
    exact (done a s1 holds).2

/-- The literal with the single element `a`. -/
lemma arrayLiteral_of_element (onto : s.Onto [] (.punctuator .openBracket) ('a' :: ']' :: rest))
    (next : rest.Next k later) :
    Follows limit (fun n s' => s'.Onto [] k later ∧ ∃ e name,
      s'.table.form? n = some (.arrayLiteral [some e]) ∧ s'.table.form? e = some (.identifier name))
      (arrayLiteral (.within (depth + 1)) s) := by
  obtain ⟨s1, expected, onto1, _⟩ := onto.expect (.element rest)
  unfold arrayLiteral
  rw [here_bind, EStateM.bind_of_ok expected]
  have ends : (TokenKind.punctuator .closeBracket).EndsOperand :=
    ⟨by simp, by simp, by simp, rfl, rfl, by simp⟩
  refine Follows.bind (Q := fun elements s2 => ∃ e name, elements = [some e] ∧
    s2.Onto [] (.punctuator .closeBracket) rest ∧ s2.table.form? e = some (.identifier name)) ?_ ?_
  · refine follows_many_one (R := fun element s2 => ∃ e name, element = some e ∧
      s2.Onto [] (.punctuator .closeBracket) rest ∧
      s2.table.form? e = some (.identifier name)) ?_ ?_
    · have noClose : isAtPunctuator .closeBracket s1 = .ok false s1 :=
        isAt_other (by simp [onto1.kind])
      have noComma : acceptPunctuator .comma s1 = .ok false s1 :=
        accept_other (by simp [onto1.kind])
      have noSpread : acceptPunctuator .ellipsis s1 = .ok false s1 :=
        accept_other (by simp [onto1.kind])
      rw [EStateM.bind_of_ok noClose, if_neg (by simp), EStateM.bind_of_ok noComma,
        if_neg (by simp)]
      refine Follows.bind (Q := fun e s2 => s2.Onto [] (.punctuator .closeBracket) rest ∧
        ∃ name, s2.table.form? e = some (.identifier name)) ?_ ?_
      · unfold arrayElement
        rw [here_bind, EStateM.bind_of_ok noSpread, if_neg (by simp)]
        refine (assignment_of_name onto1 (.closeBracket rest) ends rfl true).imp ?_
        rintro e s2 ⟨onto2, _, name, found⟩
        exact ⟨onto2, name, found⟩
      · rintro e s2 ⟨onto2, name, found⟩
        have separated : separator .closeBracket s2 = .ok () s2 := by
          unfold separator
          rw [EStateM.bind_of_ok (isAtPunctuator_same onto2.kind)]
          rfl
        rw [EStateM.bind_of_ok separated]
        exact ⟨some e, rfl, e, name, rfl, onto2, found⟩
    · rintro _ s2 ⟨e, name, rfl, onto2, found⟩
      refine ⟨?_, e, name, rfl, onto2, found⟩
      rw [EStateM.bind_of_ok (isAtPunctuator_same onto2.kind)]
      rfl
  · rintro _ s2 ⟨e, name, rfl, onto2, found⟩
    obtain ⟨s3, passed, onto3, table⟩ := onto2.advance next
    obtain ⟨n, s4, finished, onto4, keeps, isArray⟩ := onto3.finish s.here (.arrayLiteral [some e])
    rw [EStateM.bind_of_ok passed]
    rw [finished]
    exact ⟨onto4, e, name, isArray, (table ▸ keeps).form? found⟩

/-- It turns into a pattern. -/
lemma target_of_array {e : NodeId} {name : String}
    (isArray : s.table.form? n = some (.arrayLiteral [some e]))
    (isName : s.table.form? e = some (.identifier name)) : target (.within (depth + 1)) n s =
      .ok n { s with table := s.table.reinterpret n (.arrayPattern [some e]) } := by
  have simple : s.table.isSimpleTarget e = true := by
    rw [isSimpleTarget, isSimpleTargetWithin, isName]
  have single : target (.within depth) e s = .ok e s := by
    unfold target
    rw [form?_bind, isName]
    dsimp only
    rw [EStateM.bind_of_ok (rfl : (get : Parse ParseState) s = .ok s s), simple]
    rfl
  have element : elementTarget (.within depth) true e s = .ok () s := by
    unfold elementTarget
    rw [form?_bind, isName]
    change EStateM.map (fun _ => ()) (target (.within depth) e) s = _
    simp only [EStateM.map, single]
  have inner : literal (.within depth) n s =
      .ok n { s with table := s.table.reinterpret n (.arrayPattern [some e]) } := by
    unfold literal
    rw [form?_bind, isArray]
    have elements : elementTargets (.within depth) [some e] s = .ok () s := by
      rw [elementTargets]
      exact EStateM.bind_of_ok element
    dsimp only
    rw [EStateM.bind_of_ok elements]
    rfl
  unfold target
  rw [form?_bind, isArray]
  exact inner

/-- The assignment up to the parenthesis behind it. -/
lemma assignment_of_array
    (onto : s.Onto [] (.punctuator .openBracket) ('a' :: ']' :: ' ' :: '=' :: ' ' :: 'x' ::
      ')' :: rest)) :
    Follows limit (fun a s' => s'.Onto [] (.punctuator .closeParen) rest ∧
      s'.table.AssignsPattern a)
      (assignment (.within (depth + 1)) true s) := by
  have reads :
    Follows limit (Ended fun n s' => s'.Onto [] (.punctuator .assign) (' ' :: 'x' :: ')' :: rest) ∧
      ∃ e name, s'.table.form? n = some (.arrayLiteral [some e]) ∧
      s'.table.form? e = some (.identifier name))
      (primary (.within (depth + 1)) s) := by
    have isLiteral : primary (.within (depth + 1)) s = arrayLiteral (.within (depth + 1)) s := by
      unfold primary
      rw [here_bind, kind_bind, onto.kind]
    rw [isLiteral]
    refine (arrayLiteral_of_element onto (.assign ('x' :: ')' :: rest))).imp
      fun n s' holds => ⟨holds, ?_⟩
    rw [holds.1.kind]
    exact ⟨by simp, by simp, by simp, rfl, rfl, by simp⟩
  unfold assignment
  rw [here_bind]
  refine (conditional_of_primary (onto.kind ▸ ⟨rfl, by simp⟩) reads true).bind ?_
  rintro n s1 ⟨⟨onto1, e, name, isArray, isName⟩, _⟩
  rw [kind_bind, onto1.kind]
  have turned : target (.within (depth + 1)) n s1 =
      .ok n { s1 with table := s1.table.reinterpret n (.arrayPattern [some e]) } :=
        target_of_array isArray isName
  have isPattern :
      (s1.table.reinterpret n (.arrayPattern [some e])).form? n =
        some (.arrayPattern [some e]) := by
    obtain ⟨start, stop, at_⟩ := exists_at_of_form? isArray
    exact (at_reinterpret.mpr (.inl ⟨rfl, rfl, _, at_⟩)).form?
  refine Follows.bind (Q := fun m s2 => m = n ∧
    s2.Onto [] (.punctuator .assign) (' ' :: 'x' :: ')' :: rest) ∧
    s2.table.form? n = some (.arrayPattern [some e])) ?_ ?_
  · rw [turned]
    exact ⟨rfl, ⟨onto1.kind, onto1.rest, onto1.faults, onto1.scanner⟩, isPattern⟩
  · rintro _ s2 ⟨rfl, onto2, isPattern2⟩
    obtain ⟨s3, passed, onto3, table3⟩ := onto2.advance (.name rest (by decide))
    beta_reduce
    rw [EStateM.bind_of_ok passed]
    refine (assignment_of_name onto3 (.closeParen rest) ⟨by simp, by simp, by simp, rfl, rfl,
      by simp⟩ rfl true).bind ?_
    rintro value s4 ⟨onto4, keeps4, _⟩
    obtain ⟨a, s5, finished, onto5, keeps5, isAssignment⟩ :=
      onto4.finish s.here (.assignment _ .plain value)
    rw [finished]
    exact ⟨onto5, _, value, _, isAssignment, ((table3 ▸ keeps4).trans keeps5).form? isPattern2⟩

/-- The whole statement. -/
lemma statement_calls (depth : Nat) {count : Nat} (onto : s.Onto [] (.punctuator .openParen)
    ('[' :: 'a' :: ']' :: ' ' :: '=' :: ' ' :: 'x' :: ')' :: emptyCalls count)) :
    Follows limit (fun m s' => s'.Onto [] .endOfFile [] ∧
      ∃ n, s'.table.form? m = some (.expressionStatement n) ∧ s'.table.CallsAssignment count n)
      (statement (.within (depth + 3)) s) := by
  obtain ⟨s1, passed, onto1, _⟩ := onto.advance (.openBracket _)
  obtain ⟨k, later, next, atNext⟩ := next_emptyCalls count
  have starts : s.scanner.token.kind.StartsOperand := onto.kind ▸ ⟨rfl, by simp⟩
  have inside : Follows limit (fun a s' => s'.Onto [] (.punctuator .closeParen) (emptyCalls count) ∧
      s'.table.AssignsPattern a) (expression (.within (depth + 2)) true s1) :=
    expression_of_assignment (assignment_of_array onto1) fun _ _ holds => by simp [holds.1.kind]
  have enclosed :
    Follows limit (fun e s' => s'.AtCalls count ∧ ∃ a, s'.table.form? e = some (.parenthesized a) ∧
      s'.table.AssignsPattern a) (primary (.within (depth + 2)) s) := by
    refine (primary_of_expression onto passed inside (fun _ _ holds => holds.1) next).imp ?_
    rintro e s' ⟨a, s2, ⟨_, assigns⟩, keeps, onto', isEnclosed⟩
    exact ⟨atNext s' onto', a, isEnclosed, assigns.preserved keeps⟩
  have called : Follows limit (Ended fun n s' => s'.Onto [] (.punctuator .semicolon) [] ∧
      s'.table.CallsAssignment count n) (leftHandSide (.within (depth + 2)) s) := by
    refine (leftHandSide_called starts enclosed fun _ _ holds => holds.1).imp ?_
    rintro n s' ⟨⟨onto', e, s2, ⟨_, a, isEnclosed, assigns⟩, keeps, calls⟩, ends⟩
    exact ⟨⟨onto', e, a, calls, keeps.form? isEnclosed, assigns.preserved keeps⟩, ends⟩
  have single := assignment_of_leftHandSide starts called
    (fun _ _ holds => by rw [holds.1.kind]; rfl) true
  have whole : Follows limit (Ended fun n s' => s'.Onto [] (.punctuator .semicolon) [] ∧
      s'.table.CallsAssignment count n) (expression (.within (depth + 3)) true s) :=
    expression_of_assignment single fun _ _ holds => by simp [holds.1.1.kind]
  refine (statement_of_expression onto whole fun _ _ holds => holds.1.1).imp ?_
  rintro m s' ⟨n, s2, ⟨⟨_, calls⟩, _⟩, keeps, onto', isStatement⟩
  exact ⟨onto', n, isStatement, calls.preserved keeps⟩

end Grammar

/-- The text parses, and its only statement calls the assignment. -/
lemma Parsed.calls_of_onto {text : Text} {count : Nat} (onto : (Reading.start text).Onto []
      (.punctuator .openParen) ('[' :: 'a' :: ']' :: ' ' :: '=' :: ' ' :: 'x' :: ')' ::
        emptyCalls count)) : (Parsed.ofText text).hasErrors = false ∧ ∃ m n,
      (Parsed.ofText text).table.form? (Parsed.ofText text).root = some (.program [m]) ∧
      (Parsed.ofText text).table.form? m = some (.expressionStatement n) ∧
      (Parsed.ofText text).table.CallsAssignment count n := by
  have reads : Follows False (fun m s' => s'.Onto [] .endOfFile [] ∧ ∃ n,
      s'.table.form? m = some (.expressionStatement n) ∧ s'.table.CallsAssignment count n)
      ((Productions.within maxParseDepth).statement (Reading.start text)) :=
    Grammar.statement_calls (maxParseDepth - 4) onto
  rcases Parsed.single_of_follows (by simp [onto.kind]) reads (fun _ _ holds => holds.1) with
    ⟨impossible, _⟩ | ⟨clean, m, s, ⟨_, n, isStatement, calls⟩, keeps, isProgram⟩
  · exact impossible.elim
  · exact ⟨by simp [Parsed.hasErrors, clean], m, n, isProgram, keeps.form? isStatement,
      calls.preserved keeps⟩

lemma calledAssignment_parsed (count : Nat) :
    (Parsed.ofText (calledAssignment count)).hasErrors = false ∧
    ∃ m n, (Parsed.ofText (calledAssignment count)).table.form?
      (Parsed.ofText (calledAssignment count)).root =
        some (.program [m]) ∧
      (Parsed.ofText (calledAssignment count)).table.form? m = some (.expressionStatement n) ∧
      (Parsed.ofText (calledAssignment count)).table.CallsAssignment count n :=
  Parsed.calls_of_onto (Reading.start_onto (.openParen _)).1

/-- The pass does not get to the assignment if it is called too often. -/
lemma lowered_calledAssignment {count : Nat} (long : maxTreeDepth ≤ count + 2) :
    lowered (Lowering.passPlan (String.ofList (calledAssignment count))) = [] := by
  obtain ⟨_, m, n, isProgram, isStatement, e, a, calls, _⟩ := calledAssignment_parsed count
  unfold Lowering.passPlan
  rw [String.toList_ofList]
  generalize (Parsed.ofText (calledAssignment count)).table = t at *
  generalize (Parsed.ofText (calledAssignment count)).root = root at *
  have chain (depth : Nat) (short : depth ≤ count) :
      lowered (t.planWithin depth false (some n)) = [] :=
    calls.lowered_planWithin short false
  have statement (depth : Nat) : t.planWithin (depth + 1) false (some m) = t.planWithin depth false
      (some n) := by
    rw [planWithin, isStatement]
    simp [Step.ofForm, Step.walks, Step.actions, Form.children]
  have program (depth : Nat) : t.planWithin (depth + 1) false (some root) = t.planWithin depth false
      (some m) := by
    rw [planWithin, isProgram]
    simp [Step.ofForm, Step.walks, Step.actions, Form.children]
  obtain ⟨depth, deep⟩ : ∃ depth, maxTreeDepth = depth + 1 + 1 := ⟨498, rfl⟩
  rw [plan, isProgram, lowered_append, deep, program, statement, chain depth (by omega)]
  rfl

/-- A text whose output is the text itself and which is not reported on, although a pattern in it is
assigned to that is not replaced. -/
def PassedOver (file source : String) (options : Options) : Prop :=
  (lower file source options).output = some source ∧ (lower file source options).diagnostics = [] ∧
    ∃ a n value, (Parsed.ofText source.toList).table.form? a = some (.assignment n .plain value) ∧
      (Parsed.ofText source.toList).table.IsSite n ∧ ¬ Lowering.Completes file source options n

lemma calledAssignment_passedOver (file : String) (options : Options) {count : Nat}
    (long : maxTreeDepth ≤ count + 2) :
    PassedOver file (String.ofList (calledAssignment count)) options := by
  obtain ⟨clean, m, n, _, _, e, a, _, _, p, value, elements, isAssignment, isPattern⟩ :=
    calledAssignment_parsed count
  have none := lowered_calledAssignment long
  have same : (String.ofList (calledAssignment count)).toList = calledAssignment count :=
    String.toList_ofList
  generalize String.ofList (calledAssignment count) = source at *
  rw [← same] at clean isAssignment isPattern
  obtain ⟨noReports, _, output⟩ : (lower file source options).diagnostics = [] ∧
      (lower file source options).edits = 0 ∧ (lower file source options).output = some source :=
    Lowering.unchanged_of_no_sites clean none
  have site : (Parsed.ofText source.toList).table.IsSite p := by
    refine Table.isSite_of_parent (Lowering.tree_of_clean clean).tidy ?_ ?_ isAssignment rfl
    · simp [Table.isPattern, isPattern, Form.isPattern, Form.isArrayPattern]
    · exact Table.mem_children_of_form isAssignment (by simp [Form.children])
  refine ⟨output, noReports, a, p, value, isAssignment, site, ?_⟩
  rintro ⟨before, retain, after, plan, _⟩
  simp [plan, lowered, Action.site?] at none

/-- The walk does not reach the assignment `[a] = x` under five hundred calls, and nobody is
told. -/
theorem deep_call_chain_passed_over :
    PassedOver "test.js" (String.ofList (calledAssignment 500)) .default :=
  calledAssignment_passedOver "test.js" .default (by decide)

end PatternLowering

import PatternLowering.Proofs.ParseTrees

/-!
# Texts are read to their end

Reading a text stops at its end or with an error. Every iteration of a loop that goes on passes a
token, so that no loop meets its bound, and a statement takes all tokens from its first to its last
one. Where nothing was reported, no token is left over.
-/

namespace PatternLowering

open Parse ParseState

/-- On the way to `s'` at least one token was passed. -/
structure ParseState.Consumed (s s' : ParseState) : Prop where
  tokens : ∃ tokens, tokens ≠ [] ∧ s.scanner.Passes tokens s'.scanner
  forward : s.here < s'.here

lemma ParseState.Holds.consumed {text : Text} {s0 s : ParseState} {slots : List (Role × NodeId)}
    (holds : Holds text s0 true slots s) : s0.Consumed s := by
  have passed := holds.passed rfl
  obtain ⟨tokens, trail⟩ := holds.trail
  refine ⟨⟨tokens, ?_, trail.passes⟩, passed.trans_le holds.ready.behind⟩
  rintro rfl
  rcases trail.last with ⟨same, _⟩ | ⟨token, isLast, _⟩
  · exact absurd holds.base.behind (Nat.not_le_of_lt (same ▸ passed))
  · cases isLast

namespace Parse

variable {α : Type} {text : Text} {s1 : ParseState}

/-- Where the step gives something for a loop to go on with, a token was passed. -/
def Consumes (text : Text) (step : Parse (Option α)) : Prop :=
  ∀ s, s.Ready text → Yields s step fun next s' => next.isSome → s.Consumed s'

lemma Consumes.of_made {step : Parse (Option α)} {made : α → List (Role × NodeId)}
    (body : ∀ s1, Meets (Starting text s1) step (Made text s1 made)) :
    Consumes text step := by
  intro s ready next s' ran more
  have made := (body s).ok ⟨rfl, ready⟩ ran
  cases next with
  | none => cases more
  | some a => exact Holds.consumed made

/-- The step ends the loop, or goes on behind a token. -/
lemma Consumes.of_meets {step : Parse (Option α)}
    (body : ∀ s1, Meets (Starting text s1) step
      fun next s => next.isSome → s1.Consumed s) : Consumes text step :=
  fun s ready _ _ ran => (body s).ok ⟨rfl, ready⟩ ran

/-- Adding a node does not read on. -/
lemma meets_finish_consumed {slots : List (Role × NodeId)} (start : Nat) (form : Form) :
    Meets (Holds text s1 true slots) (finish start form) fun _ => s1.Consumed := by
  intro s holds
  exact ⟨holds.consumed.tokens, holds.consumed.forward⟩

end Parse

namespace Grammar

variable {text : Text} {inner : Productions} {s1 : ParseState}

lemma memberAccess_consumes (sound : inner.Sound text) (start : Nat) (object : NodeId) :
    Meets (Starting text s1) (memberAccess inner start object)
      fun _ => s1.Consumed := by
  refine .first_accept (by simp) ?_ fun _ => ?_
  · have name : Makes text word .word := word_makes fun _ => rfl
    exact name.meets.next <| meets_finish_consumed _ _
  · exact .begin ((meets_expect (by simp)).next <| (expression_makes sound true).meets.next <|
      (meets_expect (by simp)).next <| meets_finish_consumed _ _)

/-- The loops of the grammar, each in its production: every iteration that goes on passes a
token. -/
structure LoopsConsume (text : Text) (inner : Productions) : Prop where
  objectPattern : ∃ item, Consumes text item ∧ objectPattern inner = do
    let start ← here
    expectPunctuator .openBrace
    let properties ← many item
    advance
    finish start (.objectPattern properties)
  arrayPattern : ∃ item, Consumes text item ∧ arrayPattern inner = do
    let start ← here
    expectPunctuator .openBracket
    let elements ← many item
    advance
    finish start (.arrayPattern elements)
  block : ∃ item, Consumes text item ∧ block inner = do
    let start ← here
    expectPunctuator .openBrace
    let statements ← many item
    advance
    finish start (.block statements)
  parameters : ∃ item, Consumes text item ∧ ∀ name, signatureAndBody inner name = do
    expectPunctuator .openParen
    let parameters ← many item
    advance
    let body ← Grammar.block inner
    return ⟨name, parameters, body⟩
  sequence : ∀ allowIn, ∃ item, Consumes text item ∧ expression inner allowIn = do
    let start ← here
    let first ← inner.assignment allowIn
    if !(← isAtPunctuator .comma) then return first
    let later ← many item
    finish start (.sequence (first :: later))
  callArguments : ∃ item, Consumes text item ∧ callArguments inner = do
    expectPunctuator .openParen
    let arguments ← many item
    advance
    return arguments
  arrayLiteral : ∃ item, Consumes text item ∧ arrayLiteral inner = do
    let start ← here
    expectPunctuator .openBracket
    let elements ← many item
    advance
    finish start (.arrayLiteral elements)
  objectLiteral : ∃ item, Consumes text item ∧ objectLiteral inner = do
    let start ← here
    expectPunctuator .openBrace
    let properties ← many item
    advance
    finish start (.objectLiteral properties)
  constructed : ∃ access : Nat → NodeId → Parse (Option NodeId),
    (∀ start callee, Consumes text (access start callee)) ∧ construct inner = do
      let start ← here
      advance
      let calleeStart ← here
      let first ← if ← isAtKeyword .newKw then inner.construct else primary inner
      let callee ← iterate first (access calleeStart)
      let arguments ← if ← isAtPunctuator .openParen then Grammar.callArguments inner else pure []
      finish start (.construct callee arguments)
  accesses : ∃ access : Nat → NodeId → Parse (Option NodeId),
    (∀ start callee, Consumes text (access start callee)) ∧ leftHandSide inner = do
      let start ← here
      let first ← if ← isAtKeyword .newKw then construct inner else primary inner
      iterate first (access start)
  operators : ∀ allowIn minimum, ∃ operand : Nat → NodeId → Parse (Option NodeId),
    (∀ start left, Consumes text (operand start left)) ∧ binary inner allowIn minimum = do
      let start ← here
      let first ← unary inner
      iterate first (operand start)
  declarators : ∀ declared allowIn, ∃ item, Consumes text item ∧
    declarationList inner declared allowIn = do
      let start ← here
      advance
      let first ← declarator inner allowIn
      let later ← many item
      finish start (.declarationList declared (first :: later))
  clause : ∃ item, Consumes text item ∧ caseClause inner = do
    let start ← here
    let test ← caseTest? inner
    expectPunctuator .colon
    let statements ← many item
    finish start (.caseClause test statements)
  clauses : ∃ item, Consumes text item ∧ switchStatement inner = do
    let start ← here
    advance
    let subject ← inParens inner
    expectPunctuator .openBrace
    let clauses ← many item
    advance
    finish start (.switchStatement subject clauses)
  program : ∀ s, s.Ready text → Yields s inner.statement fun _ => s.Consumed

lemma loopsConsume (sound : inner.Sound text) : LoopsConsume text inner where
  objectPattern :=
    ⟨_, .of_made (Collects.until rfl ((bindingProperty_makes sound).separated _)), rfl⟩
  arrayPattern := by
    refine ⟨_, .of_meets fun s1 => ?_, rfl⟩
    refine .first rfl (.ite (fun _ => .pure fun s h => by simp) fun _ => ?_)
    refine .first_accept (by simp) (.pure fun s holds _ => holds.consumed) fun _ => ?_
    refine .first rfl (.ite (fun isRest => ?_) fun _ => ?_)
    · have isRest : s1.scanner.token.kind = .punctuator .ellipsis := by simpa using isRest
      exact (restBinding_meets sound (by simp [isRest])).next <|
        .pure fun s h _ => h.1.consumed
    · exact (sound.binding s1).next <| refuseDefault_meets.next <|
        (meets_separator _).next <| .pure fun s holds _ => holds.consumed
  block := by
    refine ⟨_, .of_made (Collects.until rfl (?_ : Collects text _ .statement)), rfl⟩
    refine fun s1 => .first rfl (.ite (fun _ => ?_) fun _ => ?_)
    · exact .begin ((meets_expect (by simp)).next <| sound.statement.meets.next <|
        .pure fun _ => id)
    · exact sound.statement.collects s1
  parameters :=
    ⟨_, .of_made (Collects.until rfl (parameter_makes sound).collects), fun _ => rfl⟩
  sequence allowIn := ⟨_, .of_made (sound.assignment allowIn).afterComma, rfl⟩
  callArguments := by
    refine ⟨_, .of_made (Collects.until rfl (?_ : Collects text _ .expression)), rfl⟩
    refine fun s1 => .first rfl (.ite (fun _ => (meets_first_fail _).stop) fun _ => ?_)
    exact (sound.assignment true).separated _ s1
  arrayLiteral := by
    refine ⟨_, .of_meets fun s1 => ?_, rfl⟩
    refine .first rfl (.ite (fun _ => .pure fun s h => by simp) fun _ => ?_)
    refine .first_accept (by simp) (.pure fun s holds _ => holds.consumed) fun _ => ?_
    exact (arrayElement_makes sound s1).next <| (meets_separator _).next <|
      .pure fun s holds _ => holds.consumed
  objectLiteral :=
    ⟨_, .of_made (Collects.until rfl ((objectProperty_makes sound).separated _)), rfl⟩
  constructed := by
    refine ⟨_, fun start callee => .of_meets fun s1 => ?_, rfl⟩
    refine .glance rfl <| .ite (fun _ => ?_) fun _ => .pure (by simp)
    exact (memberAccess_consumes sound start callee).next <| .pure fun s consumed _ => consumed
  accesses := by
    refine ⟨_, fun start callee => .of_meets fun s1 => ?_, rfl⟩
    refine .glance rfl <| .ite (fun _ => ?member) fun _ =>
      .first rfl (.ite (fun _ => ?call) fun _ => .pure (by simp))
    case member =>
      exact (memberAccess_consumes sound start callee).next <| .pure fun s consumed _ => consumed
    case call =>
      exact .begin ((callArguments_meets sound).next <| (meets_finish_consumed _ _).next <|
        .pure fun s consumed _ => consumed)
  operators allowIn minimum := by
    refine ⟨_, fun start left => .of_meets fun s1 => ?_, rfl⟩
    refine (tighterOp?_meets allowIn minimum).bind fun op => ?_
    cases op with
    | none => exact .pure (by simp)
    | some op =>
      exact .begin (meets_advance.next <| (sound.binary allowIn op.precedence).meets.next <|
        (meets_finish_consumed _ _).next <| .pure fun s consumed _ => consumed)
  declarators declared allowIn := ⟨_, .of_made (declarator_makes sound allowIn).afterComma, rfl⟩
  clause := ⟨_, .of_made (Collects.until rfl sound.statement.collects), rfl⟩
  clauses := ⟨_, .of_made (Collects.until rfl (caseClause_makes sound).collects), rfl⟩
  program s ready := fun _ _ ran => ((sound.statement s).ok ⟨rfl, ready⟩ ran).consumed

end Grammar

namespace Parse

/-- Where the step succeeds, its node starts at `start` and stops with the last token passed. -/
def Spans (start : Nat) (p : Parse NodeId) : Prop :=
  ∀ s, Yields s p fun n s' => ∃ node, s'.table.get? n = some node ∧ node.start = start ∧
    node.stop = max s'.lastStop start

namespace Spans

variable {α : Type} {start : Nat}

lemma finish (start : Nat) (form : Form) : Spans start (finish start form) := by
  rintro _ _ _ ⟨⟩
  exact ⟨_, Table.get?_add_self .., rfl, rfl⟩

lemma bind {p : Parse α} {f : α → Parse NodeId} (later : ∀ {a}, Spans start (f a)) :
    Spans start (p >>= f) :=
  fun _ => .bind (Q := fun _ _ => True) (fun _ _ _ => trivial) fun _ s' _ => later s'

variable {c : Prop}

lemma ite [Decidable c] {p q : Parse NodeId} (yes : Spans start p) (no : Spans start q) :
    Spans start (if c then p else q) := by
  split
  · exact yes
  · exact no

/-- Two ways to get what the following steps need. -/
lemma join [Decidable c] {p q : Parse α} {f : α → Parse NodeId} (later : ∀ {a}, Spans start (f a)) :
    Spans start (if c then p >>= f else q >>= f) := .ite (.bind later) (.bind later)

/-- A part that may be missing. -/
lemma optional [Decidable c] {p : Parse α} {f : Option α → Parse NodeId}
    (later : ∀ {found}, Spans start (f found)) :
    Spans start (if c then p >>= fun a => pure (some a) >>= f else pure none >>= f) :=
  .ite (.bind <| .bind later) (.bind later)

end Spans

/-- The node of the production takes all tokens from the first to the last one passed. -/
def TakesAll (p : Parse NodeId) : Prop := ∀ s, Yields s p fun n s' =>
  ∃ node, s'.table.get? n = some node ∧ node.start = s.here ∧ node.stop = max s'.lastStop s.here

lemma TakesAll.start {p : Nat → Parse NodeId} (spans : ∀ {start}, Spans start (p start)) :
    TakesAll (here >>= p) := fun s => .look rfl (spans s)

end Parse

namespace Grammar

variable {inner : Productions}

lemma block_takesAll : TakesAll (block inner) :=
  .start <| .bind <| .bind <| .bind <| .finish _ _

lemma ifStatement_takesAll : TakesAll (ifStatement inner) :=
  .start <| .bind <| .bind <| .bind <| .bind <|
    .optional <| .finish _ _

lemma forEach_spans (start : Nat) (head : NodeId) (isOf : Bool) :
    Spans start (forEach inner start head isOf) :=
  .bind <| .bind <| .join <| .bind <| .bind <| .finish _ _

lemma forClauses_spans (start : Nat) (first : Option NodeId) :
    Spans start (forClauses inner start first) :=
  .bind <| .bind <| .bind <| .bind <| .finish _ _

lemma forStatement_takesAll : TakesAll (forStatement inner) := by
  refine .start fun {start} => .bind <| .bind <| .bind fun {first} => ?_
  cases first with
  | none => exact forClauses_spans start none
  | some head =>
    exact .bind <| .ite (forEach_spans start head false)
      (.bind <| .ite (forEach_spans start head true) (forClauses_spans start (some head)))

lemma switchStatement_takesAll : TakesAll (switchStatement inner) :=
  .start <| .bind <| .bind <| .bind <| .bind <| .bind <|
    .finish _ _

lemma tryStatement_takesAll : TakesAll (tryStatement inner) :=
  .start <| .bind <| .bind <| .bind <| .optional <| .bind <|
    .optional <| .ite (.bind <| .finish _ _) (.finish _ _)

lemma whileStatement_takesAll : TakesAll (whileStatement inner) :=
  .start <| .bind <| .bind <| .bind <| .finish _ _

lemma withStatement_takesAll : TakesAll (withStatement inner) :=
  .start <| .bind <| .bind <| .bind <| .finish _ _

lemma doStatement_takesAll : TakesAll (doStatement inner) :=
  .start <| .bind <| .bind <| .bind <| .bind <| .bind <|
    .finish _ _

lemma returnStatement_takesAll : TakesAll (returnStatement inner) :=
  .start <| .bind <| .bind <|
    .ite (.bind <| .bind <| .finish _ _)
      (.bind <| .bind <| .bind <| .finish _ _)

lemma throwStatement_takesAll : TakesAll (throwStatement inner) := by
  have thrown (start : Nat) : Spans start (do
      let value ← expression inner true
      endStatement
      finish start (.throwStatement value)) := .bind <| .bind <| .finish _ _
  exact .start fun {start} => .bind <| .bind <|
    .ite (.bind <| thrown start) (thrown start)

lemma jumpStatement_takesAll (form : Option NodeId → Form) : TakesAll (jumpStatement form) :=
  .start <| .bind <| .bind <|
    .optional <| .bind <| .finish _ _

lemma expressionStatement_takesAll : TakesAll (expressionStatement inner) :=
  .start <| .bind <| .bind <| .bind <|
    .ite (.bind <| .bind <| .finish _ _) (.bind <| .finish _ _)

lemma statement_takesAll : TakesAll (statement inner) := by
  intro s
  have ended (form : Form) : Spans s.here (do endStatement; finish s.here form) :=
    .bind <| .finish _ _
  refine .look rfl (.look rfl ?_)
  split
  · exact Spans.bind (ended _) s
  · split
    · exact block_takesAll s
    · exact Spans.bind (.finish _ _) s
    · exact Spans.bind (.finish _ _) s
    · exact ifStatement_takesAll s
    · exact forStatement_takesAll s
    · exact switchStatement_takesAll s
    · exact tryStatement_takesAll s
    · exact whileStatement_takesAll s
    · exact returnStatement_takesAll s
    · exact doStatement_takesAll s
    · exact withStatement_takesAll s
    · exact throwStatement_takesAll s
    · exact jumpStatement_takesAll _ s
    · exact jumpStatement_takesAll _ s
    · exact Spans.bind (ended .debuggerStatement) s
    · exact expressionStatement_takesAll s

end Grammar

/-- The end of the file is where the text ends. -/
lemma Scanner.Run.start_of_endOfFile {text : Text} {s : Scanner} (run : s.Run text)
    (isEnd : s.token.kind = .endOfFile) : s.token.start = text.size := by
  have settled {c : Cursor} (inside : c.In text) (isEnd : (Lexeme.read c).kind = .endOfFile) :
      c.offset = text.size := by
    have := inside.offset_add
    rwa [(Lexeme.found_read c).rest_of_endOfFile isEnd] at this
  induction run with
  | first => exact settled ((Cursor.in_atStart text).of_reaches (Gap.reaches_skip _)) isEnd
  | scan before _ =>
    exact settled (before.stands.closing_in.of_reaches (Gap.reaches_skip _)) isEnd
  | @rescanSlash s before ih =>
    rcases s.rescanSlash_cases with isRegex | same
    · cases isEnd.symm.trans isRegex
    · rw [same] at isEnd ⊢
      exact ih isEnd
  | takeFaults _ ih => exact ih isEnd

/-- The token lies in the range of one of the nodes. -/
def Table.Encloses (t : Table) (ns : List NodeId) (token : Token) : Prop :=
  ∃ n ∈ ns, ∃ node, t.get? n = some node ∧ node.start ≤ token.start ∧ token.stop ≤ node.stop

namespace Reading

variable {text : Text} {inner : Productions} {s0 s s' : ParseState}

/-- All tokens of the text were read, each as part of a statement. -/
structure Whole (text : Text) (reading : Reading) : Prop where
  finished : reading.halt = none
  ended : reading.state.scanner.token.kind = .endOfFile
  size : reading.state.scanner.token.start = text.size
  tokens : ∃ tokens, (start text).scanner.Passes tokens reading.state.scanner ∧
    ∀ token ∈ tokens, reading.state.table.Encloses reading.statements.toList token

/-- The tokens of a statement. -/
lemma encloses_statement {n : NodeId} (made : Holds text s true [(.statement, n)] s')
    (spans : ∃ node, s'.table.get? n = some node ∧ node.start = s.here ∧
      node.stop = max s'.lastStop s.here) {tokens : List Token} (trail : s.Trail tokens s') :
    ∀ token ∈ tokens, s'.table.Encloses [n] token := by
  obtain ⟨node, found, start, stop⟩ := spans
  obtain ⟨ordered, _, inside⟩ := trail.passes.ordered made.base.scanner
  have passed := made.passed rfl
  intro token mem
  refine ⟨n, List.mem_singleton_self n, node, found, start.trans_le (inside token mem).1, ?_⟩
  rcases trail.last with ⟨_, rfl⟩ | ⟨last, isLast, lastStop⟩
  · cases mem
  obtain ⟨before, rfl⟩ := List.getLast?_eq_some_iff.mp isLast
  have wide := (inside last (by simp)).2.1
  rw [stop, max_eq_left passed.le, ← lastStop]
  rcases List.mem_append.mp mem with mem | mem
  · exact ((List.pairwise_append.mp ordered).2.2 token mem last (by simp)).trans wide
  · rw [List.mem_singleton.mp mem]

/-- Reading on from `s` gets to the end of the text or stops at a reported error. -/
lemma continueWithin_whole {found : Array NodeId} {bound : Nat} {tokens : List Token}
    (sound : inner.Sound text) (takesAll : TakesAll inner.statement) (ready : s.Ready text)
    (enough : text.size < s.here + bound) (passes : (start text).scanner.Passes tokens s.scanner)
    (covered : ∀ token ∈ tokens, s.table.Encloses found.toList token) :
    let reading := continueWithin inner bound found s
    (reading.halt = some .reported ∧ reading.state.faults ≠ []) ∨ reading.Whole text := by
  induction bound generalizing found s tokens with
  | zero =>
    have stands := ready.scanner.stands
    exact absurd enough (Nat.not_lt.mpr (stands.start_le_stop.trans stands.stop_le_size))
  | succ bound ih =>
    rw [continueWithin]
    split
    · rename_i isEnd
      exact .inr ⟨rfl, isEnd, ready.scanner.start_of_endOfFile isEnd, tokens, passes, covered⟩
    · cases ran : inner.statement s with
      | error halt s' =>
        obtain ⟨rfl, reported⟩ := (sound.statement s).error ⟨rfl, ready⟩ ran
        exact .inl ⟨rfl, reported⟩
      | ok n s' =>
        have made := (sound.statement s).ok ⟨rfl, ready⟩ ran
        have further := made.consumed.forward
        obtain ⟨tokens', trail⟩ := made.trail
        refine ih made.ready (by omega) (passes.trans trail.passes) fun token mem => ?_
        rcases List.mem_append.mp mem with mem | mem
        · obtain ⟨m, isStatement, node, isNode, range⟩ := covered token mem
          refine ⟨m, by simp [isStatement], node, ?_, range⟩
          rw [made.frame (Table.lt_size isNode), isNode]
        · obtain ⟨m, isLast, range⟩ := encloses_statement made (takesAll s n s' ran) trail token mem
          exact ⟨m, by simp [List.mem_singleton.mp isLast], range⟩

lemma ofText_whole (text : Text) :
    ((ofText text).halt = some .reported ∧ (ofText text).state.faults ≠ []) ∨
      (ofText text).Whole text :=
  continueWithin_whole (Productions.within_sound text _) Grammar.statement_takesAll
    (ready_start text) (by omega) .refl (by simp)

end Reading

/-- Reading a text is never cut short: no loop meets its bound, since each iteration passes a token,
and without an error every token up to the end of the text belongs to a statement. So there is no
output for a file of which a part was not read. -/
theorem text_is_read_whole_or_reported (source : String) :
    (Reading.ofText source.toList).halt ≠ some .exhausted ∧
      (∀ depth, Grammar.LoopsConsume source.toList (.within depth)) ∧
      ((Parsed.ofText source.toList).hasErrors = true ∨
        (Reading.ofText source.toList).Whole source.toList) ∧
      ∀ file options, (lower file source options).output = none ∨
        (Reading.ofText source.toList).Whole source.toList := by
  have loops (depth : Nat) := Grammar.loopsConsume (Productions.within_sound source.toList depth)
  rcases Reading.ofText_whole source.toList with ⟨reported, faults⟩ | whole
  · have errors : (Parsed.ofText source.toList).hasErrors = true := by
      simpa [Parsed.hasErrors, Parsed.ofText, Reading.toParsed] using faults
    have refused : (Reading.ofText source.toList).toParsed.hasErrors = true := errors
    exact ⟨by simp [reported], loops, .inl errors,
      fun file options => .inl (by simp [lower, Lowering.ofReading, refused])⟩
  · exact ⟨by simp [whole.finished], loops, .inr whole, fun file options => .inr whole⟩

end PatternLowering

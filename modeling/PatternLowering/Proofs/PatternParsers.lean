import PatternLowering.Proofs.Consumption
import PatternLowering.Proofs.PatternReadings

/-!
# Declared and assigned patterns

There are two ways to read a pattern. In a declaration its brackets open a pattern from the start;
on the left of an assignment it is read as a literal, which turns into a pattern at the equals sign.
Both ways lead to the same nodes. What stands before and behind the pattern is read token by token.
-/

namespace PatternLowering

open List Parse ParseState Table EStateM Reading

/-! ### Known tokens -/

/-- The text starts with a token of the kind `k`, and `later` comes behind it. -/
def Text.Next (text : Text) (k : TokenKind) (later : Text) : Prop :=
  ∀ offset, (Gap.skip ⟨offset, text⟩).openComment = none ∧
    (Lexeme.read (Gap.skip ⟨offset, text⟩).stop).kind = k ∧
    (Lexeme.read (Gap.skip ⟨offset, text⟩).stop).stop.rest = later ∧
    (Lexeme.read (Gap.skip ⟨offset, text⟩).stop).error = none

lemma Cursor.textUpTo_skipWhile {offset : Nat} {p : Char → Bool} {taken later : Text}
    (stops : (skipWhile ⟨offset, taken ++ later⟩ p).rest = later) :
    textUpTo ⟨offset, taken ++ later⟩ (skipWhile ⟨offset, taken ++ later⟩ p) = taken := by
  obtain ⟨taken', cut, reached⟩ := reaches_skipWhile ⟨offset, taken ++ later⟩ p
  rw [stops] at cut
  obtain rfl : taken = taken' := append_cancel_right cut
  rw [textUpTo, reached, Nat.add_sub_cancel_left, Text.take?_append]
  rfl

namespace Lexeme

lemma read_word {offset : Nat} {first : Char} (taken : Text) {later : Text}
    (starts : isNameStart first = true)
    (stops : (Cursor.skipWhile ⟨offset, (first :: taken) ++ later⟩ isNamePart).rest = later) :
    (read ⟨offset, (first :: taken) ++ later⟩).kind =
        (Keyword.ofSpelling? (String.ofList (first :: taken))).elim .identifier .keyword ∧
      (read ⟨offset, (first :: taken) ++ later⟩).stop.rest = later ∧
      (read ⟨offset, (first :: taken) ++ later⟩).error = none := by
  have isWord :
      read ⟨offset, (first :: taken) ++ later⟩ = word ⟨offset, (first :: taken) ++ later⟩ :=
    if_pos starts
  rw [isWord, word_stop, stops]
  unfold word
  dsimp only
  rw [Cursor.textUpTo_skipWhile stops]
  cases Keyword.ofSpelling? (String.ofList (first :: taken)) <;> exact ⟨rfl, rfl, rfl⟩

end Lexeme

namespace Text.Next

lemma var (later : Text) :
    Next ('v' :: 'a' :: 'r' :: ' ' :: later) (.keyword .varKw) (' ' :: later) := by
  intro offset
  exact ⟨rfl, Lexeme.read_word ['a', 'r'] (by decide) rfl⟩

lemma name {c : Char} (later : Text) (ends : isNamePart c = false) :
    Next (' ' :: 'x' :: c :: later) .identifier (c :: later) := by
  intro offset
  refine ⟨rfl, Lexeme.read_word [] (by decide) ?_⟩
  change (Cursor.skipWhileFrom isNamePart _ ('x' :: c :: later)).rest = _
  rw [Cursor.skipWhileFrom, if_pos (by decide), Cursor.skipWhileFrom, if_neg (by simp [ends])]

lemma assign (later : Text) :
    Next (' ' :: '=' :: ' ' :: later) (.punctuator .assign) (' ' :: later) :=
  fun _ => ⟨rfl, rfl, rfl, rfl⟩

lemma openParen (later : Text) : Next ('(' :: later) (.punctuator .openParen) later :=
  fun _ => ⟨rfl, rfl, rfl, rfl⟩

lemma closeParen (later : Text) : Next (')' :: later) (.punctuator .closeParen) later :=
  fun _ => ⟨rfl, rfl, rfl, rfl⟩

lemma semicolon (later : Text) : Next (';' :: later) (.punctuator .semicolon) later :=
  fun _ => ⟨rfl, rfl, rfl, rfl⟩

lemma endOfFile : Next [] .endOfFile [] := fun _ => ⟨rfl, rfl, rfl, rfl⟩

end Text.Next

/-- The parser stands on a token of the kind `k` with `rest` behind it, and knows of `faults`. -/
structure ParseState.Onto (faults : List SyntaxFault) (k : TokenKind) (rest : Text)
    (s : ParseState) : Prop where
  kind : s.scanner.token.kind = k
  rest : s.scanner.closing.rest = rest
  faults : s.faults = faults
  scanner : s.scanner.faults = []

namespace ParseState

variable {s : ParseState} {faults : List SyntaxFault} {k k' : TokenKind} {rest later : Text}

lemma advance_onto (next : Text.Next s.scanner.closing.rest k later) :
    ∃ s1, advance s = .ok () s1 ∧ s1.Onto (s.faults ++ s.scanner.faults) k later ∧
      s1.table = s.table := by
  obtain ⟨closed, kind, stop, noError⟩ := next s.scanner.closing.offset
  refine ⟨_, rfl, ⟨kind, stop, ?_, rfl⟩, rfl⟩
  have scanned : s.scanner.scan.faults = s.scanner.faults := by
    simp [Scanner.scan, Scanner.settle, closed, noError]
  change s.faults ++ s.scanner.scan.faults = _
  rw [scanned]

lemma Onto.advance (onto : s.Onto faults k rest) (next : rest.Next k' later) :
    ∃ s1, Parse.advance s = .ok () s1 ∧ s1.Onto faults k' later ∧ s1.table = s.table := by
  obtain ⟨s1, passed, onto', same⟩ := advance_onto (s := s) (onto.rest ▸ next)
  rw [onto.faults, onto.scanner, append_nil] at onto'
  exact ⟨s1, passed, onto', same⟩

lemma Onto.accept {p : Punctuator} (onto : s.Onto faults (.punctuator p) rest)
    (next : rest.Next k later) :
    ∃ s1, acceptPunctuator p s = .ok true s1 ∧ s1.Onto faults k later ∧ s1.table = s.table := by
  obtain ⟨s1, passed, onto', same⟩ := onto.advance next
  refine ⟨s1, ?_, onto', same⟩
  change (if s.scanner.token.kind = .punctuator p then _ else _ : Parse Bool) s = _
  rw [if_pos onto.kind, bind_of_ok passed]
  rfl

lemma Onto.expect {p : Punctuator} (onto : s.Onto faults (.punctuator p) rest)
    (next : rest.Next k later) :
    ∃ s1, expectPunctuator p s = .ok () s1 ∧ s1.Onto faults k later ∧ s1.table = s.table := by
  obtain ⟨s1, accepted, onto', same⟩ := onto.accept next
  refine ⟨s1, ?_, onto', same⟩
  have accepted' : Parse.accept (.punctuator p) s = .ok true s1 := accepted
  unfold expectPunctuator Parse.expect
  rw [bind_of_ok accepted']
  rfl

lemma Onto.finish (onto : s.Onto faults k rest) (start : Nat) (form : Form) :
    ∃ n s1, Parse.finish start form s = .ok n s1 ∧ s1.Onto faults k rest ∧
      s.table.Preserves s1.table ∧
      s1.table.form? n = some form :=
  ⟨_, _, rfl, ⟨onto.kind, onto.rest, onto.faults, onto.scanner⟩, keeps_add _ _ _,
    (at_add_self _ _ _).form?⟩

lemma Holds.keeps {text : Text} {s' : ParseState} {moved : Bool} {slots : List (Role × NodeId)}
    (holds : Holds text s moved slots s') : s.table.Preserves s'.table := by
  refine ⟨fun at_ => ?_⟩
  have := holds.frame at_.lt_size
  obtain ⟨parent, found⟩ := at_
  exact ⟨parent, this.trans found⟩

end ParseState

namespace Grammar

variable {text : Text} {inner : Productions} {s s1 s' : ParseState} {n : NodeId} {limit : Prop}
  {faults : List SyntaxFault} {k : TokenKind} {rest later : Text}

/-! ### The declaration -/

/-- The node that was finished at last, and all those before it. -/
lemma meets_finish_keeps {moved : Bool} {slots : List (Role × NodeId)} (start : Nat) (form : Form) :
    Meets (Holds text s moved slots) (finish start form)
      fun n s' => s.table.Preserves s'.table ∧ s'.table.form? n = some form := by
  intro s1 holds
  exact ⟨holds.keeps.trans (keeps_add _ _ _), (at_add_self _ _ _).form?⟩

/-- A declarator starts with the declared name, which stays what it is. -/
lemma declarator_cases {allowIn : Bool} (sound : inner.Sound text) (ready : s.Ready text)
    (ran : declarator inner allowIn s = .ok n s') :
    ∃ name s1, inner.binding s = .ok name s1 ∧ s1.table.Preserves s'.table ∧
      ∃ value, s'.table.form? n = some (.declarator name value) := by
  obtain ⟨_, _, looked, ran1⟩ := bind_eq_ok.mp ran
  cases looked
  obtain ⟨name, s1, isName, ran2⟩ := bind_eq_ok.mp ran1
  have named := (sound.binding s).ok ⟨rfl, ready⟩ isName
  have finish (value : Option NodeId) {moved : Bool} {slots : List (Role × NodeId)} :
      Meets (Holds text s1 moved slots) (finish s.here (.declarator name value)) fun n s' =>
        s1.table.Preserves s'.table ∧ ∃ value, s'.table.form? n = some (.declarator name value) :=
    (meets_finish_keeps _ _).post fun _ _ made => ⟨made.1, value, made.2⟩
  refine ⟨name, s1, isName, (?after : Meets (Holds text s1 false []) _ fun n s' =>
    s1.table.Preserves s'.table ∧
    ∃ value, s'.table.form? n = some (.declarator name value)).ok (.refl named.ready) ran2⟩
  exact (meets_accept (by simp)).bind fun _ => .ite
      (fun _ => (sound.assignment allowIn).meets.bind fun _ =>
    finish _) fun _ => finish none

/-- A list of declarators starts with the first one. -/
lemma declarationList_cases {declared : DeclarationKind} {allowIn : Bool} (sound : inner.Sound text)
    (ready : s.Ready text) (ran : declarationList inner declared allowIn s = .ok n s') :
    ∃ s1 first s2, advance s = .ok () s1 ∧ declarator inner allowIn s1 = .ok first s2 ∧
      s2.table.Preserves s'.table ∧ ∃ later, s'.table.form? n =
        some (.declarationList declared (first :: later)) := by
  obtain ⟨_, _, looked, ran1⟩ := bind_eq_ok.mp ran
  cases looked
  obtain ⟨_, s1, passed, ran2⟩ := bind_eq_ok.mp ran1
  obtain ⟨first, s2, isFirst, ran3⟩ := bind_eq_ok.mp ran2
  have makes := declarator_makes sound allowIn
  have made := (makes s1).ok ⟨rfl, (advance_ready ready passed).1⟩ isFirst
  refine ⟨s1, first, s2, passed, isFirst, (?after : Meets (Holds text s2 false []) _ fun n s' =>
    s2.table.Preserves s'.table ∧ ∃ later, s'.table.form? n =
    some (.declarationList declared (first :: later))).ok
      (.refl made.ready) ran3⟩
  exact makes.afterComma.meets.bind fun later =>
    (meets_finish_keeps _ _).post fun _ _ made => ⟨made.1, later, made.2⟩

/-- A statement that starts with the keyword of a declaration. -/
lemma statement_declares {declared : DeclarationKind} (sound : inner.Sound text)
    (ready : s.Ready text) (isDeclaration : declarationKind? s.scanner.token.kind = some declared)
    (ran : statement inner s = .ok n s') :
    ∃ list s1, declarationList inner declared true s = .ok list s1 ∧ s1.table.Preserves s'.table ∧
      s'.table.form? n = some (.variableStatement list) := by
  unfold statement at ran
  rw [here_bind, kind_bind, isDeclaration] at ran
  obtain ⟨list, s1, isList, ran1⟩ := bind_eq_ok.mp ran
  have makes : Makes text (declarationList inner declared true) .list :=
    declarationList_makes sound declared true fun _ => rfl
  have made := (makes s).ok ⟨rfl, ready⟩ isList
  refine ⟨list, s1, isList, (?after : Meets (Holds text s1 false []) _ fun n s' =>
    s1.table.Preserves s'.table ∧
    s'.table.form? n = some (.variableStatement list)).ok (.refl made.ready) ran1⟩
  exact meets_endStatement.bind fun _ => meets_finish_keeps _ _

/-- A single name as an expression. -/
lemma assignment_of_name (onto : s.Onto faults .identifier rest) (next : rest.Next k later)
    (ends : k.EndsOperand) (noOperator : AssignmentOp.ofToken? k = none) (allowIn : Bool) :
    Follows limit (fun n s' => s'.Onto faults k later ∧ s.table.Preserves s'.table ∧
      ∃ name, s'.table.form? n = some (.identifier name)) (assignment inner allowIn s) := by
  obtain ⟨s1, passed, onto1, same⟩ := onto.advance next
  have reads :
      Follows limit (Ended fun n s' => s'.Onto faults k later ∧ s.table.Preserves s'.table ∧
        ∃ name, s'.table.form? n = some (.identifier name)) (primary inner s) := by
    obtain ⟨n, s2, finished, onto2, keeps, found⟩ :=
      onto1.finish s.here (.identifier (String.ofList s.scanner.lexeme))
    rw [primary_named onto.kind, identifier_eq onto.kind, bind_of_ok passed, finished]
    exact ⟨⟨onto2, same ▸ keeps, _, found⟩, onto2.kind ▸ ends⟩
  refine (assignment_of_primary (onto.kind ▸ ⟨rfl, by simp⟩) reads
    (fun _ _ holds => ?_) allowIn).imp fun _ _ ended => ended.1
  rw [holds.1.kind]
  exact noOperator

lemma endsOperand_semicolon : (TokenKind.punctuator .semicolon).EndsOperand :=
  ⟨by simp, by simp, by simp, rfl, rfl, by simp⟩

/-- The semicolon at the end of the text. -/
lemma endStatement_onto (onto : s.Onto faults (.punctuator .semicolon) []) :
    ∃ s1, endStatement s = .ok () s1 ∧ s1.Onto faults .endOfFile [] ∧ s1.table = s.table := by
  obtain ⟨s1, accepted, onto1, same⟩ := onto.accept .endOfFile
  refine ⟨s1, ?_, onto1, same⟩
  unfold endStatement
  rw [bind_of_ok accepted]
  rfl

/-- An expression in parentheses. -/
lemma primary_of_expression {Q : NodeId → ParseState → Prop} {later' : Text}
    (onto : s.Onto [] (.punctuator .openParen) rest) (passed : advance s = .ok () s1)
    (inside : Follows limit Q (expression inner true s1))
    (ends : ∀ a s2, Q a s2 → s2.Onto [] (.punctuator .closeParen) later)
    (next : later.Next k later') :
    Follows limit (fun e s' => ∃ a s2, Q a s2 ∧ s2.table.Preserves s'.table ∧ s'.Onto [] k later' ∧
      s'.table.form? e = some (.parenthesized a)) (primary inner s) := by
  unfold primary
  rw [here_bind, kind_bind, onto.kind]
  dsimp only
  rw [bind_of_ok passed]
  refine inside.bind fun a s2 holds => ?_
  obtain ⟨s3, expected, onto3, table⟩ := (ends a s2 holds).expect next
  rw [bind_of_ok expected]
  obtain ⟨e, s4, finished, onto4, keeps, found⟩ := onto3.finish s.here (.parenthesized a)
  rw [finished]
  exact ⟨a, s2, holds, table ▸ keeps, onto4, found⟩

/-- An expression that starts with a parenthesis is a statement, up to the semicolon at the end of
the text. -/
lemma statement_of_expression {Q : NodeId → ParseState → Prop}
    (onto : s.Onto [] (.punctuator .openParen) rest)
    (reads : Follows limit Q (expression inner true s))
    (ends : ∀ e s1, Q e s1 → s1.Onto [] (.punctuator .semicolon) []) :
    Follows limit (fun m s' => ∃ e s1, Q e s1 ∧ s1.table.Preserves s'.table ∧
      s'.Onto [] .endOfFile [] ∧
      s'.table.form? m = some (.expressionStatement e)) (statement inner s) := by
  unfold statement
  rw [here_bind, kind_bind, onto.kind]
  change Follows limit _ (expressionStatement inner s)
  unfold expressionStatement
  rw [here_bind]
  refine reads.bind fun e s2 holds => ?_
  have onto2 := ends e s2 holds
  have noColon : isAtPunctuator .colon s2 = .ok false s2 := isAt_other (by simp [onto2.kind])
  rw [bind_of_ok noColon]
  obtain ⟨s3, ended, onto3, table⟩ := endStatement_onto onto2
  obtain ⟨m, s4, finished, onto4, keeps, found⟩ := onto3.finish s.here (.expressionStatement e)
  change Follows limit _ ((do endStatement; finish s.here (.expressionStatement e)) s2)
  rw [bind_of_ok ended, finished]
  exact ⟨e, s2, holds, table ▸ keeps, onto4, found⟩

lemma follows_many {α : Type} {Q : List α → ParseState → Prop} {step : Parse (Option α)}
    (holds : Q [] s) (done : step s = .ok none s) : Follows limit Q (many step s) := by
  refine (follows_iterate (Q := fun found s1 => found = #[] ∧ s1 = s) ⟨rfl, rfl⟩ ?_).bind ?_
  · rw [bind_of_ok done]
    rfl
  · rintro _ _ ⟨rfl, rfl⟩
    exact holds

section Declaration

variable {depth : Nat} {name : NodeId} {s2 : ParseState}
  (isName : (Productions.within (depth + 1)).binding s1 = .ok name s2)
  (onto : s2.Onto faults (.punctuator .assign) [' ', 'x', ';'])

include isName onto

/-- Behind the declared name, an equals sign and `x` are read without further faults. -/
lemma declarator_onto :
    Follows limit (fun _ s' => s'.Onto faults (.punctuator .semicolon) [])
      (declarator (.within (depth + 1)) true s1) := by
  obtain ⟨s3, accepted, onto3, _⟩ := onto.accept (.name [] (by decide))
  unfold declarator
  rw [here_bind, bind_of_ok isName,
    bind_of_ok accepted]
  refine (assignment_of_name onto3 (.semicolon []) endsOperand_semicolon rfl true).bind
    fun value s4 named => ?_
  obtain ⟨_, s5, finished, onto5, _⟩ := named.1.finish s1.here (.declarator name (some value))
  change Follows limit _ (finish s1.here (.declarator name (some value)) s4)
  rw [finished]
  exact onto5

lemma declarationList_onto (passed : advance s = .ok () s1) :
    Follows limit (fun _ s' => s'.Onto faults (.punctuator .semicolon) [])
      (declarationList (.within (depth + 1)) .var true s) := by
  unfold declarationList
  rw [here_bind, bind_of_ok passed]
  refine (declarator_onto isName onto).bind fun first s3 onto3 => ?_
  have noComma : acceptPunctuator .comma s3 = .ok false s3 := accept_other (by simp [onto3.kind])
  have single : Follows limit (fun _ s' => s'.Onto faults (.punctuator .semicolon) []) (many (do
      if ← acceptPunctuator .comma then return some (← declarator (.within (depth + 1)) true)
      return none) s3) := by
    refine follows_many onto3 ?_
    rw [bind_of_ok noComma]
    rfl
  refine single.bind fun later s4 onto4 => ?_
  obtain ⟨_, s5, finished, onto5, _⟩ := onto4.finish s.here (.declarationList .var (first :: later))
  rw [finished]
  exact onto5

/-- Reading on behind the declared name, the text ends without further faults. -/
lemma declaration_onto (isVar : declarationKind? s.scanner.token.kind = some .var)
    (passed : advance s = .ok () s1) :
    Follows limit (fun _ s' => s'.Onto faults .endOfFile [])
      (statement (.within (depth + 1)) s) := by
  unfold statement
  rw [here_bind, kind_bind, isVar]
  refine (declarationList_onto isName onto passed).bind fun list s3 onto3 => ?_
  obtain ⟨s4, ended, onto4, _⟩ := endStatement_onto onto3
  obtain ⟨_, s5, finished, onto5, _⟩ := onto4.finish s.here (.variableStatement list)
  rw [bind_of_ok ended]
  rw [finished]
  exact onto5

end Declaration

/-! ### The assignment -/

section Assignment

variable {w : Twin} {depth : Nat} {form : Form} {s2 s1' : ParseState}

/-- Behind the literal comes what stands behind the stretch. -/
lemma Redrawn.onto {n' : NodeId} (redrawn : Redrawn w depth s s' form s2 n' s1')
    (ends : s2.scanner.closing.rest = ' ' :: w.after) (next : Text.Next (' ' :: w.after') k later) :
    s1'.Onto [] k later := by
  obtain ⟨s2', s3', sketched, _, passed, finished⟩ := redrawn
  obtain ⟨ahead, rest, rest', _⟩ := sketched.scanner.closing
  have atEnd : ahead = [] := by
    rw [ends] at rest
    exact append_cancel_right (rest.symm : ahead ++ ' ' :: w.after = [] ++ ' ' :: w.after)
  rw [atEnd, nil_append] at rest'
  obtain ⟨_, passed', onto, _⟩ := advance_onto (s := s2') (rest' ▸ next)
  cases passed.symm.trans passed'
  rw [sketched.clean', sketched.scanner.clean', append_nil] at onto
  obtain ⟨_, rfl⟩ := finish_eq finished
  exact ⟨onto.kind, onto.rest, onto.faults, onto.scanner⟩

/-- The assignment to the pattern `n`, whose nodes are those of the table `t` since `old`. -/
def Assigned (w : Twin) (old old' t : Table) (n : NodeId) (k : TokenKind) (rest : Text) (a : NodeId)
    (s : ParseState) : Prop :=
  s.Onto [] k rest ∧ (∃ value, s.table.form? a = some (.assignment n .plain value)) ∧
    ∃ u, Table.Twins w old old' (fun _ => False) t u ∧ u.Preserves s.table

/-- A declared pattern that is read as a literal turns into the same pattern at the equals sign. -/
lemma assignment_redrawn (depth' : Nat) (steady : s.scanner.Steady)
    (sketched : Sketched w s s' [] s s') (opens : s.scanner.token.kind.OpensPattern)
    (ran : binding (.within depth) s = .ok n s1) (after' : w.after' = ['=', ' ', 'x', ')', ';'])
    (ends : ∀ form s2, ReadsPattern w (.within depth) s form n s1 s2 → s2.Early w ∧
      s2.scanner.closing.rest = ' ' :: w.after) :
    Follows True (Assigned w s.table s'.table s1.table n (.punctuator .closeParen) [';'])
      (assignment (.within (depth' + 1)) true s') := by
  have along : Alongside w True depth (.within depth) (.within (depth' + 1)) :=
    within_alongside (.inr trivial)
  obtain ⟨form, s2, isPattern, redrawn⟩ := binding_redrawn along steady opens ran
  obtain ⟨early, rest⟩ := ends form s2 isPattern
  have next : Text.Next (' ' :: w.after') (.punctuator .assign) [' ', 'x', ')', ';'] :=
    after' ▸ .assign ['x', ')', ';']
  have reads := (redrawn sketched early).imp fun _ _ redrawn =>
    (⟨redrawn, (redrawn.onto rest next).kind ▸ ⟨by simp, by simp, by simp, rfl, rfl, by simp⟩⟩ :
      Ended (Redrawn w depth s s' form s2) _ _)
  unfold assignment
  rw [here_bind]
  refine (conditional_of_primary (sketched.scanner.kind ▸ opens.startsOperand) reads true).bind ?_
  rintro n' s3 ⟨redrawn, _⟩
  have onto : s3.Onto [] (.punctuator .assign) [' ', 'x', ')', ';'] := redrawn.onto rest next
  obtain ⟨rfl, twins, drafted⟩ := redrawn.tables sketched isPattern
  rw [kind_bind, onto.kind]
  have turns : TurnsDrafts s1.table True (.within (depth' + 1)) (depth + 1) :=
    turnsDrafts_within (.inr trivial)
  refine (turns ⟨onto.faults, onto.kind ▸ by simp⟩ drafted).bind ?_
  rintro _ _ ⟨rfl, table, rfl, turned⟩
  have same := twins.turn turned fun m draws =>
    ((lasting_drafted (depth + 1)).bounds drafted draws).1
  have onto4 : Onto [] (.punctuator .assign) [' ', 'x', ')', ';'] { s3 with table := table } :=
    ⟨onto.kind, onto.rest, onto.faults, onto.scanner⟩
  obtain ⟨s5, passed, onto5, table5⟩ := onto4.advance (.name [';'] (by decide))
  beta_reduce
  rw [bind_of_ok passed]
  refine (assignment_of_name onto5 (.closeParen [';']) ⟨by simp, by simp, by simp, rfl, rfl,
    by simp⟩ rfl true).bind ?_
  rintro value s6 ⟨onto6, keeps, _⟩
  obtain ⟨a, s7, finished, onto7, keeps7, found⟩ :=
    onto6.finish s'.here (.assignment _ .plain value)
  rw [finished]
  rw [table5] at keeps
  exact ⟨onto7, ⟨value, found⟩, table, same, keeps.trans keeps7⟩

/-- The assignment `a` in parentheses. -/
def Enclosed (w : Twin) (old old' t : Table) (n : NodeId) (e : NodeId) (s : ParseState) : Prop :=
  ∃ a, s.table.form? e = some (.parenthesized a) ∧
    Assigned w old old' t n (.punctuator .semicolon) [] a s

variable {old old' t : Table}

lemma Enclosed.kind {e : NodeId} (enclosed : Enclosed w old old' t n e s) :
    s.scanner.token.kind = .punctuator .semicolon := by
  obtain ⟨_, _, onto, _⟩ := enclosed
  exact onto.kind

lemma primary_encloses (onto : s.Onto [] (.punctuator .openParen) rest)
    (passed : advance s = .ok () s1)
    (inside : Follows True (Assigned w old old' t n (.punctuator .closeParen) [';'])
      (expression inner true s1)) :
    Follows True (Ended (Enclosed w old old' t n)) (primary inner s) := by
  refine (primary_of_expression onto passed inside (fun _ _ assigned => assigned.1)
    (.semicolon [])).imp ?_
  rintro e s' ⟨a, s2, ⟨_, ⟨value, found⟩, u, same, keeps⟩, kept, onto', isEnclosed⟩
  exact ⟨⟨a, isEnclosed, onto', ⟨value, kept.form? found⟩, u, same, keeps.trans kept⟩,
    onto'.kind ▸ endsOperand_semicolon⟩

/-- The statement that is made of the assignment in parentheses. -/
lemma statement_encloses (onto : s.Onto [] (.punctuator .openParen) rest)
    (passed : advance s = .ok () s1)
    (reads : Follows True (Assigned w old old' t n (.punctuator .closeParen) [';'])
      (assignment (.within depth) true s1)) :
    Follows True (fun m s' => ∃ e a, s'.table.form? m = some (.expressionStatement e) ∧
      s'.table.form? e = some (.parenthesized a) ∧ Assigned w old old' t n .endOfFile [] a s')
      (statement (.within (depth + 2)) s) := by
  have inside : Follows True (Assigned w old old' t n (.punctuator .closeParen) [';'])
      (expression (.within (depth + 1)) true s1) :=
    expression_of_assignment reads fun _ _ assigned => by simp [assigned.1.kind]
  have single : Follows True (Enclosed w old old' t n) (assignment (.within (depth + 1)) true s) :=
    (assignment_of_primary (onto.kind ▸ ⟨rfl, by simp⟩) (primary_encloses onto passed inside)
      (fun _ _ enclosed => by rw [enclosed.kind]; rfl) true).imp fun _ _ ended => ended.1
  have whole : Follows True (Enclosed w old old' t n) (expression (.within (depth + 2)) true s) :=
    expression_of_assignment single fun _ _ enclosed => by simp [enclosed.kind]
  have ends : ∀ e s1, Enclosed w old old' t n e s1 → s1.Onto [] (.punctuator .semicolon) [] := by
    rintro e s1 ⟨_, _, onto, _⟩
    exact onto
  refine (statement_of_expression onto whole ends).imp ?_
  rintro m s' ⟨e, s2, ⟨a, found, _, ⟨value, found'⟩, u, same, keeps⟩, kept, onto', isStatement⟩
  exact ⟨e, a, isStatement, kept.form? found, onto', ⟨value, kept.form? found'⟩, u, same,
    keeps.trans kept⟩

end Assignment

end Grammar

/-! ### Whole texts -/

namespace Parsed

/-- The first statement declares `n` first. -/
def Declares (parsed : Parsed) (n : NodeId) : Prop :=
  ∃ statement later list kind declarator others value,
    parsed.table.form? parsed.root = some (.program (statement :: later)) ∧
    parsed.table.form? statement = some (.variableStatement list) ∧
    parsed.table.form? list = some (.declarationList kind (declarator :: others)) ∧
    parsed.table.form? declarator = some (.declarator n value)

/-- The only statement is an assignment to `n` in parentheses. -/
def Assigns (parsed : Parsed) (n : NodeId) : Prop :=
  ∃ statement inside assignment value,
    parsed.table.form? parsed.root = some (.program [statement]) ∧
    parsed.table.form? statement = some (.expressionStatement inside) ∧
    parsed.table.form? inside = some (.parenthesized assignment) ∧
    parsed.table.form? assignment = some (.assignment n .plain value)

end Parsed

/-- The nodes up to `n` are the same in both tables, but `shift` bytes later in the first one. -/
def Table.SameUpTo (shift : Nat) (t t' : Table) (n : NodeId) : Prop :=
  ∀ m ≤ n, ∃ start stop form, t.At m (start + shift) (stop + shift) form ∧ t'.At m start stop form

namespace Reading

variable {text : Text} {inner : Productions} {s s' : ParseState} {bound : Nat}
  {found : Array NodeId}

/-- The first statement of a text without faults. -/
lemma continueWithin_first (sound : inner.Sound text) (ready : s.Ready text)
    (more : s.scanner.token.kind ≠ .endOfFile)
    (clean : (continueWithin inner (bound + 1) found s).state.faults = []) :
    ∃ n s', inner.statement s = .ok n s' ∧ s'.Ready text ∧ s.table.Preserves s'.table ∧
      continueWithin inner (bound + 1) found s = continueWithin inner bound (found.push n) s' := by
  rw [continueWithin, if_neg more] at clean ⊢
  cases ran : inner.statement s with
  | ok n s' =>
    have made := (sound.statement s).ok ⟨rfl, ready⟩ ran
    exact ⟨n, s', rfl, made.ready, made.keeps, rfl⟩
  | error halt s' =>
    have failed := (sound.statement s).error ⟨rfl, ready⟩ ran
    rw [ran] at clean
    exact absurd clean failed.2

/-- Reading on keeps what was read. -/
lemma continueWithin_keeps (sound : inner.Sound text) (ready : s.Ready text)
    (clean : (continueWithin inner bound found s).state.faults = []) :
    s.table.Preserves (continueWithin inner bound found s).state.table ∧
      found.toList <+: (continueWithin inner bound found s).statements.toList := by
  induction bound generalizing found s with
  | zero => exact ⟨.refl _, prefix_rfl⟩
  | succ bound ih =>
    by_cases ended : s.scanner.token.kind = .endOfFile
    · rw [continueWithin, if_pos ended]
      exact ⟨.refl _, prefix_rfl⟩
    · obtain ⟨n, s', _, ready', keeps, next⟩ := continueWithin_first sound ready ended clean
      rw [next] at clean ⊢
      obtain ⟨keeps', isPrefix⟩ := ih ready' clean
      exact ⟨keeps.trans keeps', (by simp : found.toList <+: (found.push n).toList).trans isPrefix⟩

/-- At the end of the text there is nothing to do. -/
lemma continueWithin_ended (inner : Productions) (bound : Nat) (found : Array NodeId)
    (ended : s.scanner.token.kind = .endOfFile) :
    (continueWithin inner bound found s).state = s ∧
      (continueWithin inner bound found s).statements = found := by
  cases bound with
  | zero => exact ⟨rfl, rfl⟩
  | succ bound =>
    rw [continueWithin, if_pos ended]
    exact ⟨rfl, rfl⟩

end Reading

section Texts

variable {text : Text} {n : NodeId}

lemma Parsed.table_keeps (text : Text) :
    (Reading.ofText text).state.table.Preserves (ofText text).table :=
  keeps_add _ _ _

lemma Parsed.form?_root (text : Text) : (ofText text).table.form? (ofText text).root =
    some (.program (Reading.ofText text).statements.toList) :=
  (at_add_self _ _ _).form?

/-- The declared name is what is read behind the keyword of the declaration. -/
lemma Parsed.Declares.binding {declared : DeclarationKind} (declares : (ofText text).Declares n)
    (clean : (ofText text).faults = [])
    (isDeclaration : Grammar.declarationKind? (Reading.start text).scanner.token.kind =
      some declared) : ∃ s1 s2, s1.Ready text ∧ advance (Reading.start text) = .ok () s1 ∧
      (Productions.within (maxParseDepth - 1)).binding s1 = .ok n s2 ∧
      s2.table.Preserves (ofText text).table := by
  obtain ⟨statement, later, list, kind, declarator, others, value, isProgram, isStatement, isList,
    isDeclarator⟩ := declares
  have ready := ready_start text
  have sound := Productions.within_sound text
  have more : (Reading.start text).scanner.token.kind ≠ .endOfFile := by
    intro ended
    simp [ended, Grammar.declarationKind?] at isDeclaration
  obtain ⟨m, s', ran, ready', _, next⟩ := continueWithin_first (sound maxParseDepth)
    ready more clean
  have whole :
      Reading.ofText text = Reading.continueWithin (.within maxParseDepth) text.size #[m] s' := next
  obtain ⟨keeps, isPrefix⟩ := continueWithin_keeps (sound maxParseDepth) ready'
    (whole ▸ clean : (Reading.continueWithin (.within maxParseDepth) text.size #[m]
      s').state.faults = [])
  rw [← whole] at keeps isPrefix
  have kept := keeps.trans (Parsed.table_keeps text)
  have isFirst : m = statement := by
    have listed := Option.some.inj (isProgram.symm.trans (Parsed.form?_root text))
    rw [← Form.program.inj listed] at isPrefix
    exact (cons_prefix_cons.mp isPrefix).1
  -- Down the chain from the program to the name, each node is the one that was read there.
  subst isFirst
  obtain ⟨list', s3, ran1, keeps1, found1⟩ :=
    Grammar.statement_declares (sound _) ready isDeclaration ran
  cases isStatement.symm.trans (kept.form? found1)
  obtain ⟨s1, first, s4, passed, ran2, keeps2, others', found2⟩ :=
    Grammar.declarationList_cases (sound _) ready ran1
  cases isList.symm.trans ((keeps1.trans kept).form? found2)
  have ready1 := (advance_ready ready passed).1
  obtain ⟨name, s2, ran3, keeps3, value', found3⟩ := Grammar.declarator_cases (sound _) ready1 ran2
  cases isDeclarator.symm.trans ((keeps2.trans (keeps1.trans kept)).form? found3)
  exact ⟨s1, s2, ready1, passed, ran3, keeps3.trans (keeps2.trans (keeps1.trans kept))⟩

lemma Reading.start_onto {k : TokenKind} {later : Text} (next : text.Next k later) :
    (start text).Onto [] k later ∧ (start text).table = .empty := by
  obtain ⟨s, passed, onto, table⟩ := advance_onto (s := before text) next
  have first : start text = s := by rw [start, passed]
  rw [first]
  exact ⟨onto, table⟩

/-- The place behind the current token is told by what comes after it. -/
lemma ParseState.Onto.closing {faults : List SyntaxFault} {k : TokenKind} {rest : Text}
    {s : ParseState} (onto : s.Onto faults k rest) (ready : s.Ready text) (taken : Text)
    (cut : text = taken ++ rest) :
    s.scanner.closing = ⟨Text.size taken, rest⟩ ∧ s.scanner.token.stop = Text.size taken := by
  have stands := ready.scanner.stands
  have whole := stands.closing_in.offset_add
  rw [onto.rest, cut, Text.size_append] at whole
  have offset : s.scanner.closing.offset = Text.size taken := by omega
  exact ⟨by rw [← offset, ← onto.rest], stands.stop.trans offset⟩

/-- If the only statement takes the rest of the text and leaves `faults`, the text has no others. -/
lemma Reading.faults_of_single {faults : List SyntaxFault} (clean : (ofText text).state.faults = [])
    (more : (start text).scanner.token.kind ≠ .endOfFile)
    (reads : Follows False (fun _ s => s.Onto faults .endOfFile [])
      ((Productions.within maxParseDepth).statement (start text))) : faults = [] := by
  obtain ⟨m, s, ran, ready, _, next⟩ := continueWithin_first
    (Productions.within_sound text maxParseDepth) (ready_start text) more clean
  rw [ran] at reads
  have whole : ofText text = continueWithin (.within maxParseDepth) text.size #[m] s := next
  rw [whole, (continueWithin_ended _ _ _ reads.kind).1] at clean
  exact reads.faults.symm.trans clean

/-- Standing before a stretch, scanners go on alike. -/
lemma Scanner.alike_scan {w : Twin} {s s' : Scanner} (offset offset' : Nat) (stretch : Text)
    (skips : Gap.skip s.closing = Gap.skip ⟨offset, stretch ++ ' ' :: w.after⟩)
    (skips' : Gap.skip s'.closing = Gap.skip ⟨offset', stretch ++ ' ' :: w.after'⟩)
    (shifted : offset = offset' + w.shift) (inside : w.base ≤ offset') (clean : s.faults = [])
    (clean' : s'.faults = []) (before : s.scan.closing.Before w) (scanned : s.scan.faults = []) :
    s.scan.Alike w s'.scan := by
  -- Both scanners are taken back to the place where the stretch starts.
  have same :
      s.scan = scan ⟨⟨.endOfFile, offset, offset, false⟩, ⟨offset, stretch ++ ' ' :: w.after⟩,
        ⟨offset, stretch ++ ' ' :: w.after⟩, []⟩ := by
    simp only [scan, skips, clean]
  have same' :
      s'.scan = scan ⟨⟨.endOfFile, offset', offset', false⟩, ⟨offset', stretch ++ ' ' :: w.after'⟩,
        ⟨offset', stretch ++ ' ' :: w.after'⟩, []⟩ := by
    simp only [scan, skips', clean']
  rw [same] at before scanned
  rw [same, same']
  have alike := Cursor.Alike.mk (w := w) stretch shifted
  exact Alike.scan ⟨rfl, by simp, rfl, shifted, shifted, rfl, ⟨inside, le_rfl⟩, alike, alike,
    (alike.textUpTo alike (.refl _)).2, rfl, rfl⟩ before scanned

/-- The text that declares a pattern. -/
def declarationOf (pattern : String) : Text := ("var " ++ pattern ++ " = x;").toList

/-- The text that assigns to a pattern. -/
def assignmentOf (pattern : String) : Text := ("(" ++ pattern ++ " = x);").toList

/-- How the two texts share the pattern. -/
def declaredAndAssigned : Twin := ⟨3, 1, ['=', ' ', 'x', ';'], ['=', ' ', 'x', ')', ';']⟩

variable (pattern : String)

lemma declarationOf_eq : declarationOf pattern =
    'v' :: 'a' :: 'r' :: ' ' :: (pattern.toList ++ ' ' :: declaredAndAssigned.after) := by
  simp [declarationOf, declaredAndAssigned]

lemma assignmentOf_eq : assignmentOf pattern =
    '(' :: (pattern.toList ++ ' ' :: declaredAndAssigned.after') := by
  simp [assignmentOf, declaredAndAssigned]

lemma start_declarationOf : (Reading.start (declarationOf pattern)).Onto [] (.keyword .varKw)
    (' ' :: (pattern.toList ++ ' ' :: declaredAndAssigned.after)) ∧
      (Reading.start (declarationOf pattern)).table = .empty := by
  refine start_onto ?_
  rw [declarationOf_eq]
  exact .var _

lemma start_assignmentOf : (Reading.start (assignmentOf pattern)).Onto [] (.punctuator .openParen)
    (pattern.toList ++ ' ' :: declaredAndAssigned.after') ∧
      (Reading.start (assignmentOf pattern)).table = .empty := by
  refine start_onto ?_
  rw [assignmentOf_eq]
  exact .openParen _

variable {pattern}

/-- Behind the keyword and behind the parenthesis the parsers stand on the same token. -/
lemma first_tokens_alike {s1 : ParseState}
    (passed : advance (Reading.start (declarationOf pattern)) = .ok () s1)
    (early : s1.Early declaredAndAssigned) :
    ∃ s1', advance (Reading.start (assignmentOf pattern)) = .ok () s1' ∧
      Sketched declaredAndAssigned s1 s1' [] s1 s1' ∧ s1.table = .empty ∧ s1'.table = .empty := by
  obtain ⟨onto, table⟩ := start_declarationOf pattern
  obtain ⟨onto', table'⟩ := start_assignmentOf pattern
  obtain ⟨closing, stop⟩ := onto.closing (ready_start _) ['v', 'a', 'r'] (declarationOf_eq pattern)
  obtain ⟨closing', stop'⟩ := onto'.closing (ready_start _) ['('] (assignmentOf_eq pattern)
  cases passed
  have alike : (Reading.start (declarationOf pattern)).scanner.scan.Alike declaredAndAssigned
      (Reading.start (assignmentOf pattern)).scanner.scan := by
    refine Scanner.alike_scan 4 1 pattern.toList ?_ ?_ rfl le_rfl onto.scanner onto'.scanner
      early.before (append_eq_nil_iff.mp early.clean).2
    · rw [closing]
      rfl
    · rw [closing']
      rfl
  refine ⟨_, rfl, ⟨?_, early.clean, ?_, ?_, .refl ?_⟩, table, table'⟩
  · exact { alike with clean := rfl, clean' := rfl, lexeme := alike.lexeme }
  · simp only [Scanner.takeFaults, onto'.faults, alike.clean', append_nil]
  · dsimp only
    rw [stop, stop']
    rfl
  · dsimp only
    rw [table, table']

/-- The pattern ends where its closing bracket does, and nothing was wrong up to there. -/
lemma closed_early {s1 s2 : ParseState} {start : Nat}
    (clean : (Parsed.ofText (declarationOf pattern)).faults = [])
    (ready : s1.Ready (declarationOf pattern))
    (passed : advance (Reading.start (declarationOf pattern)) = .ok () s1)
    (isName : (Productions.within (maxParseDepth - 1)).binding s1 = .ok n s2)
    (keeps : s2.table.Preserves (Parsed.ofText (declarationOf pattern)).table)
    (whole : ∃ form, (Parsed.ofText (declarationOf pattern)).table.At n start
      (4 + Text.size pattern.toList) form) (form : Form) (s3 : ParseState)
    (isPattern : Grammar.ReadsPattern declaredAndAssigned (.within (maxParseDepth - 2)) s1
      form n s2 s3) :
    s3.Early declaredAndAssigned ∧ s3.scanner.closing.rest = ' ' :: declaredAndAssigned.after := by
  have sound := Productions.within_sound (declarationOf pattern)
  have stands := (isPattern.ready (sound _) ready).scanner.stands
  obtain ⟨s4, passed4, finished⟩ := isPattern.closed
  have further := (((sound (maxParseDepth - 1)).binding s1).ok ⟨rfl, ready⟩ isName).passed rfl
  obtain ⟨rfl, rfl⟩ := finish_eq finished
  have last : s4.lastStop = s3.scanner.token.stop := by
    cases passed4
    rfl
  have stop : s3.scanner.token.stop = 4 + Text.size pattern.toList := by
    obtain ⟨_, at_⟩ := whole
    have range := (keeps.node (at_add_self (t := s4.table) _ _ _)).unique at_
    rw [← last, range.2.1]
    exact (max_eq_left further.le).symm
  have rest : s3.scanner.closing.rest = ' ' :: declaredAndAssigned.after := by
    have cut : declarationOf pattern = ('v' :: 'a' :: 'r' :: ' ' :: pattern.toList) ++
        ' ' :: declaredAndAssigned.after := declarationOf_eq pattern
    have inside : Text.drop? s3.scanner.closing.offset _ = some s3.scanner.closing.rest :=
      stands.closing_in
    have size :
        s3.scanner.closing.offset = Text.size ('v' :: 'a' :: 'r' :: ' ' :: pattern.toList) := by
      rw [← stands.stop, stop]
      change _ = 1 + (1 + (1 + (1 + Text.size pattern.toList)))
      omega
    rw [cut, size, Text.drop?_append] at inside
    exact (Option.some.inj inside).symm
  have next : Text.Next s3.scanner.closing.rest (.punctuator .assign) [' ', 'x', ';'] :=
    rest ▸ .assign ['x', ';']
  obtain ⟨_, passed', onto, _⟩ := advance_onto next
  cases passed4.symm.trans passed'
  have reads : Follows False (fun _ s => s.Onto (s3.faults ++ s3.scanner.faults) .endOfFile [])
      ((Productions.within maxParseDepth).statement (Reading.start (declarationOf pattern))) :=
    Grammar.declaration_onto isName ⟨onto.kind, onto.rest, onto.faults, onto.scanner⟩
      (by rw [(start_declarationOf pattern).1.kind]; rfl) passed
  have none := faults_of_single clean (by simp [(start_declarationOf pattern).1.kind]) reads
  obtain ⟨clean3, scanner3⟩ := append_eq_nil_iff.mp none
  exact ⟨⟨clean3, scanner3, [], rest.symm⟩, rest⟩

/-- A text whose first statement takes all of it is that statement. -/
lemma Parsed.single_of_follows {limit : Prop} {R : NodeId → ParseState → Prop}
    (more : (Reading.start text).scanner.token.kind ≠ .endOfFile)
    (reads : Follows limit R ((Productions.within maxParseDepth).statement (Reading.start text)))
    (ends : ∀ m s, R m s → s.Onto [] .endOfFile []) :
    (limit ∧ ∃ start length, (ofText text).faults = [⟨start, length, .tooDeep⟩]) ∨
      (ofText text).faults = [] ∧ ∃ m s, R m s ∧ s.table.Preserves (ofText text).table ∧
        (ofText text).table.form? (ofText text).root = some (.program [m]) := by
  have whole :
      Reading.ofText text = Reading.continueWithin (.within maxParseDepth) (text.size + 1) #[]
      (Reading.start text) := rfl
  rw [Reading.continueWithin, if_neg more] at whole
  cases ran : (Productions.within maxParseDepth).statement (Reading.start text) with
  | error halt s =>
    rw [ran] at reads whole
    cases halt with
    | reported =>
      obtain ⟨deep, start, length, faults⟩ := reads
      refine .inl ⟨deep, start, length, ?_⟩
      change (Reading.ofText text).state.faults = _
      rw [whole, faults]
    | exhausted =>
      rcases ofText_whole text with ⟨reported, _⟩ | done
      · simp [whole] at reported
      · have := done.finished
        simp [whole] at this
  | ok m s =>
    rw [ran] at reads whole
    have onto := ends m s reads
    obtain ⟨state, statements⟩ := continueWithin_ended (.within maxParseDepth) text.size
      #[m] onto.kind
    refine .inr ⟨?_, m, s, reads, ?_, ?_⟩
    · change (Reading.ofText text).state.faults = _
      rw [whole]
      exact (congrArg ParseState.faults state).trans onto.faults
    · have kept := Parsed.table_keeps text
      rw [whole] at kept
      exact state ▸ kept
    · have root := Parsed.form?_root text
      rw [whole] at root
      rw [root]
      exact congrArg (fun found => some (Form.program found.toList)) statements

/-- What became of the assignment, told by how its statement is read. -/
lemma assigns_of_follows {t : Table} {old old' : Table} (size : old.size = 0) (known : n < t.size)
    (reads : Follows True (fun m s => ∃ e a, s.table.form? m = some (.expressionStatement e) ∧
      s.table.form? e = some (.parenthesized a) ∧
        Grammar.Assigned declaredAndAssigned old old' t n .endOfFile [] a s)
      ((Productions.within maxParseDepth).statement (Reading.start text)))
    (more : (Reading.start text).scanner.token.kind ≠ .endOfFile) :
    (∃ start length, (Parsed.ofText text).faults = [⟨start, length, .tooDeep⟩]) ∨
      (Parsed.ofText text).faults = [] ∧ (Parsed.ofText text).Assigns n ∧
        t.SameUpTo declaredAndAssigned.shift (Parsed.ofText text).table n := by
  rcases Parsed.single_of_follows more reads (by rintro m s ⟨_, _, _, _, onto, _⟩; exact onto) with
    ⟨_, deep⟩ | ⟨clean, m, s, ⟨e, a, isStatement, isInside, _, ⟨value, isAssignment⟩, u, same,
      keeps⟩, kept, root⟩
  · exact .inl deep
  · refine .inr ⟨clean, ⟨m, e, a, value, root, kept.form? isStatement, kept.form? isInside,
      kept.form? isAssignment⟩, fun m below => ?_⟩
    obtain ⟨start, stop, form, at_⟩ := exists_at (below.trans_lt known)
    obtain ⟨start', stop', form', at', rfl, rfl, rfl | ⟨impossible, _⟩⟩ := same.nodes (by omega) at_
    · exact ⟨start', stop', _, at_, (keeps.trans kept).node at'⟩
    · exact impossible.elim

end Texts

/-- The two ways to read a pattern agree. Where `var P = x;` is read without errors and `P` up to
its end is the declared pattern, `(P = x);` is read without errors too, unless it nests too deeply.
It assigns to the same pattern: nodes are numbered in the order in which they are finished, so those
of the pattern are the first ones, and each of them is the same, parts included, three bytes
earlier. -/
theorem declared_and_assigned_patterns_agree (pattern : String) {n : NodeId} {start : Nat}
    {form : Form} (clean : (Parsed.ofText (declarationOf pattern)).hasErrors = false)
    (declares : (Parsed.ofText (declarationOf pattern)).Declares n)
    (whole : (Parsed.ofText (declarationOf pattern)).table.At n start
      (4 + Text.size pattern.toList) form) (isPattern : form.isPattern = true) :
    (∃ start length, (Parsed.ofText (assignmentOf pattern)).faults = [⟨start, length, .tooDeep⟩]) ∨
      (Parsed.ofText (assignmentOf pattern)).hasErrors = false ∧
        (Parsed.ofText (assignmentOf pattern)).Assigns n ∧
        (Parsed.ofText (declarationOf pattern)).table.SameUpTo 3
          (Parsed.ofText (assignmentOf pattern)).table n := by
  have clean : (Parsed.ofText (declarationOf pattern)).faults = [] := by
    simpa [Parsed.hasErrors] using clean
  obtain ⟨onto, _⟩ := start_declarationOf pattern
  obtain ⟨onto', _⟩ := start_assignmentOf pattern
  obtain ⟨s1, s2, ready, passed, isName, keeps⟩ :=
    declares.binding clean (by rw [onto.kind]; rfl : _ = some DeclarationKind.var)
  have opens : s1.scanner.token.kind.OpensPattern := by
    by_contra other
    have isIdentifier : Grammar.identifier s1 = .ok n s2 :=
      (Grammar.binding_named other).symm.trans isName
    obtain ⟨_, _, text, found⟩ := Grammar.identifier_cases isIdentifier
    cases (keeps.form? found).symm.trans whole.form?
    cases isPattern
  have second : Onward declaredAndAssigned _ s1 := onward_advance passed
  have along :
      Grammar.Alongside declaredAndAssigned True (maxParseDepth - 2) (.within (maxParseDepth - 2))
        (.within (maxParseDepth - 2)) := Grammar.within_alongside (.inr trivial)
  have closed := closed_early clean ready passed isName keeps ⟨_, whole⟩
  obtain ⟨_, s3, reads, _⟩ := Grammar.binding_redrawn along second.steady opens isName
  obtain ⟨s1', passed', sketched, empty, empty'⟩ :=
    first_tokens_alike passed (reads.onward.early (closed _ s3 reads).1)
  have assigned := Grammar.assignment_redrawn (maxParseDepth - 4) second.steady sketched opens
    isName rfl closed
  have made := ((Productions.within_sound _ _).binding s1).ok ⟨rfl, ready⟩ isName
  have known : n < s2.table.size := (made.fits (mem_singleton_self _)).lt_size
  have encloses := Grammar.statement_encloses onto' passed' assigned
  rcases assigns_of_follows (by rw [empty]; rfl) known encloses (by simp [onto'.kind]) with
    tooDeep | ⟨faults, assigns, same⟩
  · exact .inl tooDeep
  · refine .inr ⟨by simp [Parsed.hasErrors, faults], assigns, fun m below => ?_⟩
    obtain ⟨start, stop, form, at_, at'⟩ := same m below
    exact ⟨start, stop, form, keeps.node at_, at'⟩

/-- A pattern with keys of both kinds, a shorthand, a hole and a rest element. -/
def nestedPattern : String := "{a: [b, , ...c], [d]: {e}}"

theorem nested_pattern_is_declared_and_assigned :
    (Parsed.ofText (declarationOf nestedPattern)).hasErrors = false ∧
      (Parsed.ofText (declarationOf nestedPattern)).Declares 11 ∧
      (Parsed.ofText (assignmentOf nestedPattern)).hasErrors = false ∧
      (Parsed.ofText (assignmentOf nestedPattern)).Assigns 11 ∧
      (Parsed.ofText (declarationOf nestedPattern)).table.SameUpTo 3
        (Parsed.ofText (assignmentOf nestedPattern)).table 11 := by
  obtain ⟨clean, forms, whole⟩ :
      (Parsed.ofText (declarationOf nestedPattern)).hasErrors = false ∧
        [(Parsed.ofText (declarationOf nestedPattern)).root, 15, 14, 13].map
            (Parsed.ofText (declarationOf nestedPattern)).table.form? =
          [some (.program [15]), some (.variableStatement 14), some (.declarationList .var [13]),
            some (.declarator 11 (some 12))] ∧
        (Parsed.ofText (declarationOf nestedPattern)).table.get? 11 =
          some ⟨4, 4 + Text.size nestedPattern.toList, some 13,
            .objectPattern [5, 10]⟩ := by decide +kernel
  simp only [map_cons, List.cons.injEq] at forms
  obtain ⟨program, statement, list, declarator, _⟩ := forms
  have declares : (Parsed.ofText (declarationOf nestedPattern)).Declares 11 :=
    ⟨15, [], 14, .var, 13, [], some 12, program, statement, list, declarator⟩
  have whole : (Parsed.ofText (declarationOf nestedPattern)).table.At 11 4
      (4 + Text.size nestedPattern.toList) (.objectPattern [5, 10]) := ⟨some 13, whole⟩
  have shallow : (Parsed.ofText (assignmentOf nestedPattern)).faults = [] := by decide +kernel
  refine ⟨clean, declares, (declared_and_assigned_patterns_agree nestedPattern clean declares whole
    rfl).resolve_left ?_⟩
  rintro ⟨_, _, tooDeep⟩
  cases shallow.symm.trans tooDeep

end PatternLowering

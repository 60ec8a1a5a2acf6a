import PatternLowering.Grammar.Program
import PatternLowering.Proofs.Coupling

/-!
# Expressions of one operand

Where no operator stands before or behind a primary expression, it makes up a whole assignment
expression. All the rules in between pass it on as it is.
-/

namespace PatternLowering

open Parse EStateM

/-- An operand that starts with this token has neither an operator nor `new` before it. -/
structure TokenKind.StartsOperand (kind : TokenKind) : Prop where
  noOperator : UnaryOp.ofToken? kind = none
  noConstruct : kind ≠ .keyword .newKw

/-- An operand goes no further than to this token. -/
structure TokenKind.EndsOperand (kind : TokenKind) : Prop where
  noDot : kind ≠ .punctuator .dot
  noElement : kind ≠ .punctuator .openBracket
  noCall : kind ≠ .punctuator .openParen
  noUpdate : UpdateOp.ofToken? kind = none
  noBinary : BinaryOp.ofToken? kind = none
  noCondition : kind ≠ .punctuator .question

namespace Grammar

variable {limit : Prop} {inner : Productions} {s : ParseState} {Q : NodeId → ParseState → Prop}

/-- A loop that has nothing to do. -/
lemma follows_iterate {α : Type} {Q : α → ParseState → Prop} {a : α} {step : α → Parse (Option α)}
    (holds : Q a s) (done : step a s = .ok none s) : Follows limit Q (iterate a step s) := by
  change Follows limit Q (iterateWithin step (s.size + 1) a s)
  rw [iterateWithin, bind_of_ok done]
  exact holds

/-- The operand was read, and nothing goes on with it. -/
def Ended (Q : NodeId → ParseState → Prop) (n : NodeId) (s : ParseState) : Prop :=
  Q n s ∧ s.scanner.token.kind.EndsOperand

lemma isAt_other {k : TokenKind} (other : s.scanner.token.kind ≠ k) : isAt k s = .ok false s := by
  change EStateM.Result.ok (decide (s.scanner.token.kind = k)) s = _
  rw [decide_eq_false other]

lemma isAtMember_other (ends : s.scanner.token.kind.EndsOperand) : isAtMember s = .ok false s := by
  change EStateM.Result.ok (decide (s.scanner.token.kind = .punctuator .dot) ||
    decide (s.scanner.token.kind = .punctuator .openBracket)) s = _
  rw [decide_eq_false ends.noDot, decide_eq_false ends.noElement]
  rfl

lemma leftHandSide_of_primary (starts : s.scanner.token.kind.StartsOperand)
    (reads : Follows limit (Ended Q) (primary inner s)) :
    Follows limit (Ended Q) (leftHandSide inner s) := by
  unfold leftHandSide
  rw [here_bind]
  have noNew : isAtKeyword .newKw s = .ok false s := isAt_other starts.noConstruct
  rw [bind_of_ok noNew]
  refine reads.bind fun n s1 ended => ?_
  have noCall : isAtPunctuator .openParen s1 = .ok false s1 := isAt_other ended.2.noCall
  refine follows_iterate ended ?_
  rw [bind_of_ok (isAtMember_other ended.2), if_neg (by simp), bind_of_ok noCall,
    if_neg (by simp)]
  rfl

section Operand

variable (starts : s.scanner.token.kind.StartsOperand)
  (reads : Follows limit (Ended Q) (leftHandSide inner s))

include starts reads

lemma unary_of_leftHandSide : Follows limit (Ended Q) (unary inner s) := by
  unfold unary
  rw [here_bind, kind_bind, starts.noOperator]
  refine reads.bind fun n s1 ended => ?_
  rw [bind_of_ok (rfl : token s1 = .ok s1.scanner.token s1), ended.2.noUpdate]
  exact ended

lemma binary_of_leftHandSide (allowIn : Bool) (minimum : Nat) :
    Follows limit (Ended Q) (binary inner allowIn minimum s) := by
  unfold binary
  rw [here_bind]
  refine (unary_of_leftHandSide starts reads).bind fun n s1 ended => ?_
  have noOp : tighterOp? allowIn minimum s1 = .ok none s1 := by
    unfold tighterOp?
    rw [kind_bind, ended.2.noBinary]
    split <;> rfl
  refine follows_iterate ended ?_
  rw [bind_of_ok noOp]
  rfl

lemma conditional_of_leftHandSide (allowIn : Bool) :
    Follows limit (Ended Q) (conditional inner allowIn s) := by
  unfold conditional
  rw [here_bind]
  refine (binary_of_leftHandSide starts reads allowIn 0).bind fun n s1 ended => ?_
  have noCondition : acceptPunctuator .question s1 = .ok false s1 :=
    accept_other ended.2.noCondition
  rw [bind_of_ok noCondition, if_pos (by simp)]
  exact ended

/-- An operand that no operator follows, not even one that assigns. -/
lemma assignment_of_leftHandSide
    (ends : ∀ n s1, Q n s1 → AssignmentOp.ofToken? s1.scanner.token.kind = none) (allowIn : Bool) :
    Follows limit (Ended Q) (assignment inner allowIn s) := by
  unfold assignment
  rw [here_bind]
  refine (conditional_of_leftHandSide starts reads allowIn).bind fun n s1 ended => ?_
  rw [kind_bind, ends n s1 ended.1]
  exact ended

end Operand

lemma conditional_of_primary (starts : s.scanner.token.kind.StartsOperand)
    (reads : Follows limit (Ended Q) (primary inner s)) (allowIn : Bool) :
    Follows limit (Ended Q) (conditional inner allowIn s) :=
  conditional_of_leftHandSide starts (leftHandSide_of_primary starts reads) allowIn

/-- A primary expression that no operator follows, not even one that assigns. -/
lemma assignment_of_primary (starts : s.scanner.token.kind.StartsOperand)
    (reads : Follows limit (Ended Q) (primary inner s))
    (ends : ∀ n s1, Q n s1 → AssignmentOp.ofToken? s1.scanner.token.kind = none) (allowIn : Bool) :
    Follows limit (Ended Q) (assignment inner allowIn s) :=
  assignment_of_leftHandSide starts (leftHandSide_of_primary starts reads) ends allowIn

/-- A single assignment is no sequence. -/
lemma expression_of_assignment {allowIn : Bool}
    (reads : Follows limit Q (inner.assignment allowIn s))
    (ends : ∀ n s1, Q n s1 → s1.scanner.token.kind ≠ .punctuator .comma) :
    Follows limit Q (expression inner allowIn s) := by
  unfold expression
  rw [here_bind]
  refine reads.bind fun n s1 holds => ?_
  have noComma : isAtPunctuator .comma s1 = .ok false s1 := isAt_other (ends n s1 holds)
  rw [bind_of_ok noComma, if_pos (by simp)]
  exact holds

end Grammar

end PatternLowering

import PatternLowering.Proofs.PatternParsers

/-!
# Chains of binary operators

Between two operators stands an operand, and nothing in the text tells which operators belong
together. Their precedence does: an operator takes all that binds tighter on its right, and what
binds at least as tightly on its left. Only one tree over a chain is grouped like that. Reading the
chain from left to right makes it, with one level of nesting for each rise of the precedence; there
are at most ten of these, so that reading fails only where an operand cannot be read.
-/

namespace PatternLowering

open Parse ParseState

/-! ### Grouped trees -/

/-- A chain of operands and the way in which its operators group. -/
inductive OperatorTree where
  | operand (n : NodeId)
  | join (left : OperatorTree) (op : BinaryOp) (right : OperatorTree)

namespace OperatorTree

def last : OperatorTree → NodeId
  | operand n => n
  | join _ _ right => right.last

/-- The chain without its last operand: each of the others with the operator behind it. -/
def links : OperatorTree → List (NodeId × BinaryOp)
  | operand _ => []
  | join left op right => left.links ++ (left.last, op) :: right.links

/-- The operator that joins the whole. -/
def top? : OperatorTree → Option BinaryOp
  | operand _ => none
  | join _ op _ => some op

/-- No operator has one that binds looser on its left, nor one on its right that does not bind
tighter. -/
def Grouped : OperatorTree → Prop
  | operand _ => True
  | join left op right => left.Grouped ∧ right.Grouped ∧
    (∀ top ∈ left.top?, op.precedence ≤ top.precedence) ∧
    ∀ top ∈ right.top?, op.precedence < top.precedence

/-- The operator between the two parts is the last of those in the chain that bind loosest. -/
structure LastLoosest (before : List (NodeId × BinaryOp)) (op : BinaryOp)
    (after : List (NodeId × BinaryOp)) : Prop where
  before : ∀ link ∈ before, op.precedence ≤ link.2.precedence
  after : ∀ link ∈ after, op.precedence < link.2.precedence

/-- A chain has one such operator. -/
lemma LastLoosest.unique {before before' after after' : List (NodeId × BinaryOp)}
    {x y : NodeId × BinaryOp} (loosest : LastLoosest before x.2 after)
    (loosest' : LastLoosest before' y.2 after')
    (same : before ++ x :: after = before' ++ y :: after') :
    before = before' ∧ x = y ∧ after = after' := by
  -- an operator further on would bind tighter than `x`, and not tighter
  have stays {before before' after after' more : List (NodeId × BinaryOp)} {x y : NodeId × BinaryOp}
      (loosest : LastLoosest before x.2 after) (loosest' : LastLoosest before' y.2 after')
      (longer : before' = before ++ more) (rest : x :: after = more ++ y :: after') :
        more = [] := by
    cases more with
    | nil => rfl
    | cons z more =>
      obtain ⟨rfl, rfl⟩ := List.cons.inj rest
      have tighter := loosest.after y (by simp)
      have looser := loosest'.before x (by simp [longer])
      omega
  rcases List.append_eq_append_iff.mp same with ⟨more, longer, rest⟩ | ⟨more, longer, rest⟩
  · obtain rfl := stays loosest loosest' longer rest
    obtain ⟨rfl, rfl⟩ := List.cons.inj rest
    exact ⟨by simpa using longer.symm, rfl, rfl⟩
  · obtain rfl := stays loosest' loosest longer rest
    obtain ⟨rfl, rfl⟩ := List.cons.inj rest
    exact ⟨by simpa using longer, rfl, rfl⟩

namespace Grouped

/-- What holds of the top holds of all operators. -/
lemma bound {minimum : Nat} {tree : OperatorTree} (grouped : tree.Grouped)
    (least : ∀ top ∈ tree.top?, minimum ≤ top.precedence) :
    ∀ link ∈ tree.links, minimum ≤ link.2.precedence := by
  induction tree with
  | operand n => simp [links]
  | join left op right ihLeft ihRight =>
    obtain ⟨isLeft, isRight, looser, tighter⟩ := grouped
    have atOp : minimum ≤ op.precedence := least op rfl
    intro link mem
    rcases List.mem_append.mp mem with mem | mem
    · exact ihLeft isLeft (fun top isTop => atOp.trans (looser top isTop)) link mem
    · rcases List.mem_cons.mp mem with rfl | mem
      · exact atOp
      · exact ihRight isRight (fun top isTop => atOp.trans (tighter top isTop).le) link mem

lemma lastLoosest {left right : OperatorTree} {op : BinaryOp}
    (grouped : (join left op right).Grouped) : LastLoosest left.links op right.links where
  before := grouped.1.bound grouped.2.2.1
  after := grouped.2.1.bound grouped.2.2.2

/-- Only one tree over a chain is grouped. -/
lemma unique {tree tree' : OperatorTree} (grouped : tree.Grouped) (grouped' : tree'.Grouped)
    (links : tree.links = tree'.links) (last : tree.last = tree'.last) : tree = tree' := by
  induction tree generalizing tree' with
  | operand n =>
    cases tree' with
    | operand n' => exact congrArg operand last
    | join left' op' right' => simp [OperatorTree.links] at links
  | join left op right ihLeft ihRight =>
    cases tree' with
    | operand n' => simp [OperatorTree.links] at links
    | join left' op' right' =>
      obtain ⟨before, cut, after⟩ := LastLoosest.unique (x := (left.last, op)) (y :=
        (left'.last, op')) grouped.lastLoosest grouped'.lastLoosest links
      obtain ⟨lastLeft, rfl⟩ := Prod.mk.inj cut
      rw [ihLeft grouped.1 grouped'.1 before lastLeft, ihRight grouped.2.1 grouped'.2.1 after last]

end Grouped

end OperatorTree

/-! ### The nodes of a tree -/

def Form.isBinary : Form → Bool
  | .binary .. => true
  | _ => false

namespace Table

variable {t t' : Table} {tree : OperatorTree} {n : NodeId}

/-- The node is no operator of the chain it stands in. -/
def IsOperand (t : Table) (n : NodeId) : Prop :=
  ∃ form, t.form? n = some form ∧ form.isBinary = false

/-- The node stands for the tree: each operator is a node of its own, and the operands are none. -/
def Shows (t : Table) : OperatorTree → NodeId → Prop
  | .operand operand, n => n = operand ∧ t.IsOperand n
  | .join left op right, n =>
    ∃ l r, t.form? n = some (.binary l op r) ∧ t.Shows left l ∧ t.Shows right r

lemma Shows.preserved (shown : t.Shows tree n) (keeps : t.Preserves t') : t'.Shows tree n := by
  induction tree generalizing n with
  | operand operand =>
    obtain ⟨rfl, form, found, plain⟩ := shown
    exact ⟨rfl, form, keeps.form? found, plain⟩
  | join left op right ihLeft ihRight =>
    obtain ⟨l, r, found, isLeft, isRight⟩ := shown
    exact ⟨l, r, keeps.form? found, ihLeft isLeft, ihRight isRight⟩

end Table

/-! ### Steps that may fail -/

namespace Parse

variable {α β : Type} {s s1 : ParseState} {p : Parse α} {Q : α → ParseState → Prop}
  {E : Halt → ParseState → Prop}

/-- From `s` the step leads to `Q`, or it stops with `E`. -/
structure Leads (s : ParseState) (p : Parse α) (Q : α → ParseState → Prop)
    (E : Halt → ParseState → Prop) : Prop where
  ok : Yields s p Q
  error : ∀ halt s', p s = .error halt s' → E halt s'

namespace Leads

lemma pure {a : α} (holds : Q a s) : Leads s (pure a) Q E := ⟨.pure holds, by rintro _ _ ⟨⟩⟩

/-- A step of which the outcome is known. -/
lemma step {a : α} {f : α → Parse β} {R : β → ParseState → Prop} (ran : p s = .ok a s1)
    (next : Leads s1 (f a) R E) : Leads s (p >>= f) R E := by
  constructor
  · intro b s' ran'
    rw [EStateM.bind_of_ok ran] at ran'
    exact next.ok b s' ran'
  · intro halt s' failed
    rw [EStateM.bind_of_ok ran] at failed
    exact next.error halt s' failed

lemma bind {f : α → Parse β} {R : β → ParseState → Prop} (first : Leads s p Q E)
    (next : ∀ a s1, p s = .ok a s1 → Q a s1 → Leads s1 (f a) R E) : Leads s (p >>= f) R E := by
  cases ran : p s with
  | ok a s1 => exact step ran (next a s1 ran (first.ok a s1 ran))
  | error halt s1 =>
    have stops : (p >>= f) s = .error halt s1 := EStateM.bind_of_error ran
    constructor
    · intro b s' ran'
      cases stops.symm.trans ran'
    · intro halt' s' failed
      cases stops.symm.trans failed
      exact first.error halt s1 ran

lemma imp {Q' : α → ParseState → Prop} {E' : Halt → ParseState → Prop} (leads : Leads s p Q E)
    (after : ∀ a s', Q a s' → Q' a s') (stopped : ∀ halt s', E halt s' → E' halt s') :
    Leads s p Q' E' :=
  ⟨fun a s' ran => after a s' (leads.ok a s' ran),
    fun halt s' failed => stopped halt s' (leads.error halt s' failed)⟩

/-- A step either gave something and led to `I` again, or led to `D`. A loop of such steps may also
meet its bound. -/
lemma iterate {I D : α → ParseState → Prop} {step : α → Parse (Option α)} {a : α} (start : I a s)
    (body : ∀ a s1, I a s1 → Leads s1 (step a)
      (fun next s' => (next = none → D a s') ∧ ∀ a', next = some a' → I a' s') E) :
    Leads s (iterate a step) D fun halt s' => halt = .exhausted ∨ E halt s' := by
  have within (bound : Nat) : ∀ a s1, I a s1 →
      Leads s1 (iterateWithin step bound a) D fun halt s' => halt = .exhausted ∨ E halt s' := by
    induction bound with
    | zero =>
      intro a s1 _
      exact ⟨by rintro _ _ ⟨⟩, by rintro _ _ ⟨⟩; exact .inl rfl⟩
    | succ bound ih =>
      intro a s1 holds
      refine ((body a s1 holds).imp (fun _ _ after => after) fun _ _ => .inr).bind
        fun next s' _ after => ?_
      cases next with
      | none => exact .pure (after.1 rfl)
      | some a' => exact ih a' s' (after.2 a' rfl)
  exact .step (rfl : (get : Parse ParseState) s = .ok s s) (within _ a s start)

end Leads

lemma exists_ok_of_run' {a : α} (ran : p.run' s = some a) : ∃ s', p s = .ok a s' := by
  unfold EStateM.run' EStateM.run at ran
  cases outcome : p s with
  | ok b s' =>
    rw [outcome] at ran
    cases ran
    exact ⟨s', rfl⟩
  | error halt s' =>
    rw [outcome] at ran
    cases ran

/-- Where the step succeeds, its node is an operand. -/
def GivesOperand (p : Parse NodeId) : Prop := ∀ s, Yields s p fun n s' => s'.table.IsOperand n

namespace GivesOperand

lemma finish (start : Nat) {form : Form} (plain : form.isBinary = false) :
    GivesOperand (finish start form) := by
  rintro _ _ _ ⟨⟩
  exact ⟨form, (Table.at_add_self _ _ _).form?, plain⟩

lemma bind {f : α → Parse NodeId} (later : ∀ {a}, GivesOperand (f a)) : GivesOperand (p >>= f) :=
  fun _ => .bind (Q := fun _ _ => True) (fun _ _ _ => trivial) fun _ s' _ => later s'

lemma ite {c : Prop} [Decidable c] {p q : Parse NodeId} (yes : GivesOperand p)
    (no : GivesOperand q) : GivesOperand (if c then p else q) := by
  split
  · exact yes
  · exact no

lemma fail (cause : SyntaxError) : GivesOperand (fail cause) := fun _ => .fail cause

/-- What goes on with an operand gives one again. -/
lemma iterate {p : Parse NodeId} {step : NodeId → Parse (Option NodeId)} (first : GivesOperand p)
    (body : ∀ n s, Yields s (step n) fun next s' =>
      (next = none → s' = s) ∧ ∀ m, next = some m → s'.table.IsOperand m) :
    GivesOperand (p >>= fun n => iterate n step) := by
  intro s
  refine (first s).bind fun n s1 isOperand => ?_
  refine (Leads.iterate (I := fun n s => s.table.IsOperand n) (D := fun n s => s.table.IsOperand n)
    (E := fun _ _ => True) isOperand fun m s2 isOperand => ⟨?_, fun _ _ _ => trivial⟩).ok
  intro next s' ran
  obtain ⟨ended, more⟩ := body m s2 next s' ran
  exact ⟨fun isNone => ended isNone ▸ isOperand, more⟩

end GivesOperand

end Parse

namespace Grammar

variable {inner : Productions}

lemma word_givesOperand : GivesOperand word :=
  .bind <| .ite (.bind <| .bind <| .finish _ rfl) (.fail _)

lemma regexLiteral_givesOperand : GivesOperand regexLiteral :=
  .bind <| .bind <| .bind <| .bind <| .finish _ rfl

lemma primary_givesOperand : GivesOperand (primary inner) := by
  refine .bind <| .bind fun {kind} => ?_
  split
  · exact .bind <| .ite word_givesOperand (.fail _)
  · exact .bind <| .bind <| .finish _ rfl
  · exact .bind <| .bind <| .finish _ rfl
  · exact regexLiteral_givesOperand
  · exact regexLiteral_givesOperand
  · exact .bind <| .bind <| .bind <| .finish _ rfl
  · exact .bind <| .bind <| .bind <| .bind <| .finish _ rfl
  · exact .bind <| .bind <| .bind <| .bind <| .finish _ rfl
  · exact .bind <| .finish _ rfl
  · exact .ite (.bind <| .finish _ rfl) (.fail _)
  · exact .fail _

lemma memberAccess_givesOperand (start : Nat) (object : NodeId) :
    GivesOperand (memberAccess inner start object) :=
  .bind <| .ite (.bind <| .finish _ rfl)
    (.bind <| .bind <| .bind <| .finish _ rfl)

lemma construct_givesOperand : GivesOperand (construct inner) := by
  refine .bind <| .bind <| .bind <| .bind fun {_} => ?_
  have constructed (start : Nat) (callee : NodeId) : GivesOperand (do
      let arguments ← if ← isAtPunctuator .openParen then callArguments inner else pure []
      finish start (.construct callee arguments)) :=
    .bind <| .ite (.bind <| .finish _ rfl) (.bind <| .finish _ rfl)
  exact .ite (.bind <| .bind (constructed _ _)) (.bind <| .bind (constructed _ _))

lemma leftHandSide_givesOperand : GivesOperand (leftHandSide inner) := by
  have further (start : Nat) (callee : NodeId) (s : ParseState) : Yields s (do
      if ← isAtMember then return some (← memberAccess inner start callee)
      if ← isAtPunctuator .openParen then
        let arguments ← callArguments inner
        return some (← finish start (.call callee arguments))
      return none) fun next s' =>
        (next = none → s' = s) ∧ ∀ m, next = some m → s'.table.IsOperand m := by
    have goesOn {p : Parse NodeId} (gives : GivesOperand p) (s1 : ParseState) :
        Yields s1 (return some (← p)) fun next s' =>
          (next = none → s' = s) ∧ ∀ m, next = some m → s'.table.IsOperand m := by
      refine (gives s1).bind fun n s' isOperand => .pure ⟨by simp, fun m same => ?_⟩
      exact Option.some.inj same ▸ isOperand
    refine .look rfl ?_
    split
    · exact goesOn (memberAccess_givesOperand start callee) s
    · refine .look rfl ?_
      split
      · exact .bind (Q := fun _ _ => True) (fun _ _ _ => trivial) fun arguments s1 _ =>
          goesOn (.finish start rfl) s1
      · exact .pure ⟨fun _ => rfl, by simp⟩
  exact .bind fun {start} => .bind <| .ite (.iterate construct_givesOperand (further start))
    (.iterate primary_givesOperand (further start))

lemma unary_givesOperand : GivesOperand (unary inner) := by
  refine .bind <| .bind fun {kind} => ?_
  split
  · exact .bind <| .bind <| .finish _ rfl
  · intro s
    refine (leftHandSide_givesOperand s).bind fun operand s1 isOperand => .look rfl ?_
    split
    · split
      · exact .pure isOperand
      · exact GivesOperand.bind (.finish _ rfl) s1
    · exact .pure isOperand

end Grammar

/-! ### Reading a chain -/

lemma BinaryOp.precedence_pos (op : BinaryOp) : 0 < op.precedence := by cases op <;> decide

lemma BinaryOp.precedence_le (op : BinaryOp) : op.precedence ≤ 10 := by cases op <;> decide

namespace ParseState

variable {s s1 s2 s3 s4 s' : ParseState}

/-- The binary operator at the current token. -/
def operatorAt? (s : ParseState) (allowIn : Bool) : Option BinaryOp :=
  if s.scanner.token.kind = .keyword .inKw ∧ ¬ allowIn then none
  else BinaryOp.ofToken? s.scanner.token.kind

/-- Nothing was read, and all nodes stayed what they are. -/
structure Grown (s s' : ParseState) : Prop where
  same : { s' with table := s.table } = s
  keeps : s.table.Preserves s'.table

lemma Grown.refl (s : ParseState) : s.Grown s := ⟨rfl, .refl _⟩

lemma Grown.finish {start : Nat} {form : Form} {n : NodeId} (grown : s.Grown s1)
    (finished : finish start form s1 = .ok n s') : s.Grown s' := by
  cases finished
  exact ⟨grown.same, grown.keeps.trans (Table.keeps_add _ _ _)⟩

/-- Reading an operand. What it may contain depends on the level of nesting, which is one of
`levels`. -/
def Operand (levels : Nat → Prop) (s : ParseState) (n : NodeId) (s' : ParseState) : Prop :=
  ∃ depth, levels depth ∧ Grammar.unary (.within depth) s = .ok n s'

/-- Operands and the operators behind them are read one after the other. Nodes may be added before
an operator is passed. -/
inductive Reaches (allowIn : Bool) (levels : Nat → Prop) (s : ParseState) :
    List (NodeId × BinaryOp) → ParseState → Prop
  | start : Reaches allowIn levels s [] s
  | link {links : List (NodeId × BinaryOp)} {n : NodeId} {op : BinaryOp}
      {s1 s2 s3 s4 : ParseState} :
    Reaches allowIn levels s links s1 → Operand levels s1 n s2 → s2.Grown s3 →
    s3.operatorAt? allowIn = some op → advance s3 = .ok () s4 →
    Reaches allowIn levels s (links ++ [(n, op)]) s4

/-- A whole chain with `n` as its last operand is read. -/
def Chain (allowIn : Bool) (levels : Nat → Prop) (s : ParseState) (links : List (NodeId × BinaryOp))
    (n : NodeId) (s' : ParseState) : Prop :=
  ∃ s1 s2, Reaches allowIn levels s links s1 ∧ Operand levels s1 n s2 ∧ s2.Grown s'

/-- Reading a chain stops before an operand: it cannot be read, or at the `limit` there is no level
left for it. -/
def Stuck (allowIn : Bool) (levels : Nat → Prop) (limit : Prop) (s : ParseState) (halt : Halt)
    (s' : ParseState) : Prop :=
  ∃ links s1, Reaches allowIn levels s links s1 ∧
    ((∃ depth, levels depth ∧ Grammar.unary (.within depth) s1 = .error halt s') ∨
      limit ∧ (fail .tooDeep : Parse NodeId) s1 = .error halt s')

section Chains

variable {allowIn : Bool} {levels levels' : Nat → Prop} {limit limit' : Prop} {n : NodeId}
  {op : BinaryOp} {links links' : List (NodeId × BinaryOp)} {halt : Halt}

lemma Reaches.trans (first : Reaches allowIn levels s links s1)
    (second : Reaches allowIn levels s1 links' s2) :
    Reaches allowIn levels s (links ++ links') s2 := by
  induction second with
  | start => simpa using first
  | link _ operand grown isOp passed ih =>
    rw [← List.append_assoc]
    exact .link ih operand grown isOp passed

lemma Reaches.imp (reaches : Reaches allowIn levels s links s')
    (more : ∀ depth, levels depth → levels' depth) : Reaches allowIn levels' s links s' := by
  induction reaches with
  | start => exact .start
  | link _ operand grown isOp passed ih =>
    obtain ⟨depth, level, ran⟩ := operand
    exact .link ih ⟨depth, more depth level, ran⟩ grown isOp passed

lemma Chain.imp (chain : Chain allowIn levels s links n s')
    (more : ∀ depth, levels depth → levels' depth) : Chain allowIn levels' s links n s' := by
  obtain ⟨s1, s2, reaches, ⟨depth, level, ran⟩, grown⟩ := chain
  exact ⟨s1, s2, reaches.imp more, ⟨depth, more depth level, ran⟩, grown⟩

lemma Stuck.imp (stuck : Stuck allowIn levels limit s halt s')
    (more : ∀ depth, levels depth → levels' depth) (further : limit → limit') :
    Stuck allowIn levels' limit' s halt s' := by
  obtain ⟨links, s1, reaches, failed⟩ := stuck
  refine ⟨links, s1, reaches.imp more, failed.imp ?_ (And.imp_left further)⟩
  rintro ⟨depth, level, failed⟩
  exact ⟨depth, more depth level, failed⟩

/-- Behind the operator the chain goes on. -/
lemma Chain.passed (chain : Chain allowIn levels s links n s1)
    (isOp : s1.operatorAt? allowIn = some op) (passed : advance s1 = .ok () s2) :
    Reaches allowIn levels s (links ++ [(n, op)]) s2 := by
  obtain ⟨_, _, reaches, operand, grown⟩ := chain
  exact .link reaches operand grown isOp passed

lemma Stuck.after (reaches : Reaches allowIn levels s links s1)
    (stuck : Stuck allowIn levels limit s1 halt s') : Stuck allowIn levels limit s halt s' := by
  obtain ⟨links', s2, reaches', failed⟩ := stuck
  exact ⟨links ++ links', s2, reaches.trans reaches', failed⟩

/-- From `s` on the chain of the tree was read, and `n` stands for the tree. -/
structure Climbs (allowIn : Bool) (levels : Nat → Prop) (s : ParseState) (tree : OperatorTree)
    (n : NodeId) (s' : ParseState) : Prop where
  chain : Chain allowIn levels s tree.links tree.last s'
  shown : s'.table.Shows tree n
  grouped : tree.Grouped

lemma Climbs.imp {tree : OperatorTree} (climbs : Climbs allowIn levels s tree n s')
    (more : ∀ depth, levels depth → levels' depth) : Climbs allowIn levels' s tree n s' :=
  ⟨climbs.chain.imp more, climbs.shown, climbs.grouped⟩

lemma Climbs.operand {depth : Nat} (level : levels depth)
    (ran : Grammar.unary (.within depth) s = .ok n s') :
    Climbs allowIn levels s (.operand n) n s' where
  chain := ⟨s, s', .start, ⟨depth, level, ran⟩, .refl s'⟩
  shown := ⟨rfl, Grammar.unary_givesOperand s n s' ran⟩
  grouped := trivial

/-- One operator more. -/
lemma Climbs.join {left right : OperatorTree} {l r : NodeId} {start : Nat}
    (climbs : Climbs allowIn levels s left l s1) (isOp : s1.operatorAt? allowIn = some op)
    (passed : advance s1 = .ok () s2) (further : Climbs allowIn levels s2 right r s3)
    (keeps : s1.table.Preserves s3.table) (finished : finish start (.binary l op r) s3 = .ok n s4)
    (looser : ∀ top ∈ left.top?, op.precedence ≤ top.precedence)
    (tighter : ∀ top ∈ right.top?, op.precedence < top.precedence) :
    Climbs allowIn levels s (.join left op right) n s4 := by
  have keeps' : s3.table.Preserves s4.table := (Grown.finish (.refl s3) finished).keeps
  refine ⟨?_, ⟨l, r, ?_, ?_, further.shown.preserved keeps'⟩,
    climbs.grouped, further.grouped, looser, tighter⟩
  · obtain ⟨_, _, reaches, operand, grown⟩ := further.chain
    refine ⟨_, _, ?_, operand, grown.finish finished⟩
    simpa [OperatorTree.links] using (climbs.chain.passed isOp passed).trans reaches
  · cases finished
    exact (Table.at_add_self _ _ _).form?
  · exact climbs.shown.preserved (keeps.trans keeps')

end Chains

end ParseState

namespace Grammar

variable {text : Text} {allowIn : Bool} {depth minimum : Nat} {s : ParseState}

lemma tighterOp?_eq (allowIn : Bool) (minimum : Nat) (s : ParseState) :
    tighterOp? allowIn minimum s =
      .ok ((s.operatorAt? allowIn).filter fun op => decide (minimum < op.precedence)) s := by
  unfold tighterOp? operatorAt?
  rw [kind_bind]
  split
  · rfl
  · cases BinaryOp.ofToken? s.scanner.token.kind with
    | none => rfl
    | some op =>
      dsimp only
      by_cases loose : op.precedence ≤ minimum
      · rw [if_pos loose, Option.filter_some, if_neg (by simpa using loose)]
        rfl
      · rw [if_neg loose, Option.filter_some, if_pos (by simpa using loose)]
        rfl

/-- How many levels of nesting may be left for an operand. Each of the ten precedences takes one at
most. -/
def Levels (depth minimum left : Nat) : Prop := left ≤ depth ∧ depth + minimum ≤ left + 10

/-- A chain was read as far as there are operators that bind tighter than `minimum`. -/
def Climbed (allowIn : Bool) (levels : Nat → Prop) (minimum : Nat) (s : ParseState) (n : NodeId)
    (s' : ParseState) : Prop :=
  ∃ tree, Climbs allowIn levels s tree n s' ∧ (∀ top ∈ tree.top?, minimum < top.precedence) ∧
    ∀ op ∈ s'.operatorAt? allowIn, op.precedence ≤ minimum

/-- Between two operators of this level: the next one does not bind tighter than the last one. -/
structure Climbing (text : Text) (allowIn : Bool) (levels : Nat → Prop) (minimum : Nat)
    (s : ParseState) (n : NodeId) (s' : ParseState) : Prop where
  holds : Holds text s true [(.expression, n)] s'
  tree : ∃ tree, Climbs allowIn levels s tree n s' ∧ (∀ top ∈ tree.top?, minimum < top.precedence) ∧
    ∀ top ∈ tree.top?, ∀ op ∈ s'.operatorAt? allowIn, op.precedence ≤ top.precedence

section Loop

variable {levels : Nat → Prop} {limit : Prop} {left right n : NodeId} {op : BinaryOp}
  {s1 s2 s3 s4 : ParseState}

lemma Climbing.next (climbing : Climbing text allowIn levels minimum s left s1)
    (isOp : s1.operatorAt? allowIn = some op) (tighter : minimum < op.precedence)
    (passed : advance s1 = .ok () s2) (climbed : Climbed allowIn levels op.precedence s2 right s3)
    (holds : Holds text s1 true [(.expression, right)] s3)
    (finished : finish s.here (.binary left op right) s3 = .ok n s4) :
    Climbing text allowIn levels minimum s n s4 := by
  obtain ⟨leftTree, climbs, _, looser⟩ := climbing.tree
  obtain ⟨rightTree, further, above, done⟩ := climbed
  have joined := climbs.join isOp passed further holds.keeps finished
    (fun top isTop => looser top isTop op isOp) above
  refine ⟨((meets_finish_over climbing.holds rfl rfl).ok holds finished).1, _, joined, ?_, ?_⟩
  · rintro top ⟨⟩
    exact tighter
  · rintro top ⟨⟩ op' isNext
    cases finished
    exact done op' isNext

/-- The loop over the operators, where what stands to their right is read level by level. -/
lemma binary_climbs_over (least : minimum ≤ 10)
    (rights : ∀ op : BinaryOp, minimum < op.precedence → ∀ s, s.Ready text →
      Leads s ((Productions.within depth).binary allowIn op.precedence)
        (Climbed allowIn (Levels depth minimum) op.precedence s)
        (Stuck allowIn (Levels depth minimum) limit s)) (ready : s.Ready text) :
    Leads s (binary (.within depth) allowIn minimum)
      (Climbed allowIn (Levels depth minimum) minimum s)
      (Stuck allowIn (Levels depth minimum) limit s) := by
  have sound := Productions.within_sound text depth
  have level : Levels depth minimum depth := ⟨le_rfl, by omega⟩
  have first : Leads s (unary (.within depth))
      (Climbing text allowIn (Levels depth minimum) minimum s)
      (Stuck allowIn (Levels depth minimum) limit s) := by
    constructor
    · intro n s1 ran
      exact ⟨(unary_makes sound s).ok ⟨rfl, ready⟩ ran, .operand n, .operand level ran,
        by rintro _ ⟨⟩, by rintro _ ⟨⟩⟩
    · intro halt s1 failed
      exact ⟨[], s, .start, .inl ⟨depth, level, failed⟩⟩
  have loop : Leads s (binary (.within depth) allowIn minimum)
      (Climbed allowIn (Levels depth minimum) minimum s) fun halt s' =>
        halt = .exhausted ∨ Stuck allowIn (Levels depth minimum) limit s halt s' := by
    refine .step (rfl : Parse.here s = .ok s.here s)
      (.bind (first.imp (fun _ _ h => h) fun _ _ => .inr)
      fun left s1 _ climbing => .iterate climbing fun left s1 climbing => ?_)
    refine .step (tighterOp?_eq allowIn minimum s1) ?_
    cases isOp : (s1.operatorAt? allowIn).filter fun op => decide (minimum < op.precedence) with
    | none =>
      obtain ⟨tree, climbs, above, _⟩ := climbing.tree
      refine .pure ⟨fun _ => ⟨tree, climbs, above, fun op isNext => ?_⟩, by simp⟩
      simpa using Option.filter_eq_none_iff.mp isOp op isNext
    | some op =>
      obtain ⟨isOp, tighter⟩ := Option.filter_eq_some_iff.mp isOp
      have tighter : minimum < op.precedence := by simpa using tighter
      obtain ⟨s2, passed⟩ : ∃ s2, advance s1 = .ok () s2 := ⟨_, rfl⟩
      have holds := meets_advance.ok (.refl climbing.holds.ready) passed
      refine .step passed (.bind ((rights op tighter s2 holds.ready).imp (fun _ _ h => h) ?_)
        fun right s3 ran climbed => .step rfl (.pure ⟨by simp, fun n same => ?_⟩))
      · obtain ⟨tree, climbs, _⟩ := climbing.tree
        exact fun halt s' stuck => stuck.after (climbs.chain.passed isOp passed)
      · cases same
        exact climbing.next isOp tighter passed climbed
          ((sound.binary allowIn op.precedence).meets.ok holds ran) rfl
  refine ⟨loop.ok, fun halt s' failed => (loop.error halt s' failed).resolve_left ?_⟩
  rintro rfl
  cases ((binary_makes sound allowIn minimum s).error ⟨rfl, ready⟩ failed).1

end Loop

lemma binary_climbs (text : Text) (allowIn : Bool) (depth : Nat) :
    ∀ (minimum : Nat) (s : ParseState),
    minimum ≤ 10 → s.Ready text → Leads s (binary (.within depth) allowIn minimum)
      (Climbed allowIn (Levels depth minimum) minimum s)
      (Stuck allowIn (Levels depth minimum) (depth + minimum < 10) s) := by
  induction depth with
  | zero =>
    intro minimum s least ready
    refine binary_climbs_over least (fun op tighter s1 _ =>
      ⟨.fail .tooDeep, fun halt s' failed => ?_⟩) ready
    have := op.precedence_le
    exact ⟨[], s1, .start, .inr ⟨by omega, failed⟩⟩
  | succ depth ih =>
    intro minimum s least ready
    refine binary_climbs_over least (fun op tighter s1 ready1 => ?_) ready
    -- one level less, and at least one precedence more: their sum does not fall
    have more (left : Nat) (level : Levels depth op.precedence left) :
        Levels (depth + 1) minimum left :=
      ⟨level.1.trans (Nat.le_succ depth), by have := level.2; omega⟩
    refine (ih op.precedence s1 op.precedence_le ready1).imp ?_ fun halt s' stuck =>
      stuck.imp more (by omega)
    rintro n s' ⟨tree, climbs, rest⟩
    exact ⟨tree, climbs.imp more, rest⟩

end Grammar

/-- A binary expression is the longest chain of operands from where it starts, and its node is the
one tree over the chain that is grouped by precedence and from the left. It fails with an operand of
the chain, and for want of levels only where fewer than ten are left. -/
theorem binary_expressions_group_by_precedence {text : Text} {s : ParseState} (ready : s.Ready text)
    (depth : Nat) (allowIn : Bool) :
    (∀ n s', Grammar.binary (.within depth) allowIn 0 s = .ok n s' →
      s'.operatorAt? allowIn = none ∧ ∃ tree : OperatorTree,
        Chain allowIn (Grammar.Levels depth 0) s tree.links tree.last s' ∧ s'.table.Shows tree n ∧
        tree.Grouped ∧ ∀ other : OperatorTree, other.Grouped → other.links = tree.links →
          other.last = tree.last → other = tree) ∧
      ∀ halt s', Grammar.binary (.within depth) allowIn 0 s = .error halt s' →
        Stuck allowIn (Grammar.Levels depth 0) (depth < 10) s halt s' := by
  have climbs := Grammar.binary_climbs text allowIn depth 0 s (Nat.zero_le 10) ready
  refine ⟨fun n s' ran => ?_, climbs.error⟩
  obtain ⟨tree, climbs, _, done⟩ := climbs.ok n s' ran
  refine ⟨Option.eq_none_iff_forall_not_mem.mpr fun op isOp => ?_, tree, climbs.chain, climbs.shown,
    climbs.grouped, fun other grouped links last => grouped.unique climbs.grouped links last⟩
  exact absurd (done op isOp) (Nat.not_le_of_lt op.precedence_pos)

/-- Three operators of two precedences, and one that is none where `in` is not allowed. -/
def chainBeforeIn : Text := ['a', '-', 'b', '*', 'c', '-', 'd', ' ', 'i', 'n', ' ', 'e']

theorem chain_stops_before_in : (Reading.start chainBeforeIn).Ready chainBeforeIn ∧
      ∃ n s', Grammar.binary (.within maxParseDepth) false 0
        (Reading.start chainBeforeIn) = .ok n s' ∧
        s'.scanner.token.kind = .keyword .inKw ∧ s'.operatorAt? false = none ∧
        ∃ tree : OperatorTree,
          Chain false (Grammar.Levels maxParseDepth 0) (Reading.start chainBeforeIn) tree.links
            tree.last s' ∧
          s'.table.Shows tree n ∧ tree.Grouped := by
  have ready := Reading.ready_start chainBeforeIn
  refine ⟨ready, ?_⟩
  have stops :
      (do let _ ← Grammar.binary (.within maxParseDepth) false 0; kind : Parse TokenKind).run'
        (Reading.start chainBeforeIn) = some (.keyword .inKw) := by decide +kernel
  obtain ⟨s'', stops⟩ := exists_ok_of_run' stops
  obtain ⟨n, s', ran, looked⟩ := EStateM.bind_eq_ok.mp stops
  have kind : EStateM.Result.ok s'.scanner.token.kind s' = .ok (.keyword .inKw) s'' := looked
  obtain ⟨ended, tree, chain, shown, grouped, _⟩ :=
    (binary_expressions_group_by_precedence ready maxParseDepth false).1 n s' ran
  exact ⟨n, s', ran, (EStateM.Result.ok.inj kind).1, ended, tree, chain, shown, grouped⟩

end PatternLowering

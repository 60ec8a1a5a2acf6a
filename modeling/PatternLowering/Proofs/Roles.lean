import PatternLowering.Proofs.Tables

/-!
# The roles of nodes

Which forms a node may have is decided by the role it plays for its parent, and the form decides the
roles of its own parts. Patterns only play the roles of targets.
-/

namespace PatternLowering

/-- A `declared` pattern has variables at its leaves, an assigned one any target of an assignment.
The `last` element of an array pattern may be a rest element. A `plainWord` is no keyword. -/
inductive Role where
  | program
  | statement
  | block
  | clause
  | handler
  | list
  | declarator
  | loopStart
  | loopHead
  | word
  | plainWord
  | key
  | expression
  | element
  | property
  | simple
  | target (declared : Bool)
  | bindingProperty (declared : Bool)
  | last (declared : Bool)
deriving DecidableEq, Repr

namespace Role

/-- The role of a property key. -/
def ofKey (computed : Bool) : Role := if computed then expression else key

/-- The roles of the parts of a function. -/
def functionParts (parts : FunctionParts) : List (Role × NodeId) :=
  parts.name.toList.map (word, ·) ++ parts.parameters.map (target true, ·) ++
    [(block, parts.body)]

/-- The roles of the elements of an array pattern, holes left out. -/
def items (declared : Bool) : List (Option NodeId) → List (Role × NodeId)
  | [] => []
  | none :: later => items declared later
  | some n :: later =>
    (if later.isEmpty then last declared else target declared, n) :: items declared later

/-- The parts of an expression and their roles; none for what is no expression. -/
def expressionSlots : Form → Option (List (Role × NodeId))
  | .identifier _ => some []
  | .number _ => some []
  | .string _ => some []
  | .regex _ => some []
  | .constant _ => some []
  | .arrayLiteral elements => some ((elements.filterMap id).map (element, ·))
  | .objectLiteral properties => some (properties.map (property, ·))
  | .member object name => some [(expression, object), (word, name)]
  | .element object index => some [(expression, object), (expression, index)]
  | .call callee arguments => some ((callee :: arguments).map (expression, ·))
  | .construct callee arguments => some ((callee :: arguments).map (expression, ·))
  | .parenthesized inside => some [(expression, inside)]
  | .sequence expressions => some (expressions.map (expression, ·))
  | .assignment left op value =>
    some [(if op = .plain then target false else simple, left), (expression, value)]
  | .binary left _ right => some [(expression, left), (expression, right)]
  | .conditional condition whenTrue whenFalse =>
    some [(expression, condition), (expression, whenTrue), (expression, whenFalse)]
  | .unary _ operand => some [(expression, operand)]
  | .update operand _ => some [(expression, operand)]
  | .functionExpression parts => some (functionParts parts)
  | _ => none

def statementSlots : Form → Option (List (Role × NodeId))
  | .variableStatement declared => some [(list, declared)]
  | .functionDeclaration parts => some (functionParts parts)
  | .expressionStatement inside => some [(expression, inside)]
  | .block statements => some (statements.map (statement, ·))
  | .ifStatement condition consequent alternative =>
    some ((expression, condition) :: (consequent :: alternative.toList).map (statement, ·))
  | .forStatement start condition step body =>
    some (start.toList.map (loopStart, ·) ++
      (condition.toList ++ step.toList).map (expression, ·) ++ [(statement, body)])
  | .forEach _ head subject body =>
    some [(loopHead, head), (expression, subject), (statement, body)]
  | .whileStatement condition body => some [(expression, condition), (statement, body)]
  | .doStatement body condition => some [(statement, body), (expression, condition)]
  | .switchStatement subject clauses =>
    some ((expression, subject) :: clauses.map (clause, ·))
  | .tryStatement body caught finalizer =>
    some ((block, body) :: (caught.toList.map (handler, ·) ++ finalizer.toList.map (block, ·)))
  | .throwStatement inside => some [(expression, inside)]
  | .labeledStatement label body => some [(word, label), (statement, body)]
  | .withStatement subject body => some [(expression, subject), (statement, body)]
  | .returnStatement inside => some (inside.toList.map (expression, ·))
  | .breakStatement label => some (label.toList.map (word, ·))
  | .continueStatement label => some (label.toList.map (word, ·))
  | .debuggerStatement => some []
  | .emptyStatement => some []
  | _ => none

/-- What may be assigned to, other than a pattern. -/
def simpleSlots : Form → Option (List (Role × NodeId))
  | .identifier _ => some []
  | .member object name => some [(expression, object), (word, name)]
  | .element object index => some [(expression, object), (expression, index)]
  | .parenthesized inside => some [(simple, inside)]
  | _ => none

def targetSlots (declared : Bool) : Form → Option (List (Role × NodeId))
  | .identifier _ => some []
  | .objectPattern properties => some (properties.map (bindingProperty declared, ·))
  | .arrayPattern elements => some (items declared elements)
  | form => if declared then none else simpleSlots form

/-- The parts of a node that plays a role, with the roles that they play in turn; none if a node of
this form cannot play the role. -/
def slots : Role → Form → Option (List (Role × NodeId))
  | program, .program statements => some (statements.map (statement, ·))
  | statement, form => statementSlots form
  | block, .block statements => some (statements.map (statement, ·))
  | clause, .caseClause test statements =>
    some (test.toList.map (expression, ·) ++ statements.map (statement, ·))
  | handler, .catchClause binding body => some [(word, binding), (block, body)]
  | list, .declarationList _ declarators => some (declarators.map (declarator, ·))
  | declarator, .declarator left value =>
    some ((target true, left) :: value.toList.map (expression, ·))
  | loopStart, .declarationList _ declarators => some (declarators.map (declarator, ·))
  | loopStart, form => expressionSlots form
  | loopHead, .declarationList _ declarators => some (declarators.map (declarator, ·))
  | loopHead, form => targetSlots false form
  | word, .identifier _ => some []
  | plainWord, .identifier name => if (Keyword.ofSpelling? name).isNone then some [] else none
  | key, .identifier _ => some []
  | key, .string _ => some []
  | key, .number _ => some []
  | expression, form => expressionSlots form
  | element, .spread inside => some [(expression, inside)]
  | element, form => expressionSlots form
  | property, .property name computed value => some [(ofKey computed, name), (expression, value)]
  | property, .accessor _ name computed function =>
    some [(ofKey computed, name), (expression, function)]
  | property, .shorthand name => some [(plainWord, name)]
  | simple, form => simpleSlots form
  | target declared, form => targetSlots declared form
  | bindingProperty _, .bindingProperty none false left => some [(plainWord, left)]
  | bindingProperty declared, .bindingProperty (some name) computed left =>
    some [(ofKey computed, name), (target declared, left)]
  | last declared, .restElement inside => some [(target declared, inside)]
  | last declared, form => targetSlots declared form
  | _, _ => none

end Role

/-- The node plays the role, and so do all nodes under it theirs. -/
inductive Fits (t : Table) : Role → NodeId → Prop where
  | mk {role : Role} {n : NodeId} {form : Form} {parts : List (Role × NodeId)}
    (found : t.form? n = some form) (slots : role.slots form = some parts)
    (inner : ∀ part ∈ parts, Fits t part.1 part.2) : Fits t role n

namespace Role

lemma map_items (declared : Bool) (elements : List (Option NodeId)) :
    (items declared elements).map Prod.snd = elements.filterMap id := by
  induction elements with
  | nil => rfl
  | cons first later ih => cases first <;> simp [items, ih]

lemma mem_items {declared : Bool} {elements : List (Option NodeId)} {part : Role × NodeId}
    (mem : part ∈ items declared elements) :
    part.2 ∈ elements.filterMap id ∧ (part.1 = target declared ∨ part.1 = last declared) := by
  induction elements with
  | nil => cases mem
  | cons first later ih =>
    cases first with
    | none => exact ih mem
    | some n =>
      rcases List.mem_cons.mp mem with rfl | mem
      · refine ⟨by simp, ?_⟩
        dsimp only
        split
        · exact .inr rfl
        · exact .inl rfl
      · exact ⟨List.mem_cons_of_mem _ (ih mem).1, (ih mem).2⟩

/-- Only the last element plays another role than the ones before it. -/
lemma items_append_singleton (declared : Bool) (elements : List (Option NodeId)) (n : NodeId) :
    items declared (elements ++ [some n]) =
      (elements.filterMap id).map (target declared, ·) ++ [(last declared, n)] := by
  induction elements with
  | nil => rfl
  | cons first later ih => cases first <;> simp [items, ih]

lemma map_functionParts (parts : FunctionParts) :
    (functionParts parts).map Prod.snd = parts.children := by
  simp [functionParts, FunctionParts.children, Function.comp_def]

variable {parts : List (Role × NodeId)} {form : Form}

lemma map_expressionSlots (known : expressionSlots form = some parts) :
    parts.map Prod.snd = form.children := by
  unfold expressionSlots at known
  split at known <;> cases known
  all_goals simp [Form.children, map_functionParts, Function.comp_def]

lemma map_statementSlots (known : statementSlots form = some parts) :
    parts.map Prod.snd = form.children := by
  unfold statementSlots at known
  split at known <;> cases known
  all_goals simp [Form.children, map_functionParts, Function.comp_def]

lemma map_simpleSlots (known : simpleSlots form = some parts) :
    parts.map Prod.snd = form.children := by
  unfold simpleSlots at known
  split at known <;> cases known
  all_goals simp [Form.children]

lemma map_targetSlots {declared : Bool} (known : targetSlots declared form = some parts) :
    parts.map Prod.snd = form.children := by
  unfold targetSlots at known
  split at known
  · cases known
    rfl
  · cases known
    simp [Form.children, Function.comp_def]
  · cases known
    exact map_items _ _
  · split at known
    · cases known
    · exact map_simpleSlots known

/-- The parts that play a role are the parts of the node, in order. -/
lemma map_slots {role : Role} (known : role.slots form = some parts) :
    parts.map Prod.snd = form.children := by
  unfold slots at known
  split at known <;> first
    | exact map_statementSlots known
    | exact map_expressionSlots known
    | exact map_targetSlots known
    | exact map_simpleSlots known
    | cases known
    | (split at known <;> cases known)
  all_goals simp [Form.children, Function.comp_def]

end Role

namespace Fits

variable {t t' : Table} {role : Role} {n : NodeId}

lemma lt_size (fits : Fits t role n) : n < t.size := by
  cases fits with
  | mk found _ _ =>
    obtain ⟨node, isNode, _⟩ := Table.form?_eq_some.mp found
    exact Table.lt_size isNode

lemma form (fits : Fits t role n) : ∃ form parts, t.form? n = some form ∧
    role.slots form = some parts ∧ ∀ part ∈ parts, Fits t part.1 part.2 := by
  cases fits with
  | mk found slots inner => exact ⟨_, _, found, slots, inner⟩

/-- A node plays another role where that one has the same parts. -/
lemma as {role' : Role} (fits : Fits t role n)
    (same : ∀ {form parts}, t.form? n = some form → role.slots form = some parts →
      role'.slots form = some parts) : Fits t role' n := by
  obtain ⟨form, parts, found, slots, inner⟩ := fits.form
  exact .mk found (same found slots) inner

/-- The parts of a node whose form is known. -/
lemma parts (fits : Fits t role n) {form : Form} (found : t.form? n = some form) :
    ∃ parts, role.slots form = some parts ∧ ∀ part ∈ parts, Fits t part.1 part.2 := by
  obtain ⟨_, _, found', slots, inner⟩ := fits.form
  cases found.symm.trans found'
  exact ⟨_, slots, inner⟩

/-- A word that is no keyword is a word. -/
lemma word_of_plain (fits : Fits t .plainWord n) : Fits t .word n := by
  obtain ⟨form, _, found, slots, _⟩ := fits.form
  cases form with
  | identifier name => exact .mk found rfl (by simp)
  | _ => cases slots

/-- Nodes that are there already keep their roles when others are added. -/
lemma congr (fits : Fits t role n)
    (same : ∀ m form, t.form? m = some form → t'.form? m = some form) : Fits t' role n := by
  induction fits with
  | mk found slots _ ih => exact .mk (same _ _ found) slots ih

/-- Changes elsewhere do not matter. -/
lemma recast {opens closes : Nat → Prop} {inside : NodeId → Prop} (fits : Fits t role n)
    (tidy : t.Tidy opens closes) (recast : Table.Recast inside t t')
    (apart : ∀ m, t.Under n m → ¬ inside m) : Fits t' role n := by
  induction fits with
  | @mk role n form parts found slots _ ih =>
    have found' : t'.form? n = some form := (recast.form? (apart n .self)).trans found
    refine .mk found' slots fun part mem => ih part mem fun m under => ?_
    obtain ⟨node, isNode, isForm⟩ := Table.form?_eq_some.mp found
    have isPart : part.2 ∈ t.children n := by
      refine Table.mem_children.mpr ⟨node, isNode, ?_⟩
      rw [isForm, ← Role.map_slots slots]
      exact List.mem_map_of_mem mem
    exact apart m ((Table.Under.part (tidy.parent?_of_mem isPart) .self).trans under)

end Fits

end PatternLowering

import PatternLowering.Grammar.Program
import PatternLowering.Proofs.Coupling

/-!
# Coupled productions

Every production does the same on a stretch that two texts share, as long as those one level further
in do. So it is at every depth, except that the second text may run out of nesting earlier.
-/

namespace PatternLowering

open Parse

/-- The nested productions do the same on both sides. -/
structure Stage.Paired (c : Stage) (inner inner' : Productions) : Prop where
  statement : ∀ {V}, c.Pairs V inner.statement inner'.statement c.Made
  binding : ∀ {V}, c.Pairs V inner.binding inner'.binding c.Made
  assignment : ∀ {V} allowIn, c.Pairs V (inner.assignment allowIn)
    (inner'.assignment allowIn) c.Made
  binary : ∀ {V} allowIn minimum,
    c.Pairs V (inner.binary allowIn minimum) (inner'.binary allowIn minimum) c.Made
  unary : ∀ {V}, c.Pairs V inner.unary inner'.unary c.Made
  construct : ∀ {V}, c.Pairs V inner.construct inner'.construct c.Made
  literal : ∀ {V} {n}, (V → c.Made n) → c.Pairs V (inner.literal n) (inner'.literal n) c.Made

namespace Grammar

open Stage

attribute [local simp] Form.children

variable {c : Stage} {V : Prop} {inner inner' : Productions} (paired : c.Paired inner inner')

lemma word_pairs : c.Pairs V word word c.Made :=
  .token <| .ite (.lexeme <| .next .advance <|
    .finish And.right (by simp)) .fail

lemma identifier_pairs : c.Pairs V identifier identifier c.Made :=
  .isAt <| .ite word_pairs .fail

include paired

lemma propertyKey_pairs :
    c.Pairs V (propertyKey inner) (propertyKey inner') fun key => c.Made key.1 := by
  refine .here fun {start start'} => .kind fun kind => ?_
  split
  · exact .next .advance <| (paired.assignment true).bind <| .next .expect <|
      .pure And.right
  · exact .stringValue <| .next .advance <|
      (Pairs.finish And.right (by simp)).bind <| .pure And.right
  · exact .lexeme <| .next .advance <|
      (Pairs.finish And.right (by simp)).bind <| .pure And.right
  · exact word_pairs.bind <| .pure And.right

variable {start start' : Nat} {α : Type} {n : NodeId} {W : α → Prop}

omit paired in
lemma isShorthandKey_pairs {key : NodeId} {g g' : Bool → Parse α} (made : V → c.Made key)
    (next : ∀ {found}, c.Pairs V (g found) (g' found) W) :
    c.Pairs V (isShorthandKey key >>= g) (isShorthandKey key >>= g') W :=
  .look (fun _ => rfl) (fun _ => rfl)
    (fun _ _ known like => by rw [Table.name?, like.form? (made known)]; rfl) next

omit paired in
lemma refuseDefault_pairs : c.Pairs V refuseDefault refuseDefault fun _ => True :=
  .isAt <| .ite .fail <| .pure fun _ => trivial

lemma bindingProperty_pairs :
    c.Pairs V (bindingProperty inner) (bindingProperty inner') c.Made := by
  refine .here fun {start start'} => .isAt <| .ite .stop ?_
  refine (propertyKey_pairs paired).bind @fun ⟨key, computed⟩ => .next .accept <|
    isShorthandKey_pairs And.right fun {_} => ?_
  have finished {V : Prop} (key' : Option NodeId) (value : NodeId)
    (starts : V → c.Starts start start')
      (parts : V → (∀ n ∈ key', c.Made n) ∧ c.Made value) :
      c.Pairs V (do refuseDefault; finish start (.bindingProperty key' computed value))
        (do refuseDefault; finish start' (.bindingProperty key' computed value)) c.Made :=
    refuseDefault_pairs.next <| .finish starts (by simp_all [or_imp, forall_and])
  refine .ite ?_ <| .ite ?_ .stop
  · exact paired.binding.bind fun {value} => finished (some key) value (·.1.1.2)
      (by simp +contextual)
  · exact finished none key (·.1.2) (by simp +contextual)

omit paired in
/-- Collecting nodes. -/
lemma collect_pairs {step step' : Parse (Option NodeId)}
    (body : c.Pairs V step step' fun next => ∀ n ∈ next, c.Made n) :
    c.Pairs V (many step) (many step') fun found => ∀ n ∈ found, c.Made n :=
  .many body

/-- One round of the loop over the properties of a declared pattern. -/
def nextProperty (inner : Productions) : Parse (Option NodeId) := do
  if ← isAtPunctuator .closeBrace then return none
  let property ← bindingProperty inner
  separator .closeBrace
  return some property

lemma nextProperty_pairs :
    c.Pairs V (nextProperty inner) (nextProperty inner') fun next => ∀ n ∈ next, c.Made n :=
  .isAt <| .ite (.pure (by simp)) <| (bindingProperty_pairs paired).bind <|
    .next .separator <| .pure (by simp)

lemma objectPattern_pairs : c.Pairs V (objectPattern inner) (objectPattern inner') c.Made :=
  .here <| .next .expect <| (collect_pairs (nextProperty_pairs paired)).bind <|
    .next .advance <| .finish (·.1.2) (by simp)

lemma restBinding_pairs : c.Pairs V (restBinding inner) (restBinding inner') c.Made :=
  .here <| .next .advance <| paired.binding.bind <|
    (Pairs.finish (·.1.2) (by simp)).bind <| .isAt <|
      .ite (.pure And.right) .fail

omit paired in
/-- Collecting the elements of an array, holes included. -/
lemma elements_pairs {step step' : Parse (Option (Option NodeId))}
    (body : c.Pairs V step step' fun next => ∀ element ∈ next, ∀ n ∈ element, c.Made n) :
    c.Pairs V (many step) (many step') fun found => ∀ n ∈ found.filterMap id, c.Made n :=
  (Pairs.many body).imp id fun found made n mem => by
    obtain ⟨element, isElement, rfl⟩ := List.mem_filterMap.mp mem
    exact made _ isElement n rfl

/-- One round of the loop over the elements of a declared pattern. -/
def nextElement (inner : Productions) : Parse (Option (Option NodeId)) := do
  if ← isAtPunctuator .closeBracket then return none
  if ← acceptPunctuator .comma then return some none
  if ← isAtPunctuator .ellipsis then return some (some (← restBinding inner))
  let element ← inner.binding
  refuseDefault
  separator .closeBracket
  return some (some element)

lemma nextElement_pairs : c.Pairs V (nextElement inner) (nextElement inner')
      fun next => ∀ element ∈ next, ∀ n ∈ element, c.Made n := by
  refine .isAt <| .ite (.pure (by simp)) <| .next .accept <|
    .ite (.pure (by simp)) <| .isAt <| .ite ?_ ?_
  · exact (restBinding_pairs paired).bind <| .pure (by simp)
  · exact paired.binding.bind <| refuseDefault_pairs.next <| .next .separator <|
      .pure (by simp)

lemma arrayPattern_pairs : c.Pairs V (arrayPattern inner) (arrayPattern inner') c.Made :=
  .here <| .next .expect <| (elements_pairs (nextElement_pairs paired)).bind <|
    .next .advance <| .finish (·.1.2) (by simp)

lemma binding_pairs : c.Pairs V (binding inner) (binding inner') c.Made := by
  refine .kind fun kind => ?_
  split
  · exact objectPattern_pairs paired
  · exact arrayPattern_pairs paired
  · exact identifier_pairs

/-! ### Functions -/

lemma block_pairs : c.Pairs V (block inner) (block inner') c.Made := by
  refine .here <| .next .expect <| (collect_pairs ?_).bind <|
    .next .advance <| .finish (·.1.2) (by simp)
  have statement {V : Prop} : c.Pairs V (do return some (← inner.statement))
      (do return some (← inner'.statement)) fun next => ∀ n ∈ next, c.Made n :=
    paired.statement.bind <| .pure (by simp)
  exact .isAt <| .ite (.pure (by simp)) <| .isAt <|
    .ite (.next .expect <| statement) <| statement

lemma parameter_pairs : c.Pairs V (parameter inner) (parameter inner') c.Made :=
  .isAt <| .ite .stop <| paired.binding.bind <| .isAt <|
    .ite .stop <| .next .separator <| .pure And.right

lemma signatureAndBody_pairs {name : Option NodeId}
    (made : V → ∀ n ∈ name, c.Made n) :
    c.Pairs V (signatureAndBody inner name) (signatureAndBody inner' name)
      fun parts => ∀ n ∈ parts.children, c.Made n := by
  refine .next .expect <| (collect_pairs ?_).bind <| .next .advance <|
    (block_pairs paired).bind <| .pure ?_
  · exact .isAt <| .ite (.pure (by simp)) <| (parameter_pairs paired).bind <|
      .pure (by simp)
  · simp_all [FunctionParts.children, or_imp]

lemma function_pairs (named : Bool) :
    c.Pairs V (function inner named) (function inner' named)
      fun parts => ∀ n ∈ parts.children, c.Made n := by
  refine .next .expect <| .isAt <| .ite ?_ <| .ite .stop ?_
  · exact identifier_pairs.bind <| signatureAndBody_pairs paired (by simp)
  · exact signatureAndBody_pairs paired (by simp)

/-! ### Targets -/

lemma target_pairs (made : V → c.Made n) : c.Pairs V (target inner n) (target inner' n) c.Made := by
  refine .form? made fun form => ?_
  split
  · exact paired.literal fun known => made known.1
  · exact paired.literal fun known => made known.1
  · exact .pure fun known => made known.1
  · exact .pure fun known => made known.1
  · exact .simple (fun known => made known.1) (.pure fun known => made known.1) .failAtNode

omit paired in
lemma discard_pairs {p p' : Parse α} (pairs : c.Pairs V p p' W) :
    c.Pairs V (discard p) (discard p') fun _ => True :=
  pairs.next <| .pure fun _ => trivial

lemma elementTarget_pairs (isLast : Bool) {element : NodeId}
    (made : V → c.Made element) :
    c.Pairs V (elementTarget inner isLast element) (elementTarget inner' isLast element)
      fun _ => True := by
  refine .form? made fun form => ?_
  split
  · rename_i expression
    refine .ite ?_ .failAtNode
    have inside : (V ∧ ∀ f ∈ some (Form.spread expression), ∀ part ∈ f.children, c.Made part) →
        c.Made expression := fun known => known.2 _ rfl expression (by simp)
    exact (target_pairs paired inside).bind <|
      .reinterpret (fun known => made known.1.1) (by simp)
  · exact discard_pairs (target_pairs paired fun known => made known.1)

lemma elementTargets_pairs {elements : List (Option NodeId)}
    (made : V → ∀ n ∈ elements.filterMap id, c.Made n) :
    c.Pairs V (elementTargets inner elements) (elementTargets inner' elements) fun _ => True := by
  induction elements with
  | nil => exact .pure fun _ => trivial
  | cons element later ih =>
    cases element with
    | none => exact ih fun known n mem => made known n (by simpa using mem)
    | some n =>
      exact (elementTarget_pairs paired _ fun known => made known n (by simp)).next <|
        ih fun known m mem => made known m (List.mem_cons_of_mem n mem)

lemma propertyTarget_pairs {property : NodeId}
    (made : V → c.Made property) :
    c.Pairs V (propertyTarget inner property) (propertyTarget inner' property) fun _ => True := by
  refine .form? made fun form => ?_
  split
  · rename_i key computed value
    have inside :
        (V ∧ ∀ f ∈ some (Form.property key computed value), ∀ part ∈ f.children, c.Made part) →
          c.Made key ∧ c.Made value := fun known =>
      ⟨known.2 _ rfl key (by simp), known.2 _ rfl value (by simp)⟩
    exact (target_pairs paired fun known => (inside known).2).bind <|
      .reinterpret (fun known => made known.1.1) fun known => by
        have := (inside known.1).1
        simp_all
  · rename_i name
    exact .reinterpret (fun known => made known.1) (by simp)
  · exact .failAtNode

lemma propertyTargets_pairs {properties : List NodeId} (made : V → ∀ n ∈ properties, c.Made n) :
    c.Pairs V (propertyTargets inner properties) (propertyTargets inner' properties)
      fun _ => True := by
  induction properties with
  | nil => exact .pure fun _ => trivial
  | cons property later ih =>
    exact (propertyTarget_pairs paired fun known => made known property (by simp)).next <|
      ih fun known n mem => made known n (by simp [mem])

lemma literal_pairs (made : V → c.Made n) :
    c.Pairs V (literal inner n) (literal inner' n) c.Made := by
  refine .form? made fun form => ?_
  split
  · rename_i elements
    have parts : (V ∧ ∀ f ∈ some (Form.arrayLiteral elements), ∀ part ∈ f.children, c.Made part) →
        ∀ m ∈ elements.filterMap id, c.Made m := fun known => known.2 _ rfl
    exact (elementTargets_pairs paired parts).next <|
      (Pairs.reinterpret (fun known => made known.1) parts).next <| .pure fun known => made known.1
  · rename_i properties
    have parts :
        (V ∧ ∀ f ∈ some (Form.objectLiteral properties), ∀ part ∈ f.children, c.Made part) →
          ∀ m ∈ properties, c.Made m := fun known => known.2 _ rfl
    exact (propertyTargets_pairs paired parts).next <|
      (Pairs.reinterpret (fun known => made known.1) parts).next <| .pure fun known => made known.1
  · exact .pure fun known => made known.1

/-! ### Expressions -/

lemma expression_pairs (allowIn : Bool) :
    c.Pairs V (expression inner allowIn) (expression inner' allowIn) c.Made := by
  refine .here <| (paired.assignment allowIn).bind <| .isAt <|
    .ite (.pure And.right) <| (collect_pairs ?_).bind <|
      .finish (·.1.1.2) (by simp +contextual)
  exact .next .accept <| .ite
    ((paired.assignment allowIn).bind <| .pure (by simp)) <| .pure (by simp)

lemma callArguments_pairs :
    c.Pairs V (callArguments inner) (callArguments inner') fun found => ∀ n ∈ found, c.Made n := by
  refine .next .expect <| (collect_pairs ?_).bind <| .next .advance <|
    .pure And.right
  exact .isAt <| .ite (.pure (by simp)) <| .isAt <| .ite .stop <|
    (paired.assignment true).bind <| .next .separator <| .pure (by simp)

lemma memberAccess_pairs {object : NodeId} (starts : V → c.Starts start start')
    (made : V → c.Made object) :
    c.Pairs V (memberAccess inner start object) (memberAccess inner' start' object) c.Made := by
  refine .next .accept <| .ite ?_ ?_
  · exact word_pairs.bind <| .finish (fun known => starts known.1)
      (by simp_all)
  · exact .next .expect <| (expression_pairs paired true).bind <|
      .next .expect <| .finish (fun known => starts known.1) (by simp_all)

omit paired in
lemma isAtMember_pairs {g g' : Bool → Parse α}
    (next : ∀ {found}, c.Pairs V (g found) (g' found) W) :
    c.Pairs V (isAtMember >>= g) (isAtMember >>= g') W :=
  .look (fun _ => rfl) (fun _ => rfl) (fun _ _ _ like => by rw [like.twins.scanner.kind]) next

lemma arrayElement_pairs : c.Pairs V (arrayElement inner) (arrayElement inner') c.Made :=
  .here <| .next .accept <| .ite
    ((paired.assignment true).bind <| .finish (·.1.2) (by simp)) <|
    paired.assignment true

lemma arrayLiteral_pairs : c.Pairs V (arrayLiteral inner) (arrayLiteral inner') c.Made := by
  refine .here <| .next .expect <| (elements_pairs ?_).bind <|
    .next .advance <| .finish (·.1.2) (by simp)
  exact .isAt <| .ite (.pure (by simp)) <| .next .accept <|
    .ite (.pure (by simp)) <| (arrayElement_pairs paired).bind <|
      .next .separator <| .pure (by simp)

/-- A property from its key on. -/
def afterKey (inner : Productions) (start : Nat) (key : NodeId) (computed : Bool) :
    Parse NodeId := do
  if ← acceptPunctuator .colon then
    let value ← inner.assignment true
    finish start (.property key computed value)
  else if !computed && (← isShorthandKey key) then
    refuseDefault
    finish start (.shorthand key)
  else if ← isAtPunctuator .openParen then fail (.unsupported .method)
  else fail (.expected Punctuator.colon.spelling)

/-- An accessor from its key on. -/
def accessorRest (inner : Productions) (start : Nat) (kind : AccessorKind) : Parse NodeId := do
  let (key, computed) ← propertyKey inner
  let functionStart ← here
  let parts ← signatureAndBody inner none
  let function ← finish functionStart (.functionExpression parts)
  let (count, error) := AccessorKind.arity kind
  if parts.parameters.length = count then finish start (.accessor kind key computed function)
  else failAtNode function error

/-- The accessor that a key opens, as far as the state tells. -/
def accessorAt (s : ParseState) : Option AccessorKind :=
  let named (word : String) : Bool :=
    s.scanner.token.kind = .identifier && String.ofList s.scanner.lexeme = word
  (if named "get" then some .getter else if named "set" then some .setter else none).filter
    fun _ => startsKey s.scanner.scan.token.kind

omit paired in
lemma accessorKind?_eq (s : ParseState) : accessorKind? s = .ok (accessorAt s) s := by
  have follow (kind : AccessorKind) :
      (do if startsKey (← peek) then return some kind else return none : Parse
        (Option AccessorKind)) s =
        .ok ((some kind).filter fun _ => startsKey s.scanner.scan.token.kind) s := by
    change (if startsKey s.scanner.scan.token.kind then pure (some kind) else pure none :
      Parse (Option AccessorKind)) s = _
    split <;> simp_all [Option.filter] <;> rfl
  unfold accessorKind? accessorAt
  rw [EStateM.bind_of_ok (rfl : isAtName "get" s = .ok _ s),
    EStateM.bind_of_ok (rfl : isAtName "set" s = .ok _ s)]
  dsimp only
  split
  · exact follow .getter
  · split
    · exact follow .setter
    · rfl

/-- An accessor from its key on. -/
lemma accessorRest_pairs (kind : AccessorKind) (starts : V → c.Starts start start') :
    c.Pairs V (accessorRest inner start kind) (accessorRest inner' start' kind) c.Made := by
  refine (propertyKey_pairs paired).bind @fun ⟨key, computed⟩ =>
    .here <| (signatureAndBody_pairs paired (by simp)).bind fun {parts} =>
      (Pairs.finish (·.1.2) (by simp)).bind fun {function} => ?_
  refine .ite (.finish (fun known => starts known.1.1.1.1) ?_) .failAtNode
  simp +contextual

lemma accessorProperty_pairs (kind : AccessorKind) (starts : V → c.Starts start start') :
    c.Pairs V (accessorProperty inner start kind) (accessorProperty inner' start' kind) c.Made :=
  .next .advance <| accessorRest_pairs paired kind starts

/-- A property from its key on. -/
lemma afterKey_pairs {key : NodeId} (computed : Bool) (starts : V → c.Starts start start')
    (made : V → c.Made key) :
    c.Pairs V (afterKey inner start key computed) (afterKey inner' start' key computed) c.Made := by
  refine .next .accept <| .ite ?_ ?_
  · exact (paired.assignment true).bind <| .finish (fun known => starts known.1)
      (by simp_all)
  · refine isShorthandKey_pairs made <| .ite ?_ ?_
    · exact refuseDefault_pairs.next <| .finish starts (by simp_all)
    · exact .isAt <| .ite .fail .fail

lemma plainProperty_pairs (starts : V → c.Starts start start') :
    c.Pairs V (plainProperty inner start) (plainProperty inner' start') c.Made :=
  (propertyKey_pairs paired).bind @fun ⟨_, computed⟩ =>
    afterKey_pairs paired computed (fun known => starts known.1) And.right

omit paired in
/-- A name is a key of one token. -/
lemma plainProperty_eq {s : ParseState} (isName : s.scanner.token.kind = .identifier)
    (start : Nat) : plainProperty inner start s = (do
      advance
      let key ← finish s.here (.identifier (String.ofList s.scanner.lexeme))
      afterKey inner start key false) s := by
  obtain ⟨⟨⟨kind, first, last, lineBreak⟩, opening, closing, faults⟩, table, found,
    lastStop, size⟩ := s
  obtain rfl : kind = .identifier := isName
  rfl

omit paired in
/-- The token behind a name is the same on both sides, unless it lies behind the blank. -/
lemma accessorAt_same {w : Twin} {old old' : Table} {drafts : NodeId → Prop} {s s' : ParseState}
    (twins : s.Twins w old old' drafts s')
    (passes : s.scanner.token.kind = .identifier → ∃ s2, advance s = .ok () s2 ∧ s2.Early w) :
    accessorAt s' = accessorAt s := by
  unfold accessorAt
  rw [twins.scanner.kind, twins.scanner.lexeme]
  by_cases isName : s.scanner.token.kind = .identifier
  · obtain ⟨s2, passed, early⟩ := passes isName
    obtain ⟨s2', passed', next, _⟩ := twins.advance passed early
    cases passed
    cases passed'
    have kind : s'.scanner.scan.token.kind = s.scanner.scan.token.kind := next.scanner.kind
    rw [kind]
  · simp [isName]

omit paired in
/-- Looking at the token behind a name, where what comes next passes the name without getting past
the blank. -/
lemma accessorKind?_pairs {g g' : Option AccessorKind → Parse α}
    (next : ∀ found, c.Pairs V (g found) (g' found) W)
    (passes : ∀ {found s a s1}, s.scanner.Steady → s.scanner.token.kind = .identifier →
      g found s = .ok a s1 → s1.Early c.twin → ∃ s2, advance s = .ok () s2 ∧ s2.Early c.twin) :
    c.Pairs V (accessorKind? >>= g) (accessorKind? >>= g') W where
  onward {s _ _} steady ran := by
    rw [EStateM.bind_of_ok (accessorKind?_eq s)] at ran
    exact (next _).onward steady ran
  run {s s' _ _} steady related ran early := by
    rw [EStateM.bind_of_ok (accessorKind?_eq s)] at ran
    have same : accessorAt s' = accessorAt s :=
      accessorAt_same related.2.twins fun isName => passes steady isName ran early
    rw [EStateM.bind_of_ok (accessorKind?_eq s'), same]
    exact (next _).run steady related ran early

lemma objectProperty_pairs : c.Pairs V (objectProperty inner) (objectProperty inner') c.Made := by
  refine .here fun {start start'} => .isAt <| .ite .stop <|
    accessorKind?_pairs (fun found => ?_) fun {found s _ _} steady isName ran early => ?_
  · cases found with
    | some kind => exact accessorProperty_pairs paired kind And.right
    | none => exact plainProperty_pairs paired And.right
  · -- Both kinds of property pass the name first.
    cases found with
    | some kind =>
      have rest :
          c.Pairs False (accessorRest inner start kind) (accessorRest inner' start' kind) c.Made :=
        accessorRest_pairs paired kind False.elim
      exact rest.early_of_pass ran early
    | none =>
      have rest : c.Pairs False
          (do let key ← finish s.here (.identifier (String.ofList s.scanner.lexeme))
              afterKey inner start key false)
          (do let key ← finish s.here (.identifier (String.ofList s.scanner.lexeme))
              afterKey inner' start' key false) c.Made :=
        (Pairs.finish False.elim False.elim).bind fun {key} =>
          afterKey_pairs paired false (fun known => known.1.elim) fun known => known.1.elim
      have ran : plainProperty inner start s = .ok _ _ := ran
      rw [plainProperty_eq isName] at ran
      exact rest.early_of_pass ran early

lemma objectLiteral_pairs : c.Pairs V (objectLiteral inner) (objectLiteral inner') c.Made := by
  refine .here <| .next .expect <| (collect_pairs ?_).bind <|
    .next .advance <| .finish (·.1.2) (by simp)
  exact .isAt <| .ite (.pure (by simp)) <| (objectProperty_pairs paired).bind <|
    .next .separator <| .pure (by simp)

omit paired in
lemma regexLiteral_pairs : c.Pairs V regexLiteral regexLiteral c.Made :=
  .here <| .next .rescanSlash <| .lexeme <| .next .advance <|
    .finish And.right (by simp)

lemma primary_pairs : c.Pairs V (primary inner) (primary inner') c.Made := by
  refine .here fun {start start'} => .kind fun kind => ?_
  have leaf {form : Form} (isLeaf : form.children = []) :
      c.Pairs (V ∧ c.Starts start start') (do advance; finish start form)
        (do advance; finish start' form) c.Made :=
    .next .advance <| .finish And.right (by rw [isLeaf]; simp)
  split
  · exact identifier_pairs
  · exact .lexeme <| leaf rfl
  · exact .stringValue <| leaf rfl
  · exact regexLiteral_pairs
  · exact regexLiteral_pairs
  · exact .next .advance <| (expression_pairs paired true).bind <| .next .expect <|
      .finish (·.1.2) (by simp)
  · exact arrayLiteral_pairs paired
  · exact objectLiteral_pairs paired
  · exact (function_pairs paired false).bind <| .finish (·.1.2) (by simp)
  · exact .ite (leaf rfl) .fail
  · exact .fail

lemma construct_pairs : c.Pairs V (construct inner) (construct inner') c.Made := by
  refine .here <| .next .advance <| .here <| .isAt <|
    .join paired.construct (primary_pairs paired) <|
      (Pairs.iterate And.right fun _ => ?_).bind <| .isAt <|
        .join (callArguments_pairs paired) (.pure (by simp)) <|
          .finish (·.1.1.1.1.2) (by simp +contextual)
  exact isAtMember_pairs <| .ite ((memberAccess_pairs paired (·.1.1.2) And.right).bind <|
    .pure (by simp)) <| .pure (by simp)

lemma leftHandSide_pairs : c.Pairs V (leftHandSide inner) (leftHandSide inner') c.Made := by
  refine .here <| .isAt <| .join (construct_pairs paired) (primary_pairs paired) <|
    .iterate And.right fun _ => isAtMember_pairs <| .ite ?_ <|
      .isAt <| .ite ?_ <| .pure (by simp)
  · exact (memberAccess_pairs paired (·.1.1.2) And.right).bind <| .pure (by simp)
  · exact (callArguments_pairs paired).bind <| (Pairs.finish (·.1.1.1.2)
      (by simp +contextual)).bind <| .pure (by simp)

lemma unary_pairs : c.Pairs V (unary inner) (unary inner') c.Made := by
  refine .here <| .kind fun kind => ?_
  cases UnaryOp.ofToken? kind with
  | some op =>
    exact .next .advance <| paired.unary.bind <| .finish (·.1.2) (by simp)
  | none =>
    refine (leftHandSide_pairs paired).bind fun {operand} => .token
      fun {kind lineBreak _ _ _ _} => ?_
    dsimp only
    cases UpdateOp.ofToken? kind with
    | none => exact .pure (·.1.2)
    | some op =>
      exact .ite (.pure (·.1.2)) <| .next .advance <|
        .finish (·.1.1.2) (by simp +contextual)

omit paired in
lemma tighterOp?_pairs {allowIn : Bool} {minimum : Nat} {g g' : Option BinaryOp → Parse α}
    (next : ∀ op, c.Pairs V (g op) (g' op) W) :
    c.Pairs V (tighterOp? allowIn minimum >>= g) (tighterOp? allowIn minimum >>= g') W := by
  have looked :
      c.Pairs V (tighterOp? allowIn minimum) (tighterOp? allowIn minimum) fun _ => True := by
    refine .kind fun kind => .ite (.pure fun _ => trivial) ?_
    cases BinaryOp.ofToken? kind with
    | some op => exact .ite (.pure fun _ => trivial) <| .pure fun _ => trivial
    | none => exact .pure fun _ => trivial
  exact looked.next (next _)

lemma binary_pairs (allowIn : Bool) (minimum : Nat) :
    c.Pairs V (binary inner allowIn minimum) (binary inner' allowIn minimum) c.Made := by
  refine .here <| (unary_pairs paired).bind <| .iterate And.right fun left =>
    tighterOp?_pairs fun op => ?_
  cases op with
  | none => exact .pure (by simp)
  | some op =>
    exact .next .advance <| (paired.binary allowIn op.precedence).bind <|
      (Pairs.finish (·.1.1.1.2) (by simp +contextual)).bind <| .pure (by simp)

lemma conditional_pairs (allowIn : Bool) :
    c.Pairs V (conditional inner allowIn) (conditional inner' allowIn) c.Made :=
  .here <| (binary_pairs paired allowIn 0).bind <| .next .accept <|
    .ite (.pure And.right) <| (paired.assignment true).bind <|
      .next .expect <| (paired.assignment allowIn).bind <|
        .finish (·.1.1.1.2) (by simp +contextual)

lemma assignment_pairs (allowIn : Bool) :
    c.Pairs V (assignment inner allowIn) (assignment inner' allowIn) c.Made := by
  refine .here fun {start start'} => (conditional_pairs paired allowIn).bind fun {left} => .kind
    fun kind => ?_
  cases AssignmentOp.ofToken? kind with
  | none => exact .pure And.right
  | some op =>
    have rest {V : Prop} (starts : V → c.Starts start start') {left : NodeId}
        (made : V → c.Made left) :
        c.Pairs V (do advance; finish start (.assignment left op (← inner.assignment allowIn)))
          (do advance; finish start' (.assignment left op (← inner'.assignment allowIn))) c.Made :=
      .next .advance <| (paired.assignment allowIn).bind <|
        .finish (fun known => starts known.1) (by simp_all)
    by_cases plain : op = .plain
    · simp only [if_pos plain]
      exact .ignore ((target_pairs paired And.right).bind <| rest (·.1.1.2) And.right)
    · simp only [if_neg plain]
      exact .simple And.right (rest (·.1.2) And.right) .stopAtNode

/-! ### Statements -/

lemma declarator_pairs (allowIn : Bool) :
    c.Pairs V (declarator inner allowIn) (declarator inner' allowIn) c.Made :=
  .here <| paired.binding.bind <| .next .accept <| .optional (paired.assignment allowIn) <|
    .finish (·.1.1.2) (by simp_all)

lemma declarationList_pairs (declared : DeclarationKind) (allowIn : Bool) :
    c.Pairs V (declarationList inner declared allowIn) (declarationList inner' declared allowIn)
      c.Made := by
  refine .here <| .next .advance <| (declarator_pairs paired allowIn).bind <|
    (collect_pairs ?_).bind <| .finish (·.1.1.2) (by simp +contextual)
  exact .next .accept <| .ite
    ((declarator_pairs paired allowIn).bind <| .pure (by simp)) <| .pure (by simp)

lemma inParens_pairs : c.Pairs V (inParens inner) (inParens inner') c.Made :=
  .next .expect <| (expression_pairs paired true).bind <| .next .expect <|
    .pure And.right

lemma ifStatement_pairs : c.Pairs V (ifStatement inner) (ifStatement inner') c.Made :=
  .here <| .next .advance <| (inParens_pairs paired).bind <|
    paired.statement.bind <| .next .accept <| .optional paired.statement <|
      .finish (·.1.1.1.2) (by simp_all)

lemma forEachHead_pairs (made : V → c.Made n) :
    c.Pairs V (forEachHead inner n) (forEachHead inner' n) c.Made := by
  refine .form? made fun form => ?_
  split
  · exact .pure fun known => made known.1
  · exact target_pairs paired fun known => made known.1

lemma forStart?_pairs :
    c.Pairs V (forStart? inner) (forStart? inner') fun first => ∀ n ∈ first, c.Made n := by
  refine .kind fun kind => .ite (.pure (by simp)) ?_
  cases declarationKind? kind with
  | some declared => exact (declarationList_pairs paired declared false).bind <| .pure (by simp)
  | none => exact (expression_pairs paired false).bind <| .pure (by simp)

lemma forPart?_pairs (close : Punctuator) :
    c.Pairs V (forPart? inner close) (forPart? inner' close) fun part => ∀ n ∈ part, c.Made n := by
  refine .isAt <| .ite ?_ ?_
  · exact Pairs.expect.next <| .pure (by simp)
  · exact (expression_pairs paired true).bind <| Pairs.expect.next <| .pure (by simp)

lemma forEach_pairs {head : NodeId} (isOf : Bool) (starts : V → c.Starts start start')
    (made : V → c.Made head) :
    c.Pairs V (forEach inner start head isOf) (forEach inner' start' head isOf) c.Made := by
  exact (forEachHead_pairs paired made).bind <| .next .advance <|
    .join (paired.assignment true) (expression_pairs paired true) <|
      .next .expect <| paired.statement.bind <| .finish (fun known => starts known.1.1.1)
        (by simp_all)

lemma forClauses_pairs {first : Option NodeId} (starts : V → c.Starts start start')
    (made : V → ∀ n ∈ first, c.Made n) :
    c.Pairs V (forClauses inner start first) (forClauses inner' start' first) c.Made :=
  .next .expect <| (forPart?_pairs paired _).bind <| (forPart?_pairs paired _).bind <|
    paired.statement.bind <| .finish (fun known => starts known.1.1.1)
      (by simp_all [or_imp])

lemma forStatement_pairs : c.Pairs V (forStatement inner) (forStatement inner') c.Made := by
  refine .here <| .next .advance <| .next .expect <|
    (forStart?_pairs paired).bind fun {first} => ?_
  cases first with
  | none => exact forClauses_pairs paired (·.1.2) (by simp)
  | some head =>
    refine .isAt <| .ite ?_ <| .isAtName <| .ite ?_ ?_
    · exact forEach_pairs paired false (·.1.2) (by simp)
    · exact forEach_pairs paired true (·.1.2) (by simp)
    · exact forClauses_pairs paired (·.1.2) And.right

lemma caseTest?_pairs :
    c.Pairs V (caseTest? inner) (caseTest? inner') fun test => ∀ n ∈ test, c.Made n := by
  refine .kind fun kind => ?_
  split
  · exact .next .advance <| (expression_pairs paired true).bind <| .pure (by simp)
  · exact .next .advance <| .pure (by simp)
  · exact .fail
  · exact .fail

lemma caseClause_pairs : c.Pairs V (caseClause inner) (caseClause inner') c.Made := by
  refine .here <| (caseTest?_pairs paired).bind <| .next .expect <|
    (collect_pairs ?_).bind <| .finish (·.1.1.2) (by simp_all [or_imp])
  exact .kind fun _ => .ite (.pure (by simp)) <| paired.statement.bind <| .pure (by simp)

lemma switchStatement_pairs :
    c.Pairs V (switchStatement inner) (switchStatement inner') c.Made := by
  refine .here <| .next .advance <| (inParens_pairs paired).bind <|
    .next .expect <| (collect_pairs ?_).bind <| .next .advance <|
      .finish (·.1.1.2) (by simp +contextual)
  exact .isAt <| .ite (.pure (by simp)) <| (caseClause_pairs paired).bind <|
    .pure (by simp)

lemma catchClause_pairs : c.Pairs V (catchClause inner) (catchClause inner') c.Made := by
  refine .here <| .next .advance <| .next .expect <| .isAt <| .isAt <|
    .ite .stop <| identifier_pairs.bind <| .next .expect <|
      (block_pairs paired).bind <| .finish (·.1.1.2) (by simp +contextual)

lemma tryStatement_pairs : c.Pairs V (tryStatement inner) (tryStatement inner') c.Made :=
  .here <| .next .advance <| (block_pairs paired).bind <| .isAt <|
    .optional (catchClause_pairs paired) <| .next .accept <| .optional (block_pairs paired) <|
      .ite .stop <| .finish (·.1.1.1.2) (by simp_all [or_imp])

lemma whileStatement_pairs : c.Pairs V (whileStatement inner) (whileStatement inner') c.Made :=
  .here <| .next .advance <| (inParens_pairs paired).bind <|
    paired.statement.bind <| .finish (·.1.1.2) (by simp +contextual)

lemma doStatement_pairs : c.Pairs V (doStatement inner) (doStatement inner') c.Made :=
  .here <| .next .advance <| paired.statement.bind <| .next .expect <|
    (inParens_pairs paired).bind <| (discard_pairs .accept).next <|
      .finish (·.1.1.2) (by simp +contextual)

lemma withStatement_pairs : c.Pairs V (withStatement inner) (withStatement inner') c.Made :=
  .here <| .next .advance <| (inParens_pairs paired).bind <|
    paired.statement.bind <| .finish (·.1.1.2) (by simp +contextual)

lemma returnStatement_pairs :
    c.Pairs V (returnStatement inner) (returnStatement inner') c.Made := by
  refine .here <| .next .advance <| .token <| .ite ?_ ?_
  · exact Pairs.endStatement.next <| .finish (·.1.2) (by simp)
  · exact (expression_pairs paired true).bind <| Pairs.endStatement.next <|
      .finish (·.1.1.2) (by simp)

lemma throwStatement_pairs : c.Pairs V (throwStatement inner) (throwStatement inner') c.Made :=
  .here <| .next .advance <| .token <| .ite .stop <|
    (expression_pairs paired true).bind <| .next .endStatement <|
      .finish (·.1.1.2) (by simp)

omit paired in
lemma jumpStatement_pairs {form : Option NodeId → Form}
    (parts : ∀ label, (form label).children = label.toList) :
    c.Pairs V (jumpStatement form) (jumpStatement form) c.Made := by
  exact .here <| .next .advance <| .token <| .optional identifier_pairs <|
    .next .endStatement <| .finish (·.1.1.2) (by simp_all)

lemma expressionStatement_pairs :
    c.Pairs V (expressionStatement inner) (expressionStatement inner') c.Made := by
  refine .here <| (expression_pairs paired true).bind <| .isAt <|
    .name? And.right <| .ite ?_ ?_
  · exact .next .advance <| paired.statement.bind <|
      .finish (·.1.1.2) (by simp +contextual)
  · exact .next .endStatement <| .finish (·.1.2) (by simp)

lemma statement_pairs : c.Pairs V (statement inner) (statement inner') c.Made := by
  refine .here <| .kind fun kind => ?_
  cases declarationKind? kind with
  | some declared =>
    exact (declarationList_pairs paired declared true).bind <| .next .endStatement <|
      .finish (·.1.2) (by simp)
  | none =>
    dsimp only
    split
    · exact block_pairs paired
    · exact .next .advance <| .finish And.right (by simp)
    · exact (function_pairs paired true).bind <| .finish (·.1.2) (by simp)
    · exact ifStatement_pairs paired
    · exact forStatement_pairs paired
    · exact switchStatement_pairs paired
    · exact tryStatement_pairs paired
    · exact whileStatement_pairs paired
    · exact returnStatement_pairs paired
    · exact doStatement_pairs paired
    · exact withStatement_pairs paired
    · exact throwStatement_pairs paired
    · exact jumpStatement_pairs fun _ => rfl
    · exact jumpStatement_pairs fun _ => rfl
    · exact .next .advance <| .next .endStatement <|
        .finish And.right (by simp)
    · exact expressionStatement_pairs paired

end Grammar

/-- The productions do the same at every depth, unless the second text runs out of nesting first. -/
lemma Productions.within_paired (c : Stage) {depth depth' : Nat}
    (enough : depth ≤ depth' ∨ c.limit) : c.Paired (within depth) (within depth') := by
  induction depth generalizing depth' with
  | zero =>
    exact ⟨.fail, .fail, fun _ => .fail, fun _ _ => .fail, .fail, .fail, fun _ => .fail⟩
  | succ depth ih =>
    cases depth' with
    | zero =>
      have deep : c.limit := enough.resolve_left (by omega)
      have paired := ih (.inl le_rfl)
      exact
        { statement := (Grammar.statement_pairs paired).tooDeep deep
          binding := (Grammar.binding_pairs paired).tooDeep deep
          assignment := fun allowIn => (Grammar.assignment_pairs paired allowIn).tooDeep deep
          binary := fun allowIn minimum =>
            (Grammar.binary_pairs paired allowIn minimum).tooDeep deep
          unary := (Grammar.unary_pairs paired).tooDeep deep
          construct := (Grammar.construct_pairs paired).tooDeep deep
          literal := fun made => (Grammar.literal_pairs paired made).tooDeep deep }
    | succ depth' =>
      have paired : c.Paired (within depth) (within depth') := ih (enough.imp (by omega) id)
      exact
        { statement := Grammar.statement_pairs paired
          binding := Grammar.binding_pairs paired
          assignment := fun allowIn => Grammar.assignment_pairs paired allowIn
          binary := fun allowIn minimum => Grammar.binary_pairs paired allowIn minimum
          unary := Grammar.unary_pairs paired
          construct := Grammar.construct_pairs paired
          literal := fun made => Grammar.literal_pairs paired made }

end PatternLowering

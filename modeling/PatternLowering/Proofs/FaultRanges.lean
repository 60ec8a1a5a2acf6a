import PatternLowering.Proofs.Registers
import PatternLowering.Proofs.Slices
import PatternLowering.Proofs.Tables

/-!
# Syntax errors lie in the text

An error is about a token, about a node or about the opening of a comment. All of these start and
stop between characters of the text. Since errors are reported in states that are not reached
otherwise, this is followed through every step of parsing, also through those that fail.
-/

namespace PatternLowering

/-- The stretch of text that the error is about starts and stops between characters. -/
def SyntaxFault.Within (text : Text) (fault : SyntaxFault) : Prop :=
  text.isBoundary fault.start ∧ text.isBoundary (fault.start + fault.length)

lemma SyntaxFault.within_of_le {text : Text} {start stop : Nat} (opens : text.isBoundary start)
    (closes : text.isBoundary stop) (forward : start ≤ stop) (cause : SyntaxError) :
    Within text ⟨start, stop - start, cause⟩ := by
  refine ⟨opens, ?_⟩
  change text.isBoundary (start + (stop - start))
  rwa [Nat.add_sub_of_le forward]

/-! ### Scanning -/

lemma Cursor.In.cons {text rest : Text} {offset : Nat} {x : Char}
    (inside : In text ⟨offset, x :: rest⟩) :
    In text ⟨offset + x.utf8Size, rest⟩ := inside.of_reaches (.cons (.refl _))

/-- A comment that is still open was open before, or it starts in the gap. -/
lemma Gap.openComment_skipFrom {text : Text} (state : Gap.Inside) (seen : Bool) (offset : Nat)
    (rest : Text) (inside : Cursor.In text ⟨offset, rest⟩) {k : Nat}
    (opened : (skipFrom state seen offset rest).openComment = some k) :
    state.openComment = some k ∨ text.isBoundary k ∧ text.isBoundary (k + 2) := by
  fun_induction skipFrom state seen offset rest with
  | case1 => exact .inl opened
  | case2 seen offset rest ih => exact ih inside.cons.cons opened
  | case3 seen offset rest ih =>
    rcases ih inside.cons.cons opened with same | inText
    · cases same
      exact .inr ⟨inside.isBoundary, inside.cons.cons.isBoundary⟩
    · exact .inr inText
  | case4 seen offset c rest _ _ _ ih => exact ih inside.cons opened
  | case5 seen offset c rest _ _ _ _ ih => exact ih inside.cons opened
  | case6 => cases opened
  | case7 seen offset c rest _ ih => exact ih inside.cons opened
  | case8 seen offset c rest _ ih => exact ih inside.cons opened
  | case9 start breaks seen offset rest ih =>
    rcases ih inside.cons.cons opened with impossible | inText
    · cases impossible
    · exact .inr inText
  | case10 start breaks seen offset c rest _ ih => exact ih inside.cons opened

namespace Scanner

variable {text : Text} {s : Scanner}

/-- The errors that are kept lie in the text. -/
def FaultsWithin (text : Text) (s : Scanner) : Prop := ∀ fault ∈ s.faults, fault.Within text

lemma faultsWithin_settle {opening : Cursor} {lexeme : Lexeme} {faults : List SyntaxFault}
    (lineBreak : Bool) (inside : opening.In text) (reaches : opening.Reaches lexeme.stop)
    (before : ∀ fault ∈ faults, fault.Within text) :
    (settle opening lexeme lineBreak faults).FaultsWithin text := by
  intro fault mem
  rcases List.mem_append.mp mem with mem | mem
  · exact before fault mem
  · obtain ⟨error, _, rfl⟩ := List.mem_map.mp mem
    exact SyntaxFault.within_of_le inside.isBoundary (inside.of_reaches reaches).isBoundary
      reaches.le error

lemma FaultsWithin.scan (within : s.FaultsWithin text) (inside : s.closing.In text) :
    s.scan.FaultsWithin text := by
  refine faultsWithin_settle _ (inside.of_reaches (Gap.reaches_skip _)) (Lexeme.reaches_read _)
    fun fault mem => ?_
  rcases List.mem_append.mp mem with mem | mem
  · exact within fault mem
  · obtain ⟨start, opened, rfl⟩ := List.mem_map.mp mem
    rcases Gap.openComment_skipFrom .spaces false _ _ inside
      (Option.mem_toList.mp opened) with impossible | inText
    · cases impossible
    · exact inText

lemma FaultsWithin.rescanSlash (within : s.FaultsWithin text) (stands : s.Stands text) :
    s.rescanSlash.FaultsWithin text := by
  unfold Scanner.rescanSlash
  split
  · exact faultsWithin_settle _ stands.opening (Lexeme.reaches_regex _) within
  · exact within

end Scanner

/-! ### Steps -/

/-- All that errors are reported about lies in the text, and so do the errors so far. -/
structure ParseState.InBounds (text : Text) (s : ParseState) : Prop where
  size : s.size = text.size
  stands : s.scanner.Stands text
  kept : s.scanner.FaultsWithin text
  faults : ∀ fault ∈ s.faults, fault.Within text
  last : text.isBoundary s.lastStop
  nodes : ∀ {n node}, s.table.get? n = some node →
    text.isBoundary node.start ∧ text.isBoundary node.stop ∧ node.start ≤ node.stop

/-- Whether the step fails or not, it stays in bounds. -/
def Parse.Bounded {α : Type} (text : Text) (x : Parse α) : Prop :=
  EStateM.Preserves (ParseState.InBounds text) x

namespace Parse.Bounded

open EStateM ParseState

variable {α β : Type} {text : Text}

lemma pure (a : α) : Bounded text (pure a) := Preserves.pure a

lemma throw (halt : Halt) : Bounded text (throw halt : Parse α) := Preserves.throw halt

lemma bind {x : Parse α} {f : α → Parse β} (first : Bounded text x)
    (later : ∀ {a}, Bounded text (f a)) :
    Bounded text (x >>= f) := Preserves.bind first fun _ => later

lemma ite {c : Prop} [Decidable c] {x y : Parse α} (yes : Bounded text x) (no : Bounded text y) :
    Bounded text (if c then x else y) := by
  split
  · exact yes
  · exact no

/-- A step that only looks at the state. -/
lemma look {x : Parse α} (same : ∀ {s}, (x s).state = s) : Bounded text x := by
  intro s bounds
  rw [same]
  exact bounds

lemma modify {f : ParseState → ParseState} (kept : ∀ s, s.InBounds text → (f s).InBounds text) :
    Bounded text (modify f) := kept

/-- What follows may rely on the bounds of the state that is looked at. -/
lemma get {f : ParseState → Parse α} (later : ∀ s, s.InBounds text → Bounded text (f s)) :
    Bounded text (get >>= f) := fun s bounds => later s bounds s bounds

lemma token {f : Token → Parse α} (later : ∀ t, text.isBoundary t.start → text.isBoundary t.stop →
    t.start ≤ t.stop → Bounded text (f t)) : Bounded text (Parse.token >>= f) := fun s bounds =>
  later s.scanner.token bounds.stands.isBoundary_start bounds.stands.isBoundary_stop
    bounds.stands.start_le_stop s bounds

lemma here {f : Nat → Parse α} (later : ∀ start, text.isBoundary start → Bounded text (f start)) :
    Bounded text (Parse.here >>= f) := fun s bounds =>
  later s.scanner.token.start bounds.stands.isBoundary_start s bounds

lemma kind {f : TokenKind → Parse α} (later : ∀ kind, Bounded text (f kind)) :
    Bounded text (Parse.kind >>= f) := bind (look rfl) (later _)

lemma isAt {k : TokenKind} {f : Bool → Parse α} (later : ∀ {found}, Bounded text (f found)) :
    Bounded text (Parse.isAt k >>= f) := bind (look rfl) later

lemma advance : Bounded text Parse.advance := by
  refine modify fun s bounds => ?_
  have stands := (Scanner.stands_scan bounds.stands.closing_in).1
  have within := bounds.kept.scan bounds.stands.closing_in
  refine ⟨bounds.size, stands.takeFaults, by simp [Scanner.FaultsWithin, Scanner.takeFaults],
    fun fault mem => ?_, bounds.stands.isBoundary_stop, bounds.nodes⟩
  rcases List.mem_append.mp mem with mem | mem
  · exact bounds.faults fault mem
  · exact within fault mem

lemma rescanSlash : Bounded text Parse.rescanSlash :=
  modify fun _ bounds => ⟨bounds.size, bounds.stands.rescanSlash.1,
    bounds.kept.rescanSlash bounds.stands, bounds.faults, bounds.last, bounds.nodes⟩

lemma failAt {start length : Nat} {cause : SyntaxError}
    (within : SyntaxFault.Within text ⟨start, length, cause⟩) :
    Bounded text (Parse.failAt start length cause : Parse α) := by
  refine bind (modify fun s bounds => ⟨bounds.size, bounds.stands, bounds.kept, fun fault mem => ?_,
    bounds.last, bounds.nodes⟩) <| throw _
  rcases List.mem_append.mp mem with mem | mem
  · exact bounds.faults fault mem
  · rw [List.mem_singleton.mp mem]
    exact within

lemma fail (cause : SyntaxError) : Bounded text (Parse.fail cause : Parse α) :=
  token fun _ opens closes forward => ite (throw _)
    (failAt (SyntaxFault.within_of_le opens closes forward cause))

/-- After a failure nothing follows. -/
lemma failThen (cause : SyntaxError) (f : β → Parse α) : Bounded text (Parse.fail cause >>= f) := by
  intro s bounds
  have failed : Bounded text (Parse.fail cause : Parse β) := fail cause
  have after := failed s bounds
  cases ran : (Parse.fail cause : Parse β) s with
  | ok b s' =>
    unfold Parse.fail at ran
    obtain ⟨t, _, looked, ran⟩ := bind_eq_ok.mp ran
    split at ran
    · cases ran
    · cases ran
  | error halt s' =>
    rw [ran] at after
    rw [bind_of_error ran]
    exact after

lemma failAtNode (n : NodeId) (cause : SyntaxError) :
    Bounded text (Parse.failAtNode n cause : Parse α) := by
  refine get fun s bounds => ?_
  cases found : s.table.get? n with
  | some node =>
    obtain ⟨opens, closes, forward⟩ := bounds.nodes found
    exact failAt (SyntaxFault.within_of_le opens closes forward cause)
  | none => exact here fun _ opens => failAt ⟨opens, opens⟩

lemma accept (k : TokenKind) : Bounded text (Parse.accept k) :=
  kind fun _ => ite (bind advance <| pure _) (pure _)

lemma expect (k : TokenKind) : Bounded text (Parse.expect k) :=
  bind (accept k) <| ite (pure _) (fail _)

lemma endStatement : Bounded text Parse.endStatement :=
  bind (accept _) <| ite (pure _) (token fun _ _ _ _ => ite (pure _) (fail _))

lemma separator (close : Punctuator) : Bounded text (Parse.separator close) :=
  isAt <| ite (pure _) (expect _)

lemma finish {start : Nat} (opens : text.isBoundary start) (form : Form) :
    Bounded text (Parse.finish start form) := by
  intro s bounds
  refine ⟨bounds.size, bounds.stands, bounds.kept, bounds.faults, bounds.last, fun found => ?_⟩
  obtain ⟨_, rfl⟩ | ⟨old, isOld, start, stop, _⟩ := Table.get?_add_eq_some found
  · refine ⟨opens, ?_, Nat.le_max_right ..⟩
    change text.isBoundary (max s.lastStop start)
    rcases Nat.le_total s.lastStop start with before | after
    · rwa [Nat.max_eq_right before]
    · rw [Nat.max_eq_left after]
      exact bounds.last
  · rw [start, stop]
    exact bounds.nodes isOld

lemma reinterpret (n : NodeId) (form : Form) : Bounded text (Parse.reinterpret n form) := by
  refine modify fun s bounds => ⟨bounds.size, bounds.stands, bounds.kept, bounds.faults,
    bounds.last, fun found => ?_⟩
  rw [Table.get?_reinterpret] at found
  obtain ⟨old, isOld, rfl⟩ := Option.map_eq_some_iff.mp found
  have inText := bounds.nodes isOld
  exact inText

lemma iterateWithin {step : α → Parse (Option α)} (body : ∀ {a}, Bounded text (step a))
    (bound : Nat) (a : α) : Bounded text (Parse.iterateWithin step bound a) := by
  induction bound generalizing a with
  | zero => exact throw _
  | succ bound ih =>
    refine bind body fun {next} => ?_
    cases next with
    | none => exact pure a
    | some a' => exact ih a'

lemma iterate (a : α) {step : α → Parse (Option α)} (body : ∀ {a}, Bounded text (step a)) :
    Bounded text (Parse.iterate a step) := get fun _ _ => iterateWithin body _ a

lemma many {step : Parse (Option α)} (body : Bounded text step) :
    Bounded text (Parse.many step) := by
  refine bind (iterate _ <| bind body fun {next} => ?_) (pure _)
  cases next <;> exact pure _

/-- Two ways to get what the following steps need. -/
lemma join {b : Prop} [Decidable b] {p q : Parse α} {f : α → Parse β} (yes : Bounded text p)
    (no : Bounded text q) (later : ∀ {a}, Bounded text (f a)) :
    Bounded text (if b then p >>= f else q >>= f) :=
  ite (bind yes later) (bind no later)

/-- A part that may be missing. -/
lemma optional {b : Prop} [Decidable b] {p : Parse α} {f : Option α → Parse β}
    (part : Bounded text p) (later : ∀ {found}, Bounded text (f found)) :
    Bounded text (if b then p >>= fun a => Pure.pure (some a) >>= f else Pure.pure none >>= f) :=
  ite (bind part <| bind (pure _) later) (bind (pure _) later)

lemma form? (n : NodeId) {f : Option Form → Parse α} (later : ∀ form, Bounded text (f form)) :
    Bounded text (Parse.form? n >>= f) := bind (look rfl) (later _)

end Parse.Bounded

/-- The productions one level further in stay in bounds. -/
structure Productions.Bounded (text : Text) (inner : Productions) : Prop where
  statement : Parse.Bounded text inner.statement
  binding : Parse.Bounded text inner.binding
  assignment : ∀ allowIn, Parse.Bounded text (inner.assignment allowIn)
  binary : ∀ allowIn minimum, Parse.Bounded text (inner.binary allowIn minimum)
  unary : Parse.Bounded text inner.unary
  construct : Parse.Bounded text inner.construct
  literal : ∀ n, Parse.Bounded text (inner.literal n)

/-! ### Productions -/

namespace Grammar

open Parse

variable {text : Text} {inner : Productions}

lemma word_bounded : Bounded text word :=
  .token fun _ opens _ _ => .ite (.bind (.look rfl) <| .bind .advance <| .finish opens _)
    (.fail _)

lemma identifier_bounded : Bounded text identifier := .isAt <| .ite word_bounded (.fail _)

lemma isShorthandKey_bounded (key : NodeId) : Bounded text (isShorthandKey key) := .look rfl

lemma refuseDefault_bounded : Bounded text refuseDefault := .isAt <| .ite (.fail _) (.pure _)

section Inner

variable (bounded : inner.Bounded text)

include bounded

lemma propertyKey_bounded : Bounded text (propertyKey inner) := by
  refine .here fun start opens => .kind fun _ => ?_
  split
  · exact .bind .advance <| .bind (bounded.assignment true) <| .bind (.expect _) <| .pure _
  · exact .bind (.look rfl) <| .bind .advance <| .bind (.finish opens _) <| .pure _
  · exact .bind (.look rfl) <| .bind .advance <| .bind (.finish opens _) <| .pure _
  · exact .bind word_bounded <| .pure _

lemma bindingProperty_bounded : Bounded text (bindingProperty inner) := by
  refine .here fun start opens => .isAt <| .ite (.failThen _ _) ?_
  refine .bind (propertyKey_bounded bounded) fun {key} => ?_
  have ended {found : Option NodeId × NodeId} : Bounded text (do
      refuseDefault
      finish start (.bindingProperty found.1 key.2 found.2)) :=
    .bind refuseDefault_bounded <| .finish opens _
  exact .bind (.accept _) <| .bind (isShorthandKey_bounded _) <|
    .ite (.bind bounded.binding <| .bind (.pure _) ended)
      (.ite (.bind (.pure _) ended) (.failThen _ _))

lemma objectPattern_bounded : Bounded text (objectPattern inner) :=
  .here fun _ opens => .bind (.expect _) <| .bind
    (.many (.isAt <| .ite (.pure _) (.bind (bindingProperty_bounded bounded) <|
      .bind (.separator _) <| .pure _))) <|
    .bind .advance <| .finish opens _

lemma restBinding_bounded : Bounded text (restBinding inner) :=
  .here fun _ opens => .bind .advance <| .bind bounded.binding <| .bind (.finish opens _) <|
    .isAt <| .ite (.pure _) (.fail _)

lemma arrayPattern_bounded : Bounded text (arrayPattern inner) := by
  refine .here fun _ opens => .bind (.expect _) <| .bind (.many (.isAt <| .ite (.pure _) ?_)) <|
    .bind .advance <| .finish opens _
  refine .bind (.accept _) <| .ite (.pure _) (.isAt <| .ite ?_ ?_)
  · exact .bind (restBinding_bounded bounded) <| .pure _
  · exact .bind bounded.binding <| .bind refuseDefault_bounded <| .bind (.separator _) <| .pure _

lemma binding_bounded : Bounded text (binding inner) := by
  refine .kind fun _ => ?_
  split
  · exact objectPattern_bounded bounded
  · exact arrayPattern_bounded bounded
  · exact identifier_bounded

lemma block_bounded : Bounded text (block inner) := by
  refine .here fun _ opens => .bind (.expect _) <| .bind (.many (.isAt <| .ite (.pure _) ?_)) <|
    .bind .advance <| .finish opens _
  have item : Bounded text (do return some (← inner.statement) : Parse (Option NodeId)) :=
    .bind bounded.statement <| .pure _
  exact .isAt <| .ite (.bind (.expect _) <| item) item

lemma parameter_bounded : Bounded text (parameter inner) :=
  .isAt <| .ite (.failThen _ _) (.bind bounded.binding <| .isAt <| .ite (.failThen _ _)
    (.bind (.separator _) <| .pure _))

lemma signatureAndBody_bounded (name : Option NodeId) :
    Bounded text (signatureAndBody inner name) :=
  .bind (.expect _) <| .bind
    (.many (.isAt <| .ite (.pure _) (.bind (parameter_bounded bounded) <| .pure _))) <|
    .bind .advance <| .bind (block_bounded bounded) <| .pure _

lemma function_bounded (named : Bool) : Bounded text (function inner named) :=
  .bind (.expect _) <| .isAt <|
    .ite (.bind identifier_bounded <| .bind (.pure _) <| signatureAndBody_bounded bounded _)
      (.ite (.failThen _ _) (.bind (.pure _) <| signatureAndBody_bounded bounded _))

lemma target_bounded (n : NodeId) : Bounded text (target inner n) := by
  refine .form? n fun _ => ?_
  split
  · exact bounded.literal n
  · exact bounded.literal n
  · exact .pure _
  · exact .pure _
  · exact .get fun _ _ => .ite (.pure _) (.failAtNode _ _)

lemma elementTarget_bounded (isLast : Bool) (element : NodeId) :
    Bounded text (elementTarget inner isLast element) := by
  refine .form? element fun _ => ?_
  split
  · exact .ite (.bind (target_bounded bounded _) <| .reinterpret _ _) (.failAtNode _ _)
  · exact .bind (target_bounded bounded _) <| .pure _

lemma elementTargets_bounded (elements : List (Option NodeId)) :
    Bounded text (elementTargets inner elements) := by
  induction elements with
  | nil => exact .pure _
  | cons element later ih =>
    cases element with
    | none => exact ih
    | some element => exact .bind (elementTarget_bounded bounded _ element) <| ih

lemma propertyTarget_bounded (property : NodeId) :
    Bounded text (propertyTarget inner property) := by
  refine .form? property fun _ => ?_
  split
  · exact .bind (target_bounded bounded _) <| .reinterpret _ _
  · exact .reinterpret _ _
  · exact .failAtNode _ _

lemma propertyTargets_bounded (properties : List NodeId) :
    Bounded text (propertyTargets inner properties) := by
  induction properties with
  | nil => exact .pure _
  | cons property later ih => exact .bind (propertyTarget_bounded bounded property) <| ih

lemma literal_bounded (n : NodeId) : Bounded text (literal inner n) := by
  refine .form? n fun _ => ?_
  split
  · exact .bind (elementTargets_bounded bounded _) <| .bind (.reinterpret _ _) <| .pure _
  · exact .bind (propertyTargets_bounded bounded _) <| .bind (.reinterpret _ _) <| .pure _
  · exact .bind (.pure _) <| .pure _

lemma expression_bounded (allowIn : Bool) : Bounded text (expression inner allowIn) :=
  .here fun _ opens => .bind (bounded.assignment allowIn) <| .isAt <| .ite (.pure _)
    (.bind (.many (.bind (.accept _) <| .ite (.bind (bounded.assignment allowIn) <| .pure _)
      (.pure _))) <| .finish opens _)

lemma callArguments_bounded : Bounded text (callArguments inner) := by
  refine .bind (.expect _) <| .bind (.many (.isAt <| .ite (.pure _) ?_)) <|
    .bind .advance <| .pure _
  exact .isAt <| .ite (.failThen _ _) (.bind (bounded.assignment true) <| .bind (.separator _) <|
    .pure _)

variable {start : Nat}

lemma memberAccess_bounded (opens : text.isBoundary start) (object : NodeId) :
    Bounded text (memberAccess inner start object) :=
  .bind (.accept _) <| .ite (.bind word_bounded <| .finish opens _)
    (.bind (.expect _) <| .bind (expression_bounded bounded true) <| .bind (.expect _) <|
      .finish opens _)

lemma arrayElement_bounded : Bounded text (arrayElement inner) :=
  .here fun _ opens => .bind (.accept _) <|
    .ite (.bind (bounded.assignment true) <| .finish opens _) (bounded.assignment true)

lemma arrayLiteral_bounded : Bounded text (arrayLiteral inner) := by
  refine .here fun _ opens => .bind (.expect _) <| .bind (.many (.isAt <| .ite (.pure _) ?_)) <|
    .bind .advance <| .finish opens _
  exact .bind (.accept _) <| .ite (.pure _) (.bind (arrayElement_bounded bounded) <|
    .bind (.separator _) <| .pure _)

lemma accessorProperty_bounded (opens : text.isBoundary start) (kind : AccessorKind) :
    Bounded text (accessorProperty inner start kind) := by
  refine .bind .advance <| .bind (propertyKey_bounded bounded) <| .here fun _ within =>
    .bind (signatureAndBody_bounded bounded none) fun {parts} => .bind (.finish within _)
      fun {function} => ?_
  exact .ite (.finish opens _) (.failAtNode _ _)

lemma plainProperty_bounded (opens : text.isBoundary start) :
    Bounded text (plainProperty inner start) := by
  refine .bind (propertyKey_bounded bounded) fun {key} => .bind (.accept _) <| ?_
  exact .ite (.bind (bounded.assignment true) <| .finish opens _)
    (.bind (isShorthandKey_bounded _) <| .ite (.bind refuseDefault_bounded <| .finish opens _)
      (.isAt <| .ite (.fail _) (.fail _)))

end Inner

lemma accessorKind?_bounded : Bounded text accessorKind? := by
  refine .bind (.look rfl) <| .bind (.look rfl) <| .ite (.bind (.pure _) fun {found} => ?_)
    (.ite (.bind (.pure _) fun {found} => ?_) (.bind (.pure _) fun {found} => ?_))
  all_goals
    cases found with
    | some kind => exact .bind (.look rfl) <| .ite (.pure _) (.pure _)
    | none => exact .pure _

lemma regexLiteral_bounded : Bounded text regexLiteral :=
  .here fun _ opens => .bind .rescanSlash <| .bind (.look rfl) <| .bind .advance <|
    .finish opens _

lemma isAtMember_bounded : Bounded text isAtMember := .look rfl

lemma tighterOp?_bounded (allowIn : Bool) (minimum : Nat) :
    Bounded text (tighterOp? allowIn minimum) := by
  refine .kind fun _ => .ite (.pure _) ?_
  split
  · exact .ite (.pure _) (.pure _)
  · exact .pure _

lemma jumpStatement_bounded (form : Option NodeId → Form) : Bounded text (jumpStatement form) :=
  .here fun _ opens => .bind .advance <| .token fun _ _ _ _ =>
    .optional identifier_bounded <| .bind .endStatement <| .finish opens _

section Nested

variable (bounded : inner.Bounded text)

include bounded

lemma objectProperty_bounded : Bounded text (objectProperty inner) := by
  refine .here fun start opens => .isAt <| .ite (.failThen _ _)
    (.bind accessorKind?_bounded fun {kind} => ?_)
  cases kind with
  | some kind => exact accessorProperty_bounded bounded opens kind
  | none => exact plainProperty_bounded bounded opens

lemma objectLiteral_bounded : Bounded text (objectLiteral inner) :=
  .here fun _ opens => .bind (.expect _) <| .bind
    (.many (.isAt <| .ite (.pure _) (.bind (objectProperty_bounded bounded) <|
      .bind (.separator _) <| .pure _))) <|
    .bind .advance <| .finish opens _

lemma primary_bounded : Bounded text (primary inner) := by
  refine .here fun start opens => .kind fun _ => ?_
  split
  · exact identifier_bounded
  · exact .bind (.look rfl) <| .bind .advance <| .finish opens _
  · exact .bind (.look rfl) <| .bind .advance <| .finish opens _
  · exact regexLiteral_bounded
  · exact regexLiteral_bounded
  · exact .bind .advance <| .bind (expression_bounded bounded true) <| .bind (.expect _) <|
      .finish opens _
  · exact arrayLiteral_bounded bounded
  · exact objectLiteral_bounded bounded
  · exact .bind (function_bounded bounded false) <| .finish opens _
  · exact .ite (.bind .advance <| .finish opens _) (.fail _)
  · exact .fail _

lemma construct_bounded : Bounded text (construct inner) := by
  refine .here fun _ opens => .bind .advance <| .here fun start within => .isAt <|
    .join bounded.construct (primary_bounded bounded) fun {first} => .bind (.iterate first <| ?_) <|
      .isAt <| .join (callArguments_bounded bounded) (.pure _) <| .finish opens _
  exact .bind isAtMember_bounded <| .ite (.bind (memberAccess_bounded bounded within _) <| .pure _)
    (.pure _)

lemma leftHandSide_bounded : Bounded text (leftHandSide inner) := by
  refine .here fun start opens => .isAt <| .join (construct_bounded bounded)
    (primary_bounded bounded)
    fun {first} => .iterate first <| .bind isAtMember_bounded <|
      .ite ?_ (.isAt <| .ite ?_ (.pure _))
  · exact .bind (memberAccess_bounded bounded opens _) <| .pure _
  · exact .bind (callArguments_bounded bounded) <| .bind (.finish opens _) <| .pure _

lemma unary_bounded : Bounded text (unary inner) := by
  refine .here fun start opens => .kind fun _ => ?_
  split
  · exact .bind .advance <| .bind bounded.unary <| .finish opens _
  · refine .bind (leftHandSide_bounded bounded) fun {operand} => .token fun t _ _ _ => ?_
    split
    · exact .ite (.pure _) (.bind .advance <| .finish opens _)
    · exact .pure _

lemma binary_bounded (allowIn : Bool) (minimum : Nat) :
    Bounded text (binary inner allowIn minimum) := by
  refine .here fun start opens => .bind (unary_bounded bounded) fun {first} => .iterate first <|
    .bind (tighterOp?_bounded allowIn minimum) fun {op} => ?_
  cases op with
  | some op =>
    exact .bind .advance <| .bind (bounded.binary allowIn _) <| .bind (.finish opens _) <| .pure _
  | none => exact .pure _

lemma conditional_bounded (allowIn : Bool) : Bounded text (conditional inner allowIn) :=
  .here fun _ opens => .bind (binary_bounded bounded allowIn 0) <| .bind (.accept _) <|
    .ite (.pure _) (.bind (bounded.assignment true) <| .bind (.expect _) <|
      .bind (bounded.assignment allowIn) <| .finish opens _)

lemma assignment_bounded (allowIn : Bool) : Bounded text (assignment inner allowIn) := by
  refine .here fun start opens => .bind (conditional_bounded bounded allowIn) fun {left} =>
    .kind fun _ => ?_
  split
  · exact .pure _
  · rename_i op _
    have assigned {left : NodeId} : Bounded text (do
        advance
        let right ← inner.assignment allowIn
        finish start (.assignment left op right)) :=
      .bind .advance <| .bind (bounded.assignment allowIn) <| .finish opens _
    exact .get fun _ _ => .ite (.bind (target_bounded bounded left) assigned)
      (.ite (.bind (.pure _) assigned) (.bind (.failAtNode _ _) assigned))

/-! ### Statements -/

lemma declarator_bounded (allowIn : Bool) : Bounded text (declarator inner allowIn) :=
  .here fun _ opens => .bind bounded.binding <| .bind (.accept _) <|
    .optional (bounded.assignment allowIn) <| .finish opens _

lemma declarationList_bounded (declared : DeclarationKind) (allowIn : Bool) :
    Bounded text (declarationList inner declared allowIn) :=
  .here fun _ opens => .bind .advance <| .bind (declarator_bounded bounded allowIn) <|
    .bind (.many (.bind (.accept _) <| .ite (.bind (declarator_bounded bounded allowIn) <| .pure _)
      (.pure _))) <| .finish opens _

lemma inParens_bounded : Bounded text (inParens inner) :=
  .bind (.expect _) <| .bind (expression_bounded bounded true) <| .bind (.expect _) <| .pure _

lemma ifStatement_bounded : Bounded text (ifStatement inner) :=
  .here fun _ opens => .bind .advance <| .bind (inParens_bounded bounded) <|
    .bind bounded.statement <| .bind (.accept _) <|
      .optional bounded.statement <| .finish opens _

lemma forEachHead_bounded (n : NodeId) : Bounded text (forEachHead inner n) := by
  refine .form? n fun _ => ?_
  split
  · exact .pure _
  · exact target_bounded bounded n

lemma forStart?_bounded : Bounded text (forStart? inner) := by
  refine .kind fun _ => .ite (.pure _) ?_
  split
  · exact .bind (declarationList_bounded bounded _ false) <| .pure _
  · exact .bind (expression_bounded bounded false) <| .pure _

lemma forPart?_bounded (close : Punctuator) : Bounded text (forPart? inner close) :=
  .isAt <| .ite (.bind (.pure _) <| .bind (.expect _) <| .pure _)
    (.bind (expression_bounded bounded true) <| .bind (.pure _) <| .bind (.expect _) <| .pure _)

lemma forEach_bounded {start : Nat} (opens : text.isBoundary start) (head : NodeId) (isOf : Bool) :
    Bounded text (forEach inner start head isOf) :=
  .bind (forEachHead_bounded bounded head) <| .bind .advance <|
    .join (bounded.assignment true) (expression_bounded bounded true) <| .bind (.expect _) <|
      .bind bounded.statement <| .finish opens _

lemma forClauses_bounded {start : Nat} (opens : text.isBoundary start) (first : Option NodeId) :
    Bounded text (forClauses inner start first) :=
  .bind (.expect _) <| .bind (forPart?_bounded bounded _) <| .bind (forPart?_bounded bounded _) <|
    .bind bounded.statement <| .finish opens _

lemma forStatement_bounded : Bounded text (forStatement inner) := by
  refine .here fun start opens => .bind .advance <| .bind (.expect _) <|
    .bind (forStart?_bounded bounded) fun {first} => ?_
  cases first with
  | none => exact forClauses_bounded bounded opens none
  | some head =>
    exact .isAt <| .ite (forEach_bounded bounded opens head false)
      (.bind (.look rfl) <| .ite (forEach_bounded bounded opens head true)
        (forClauses_bounded bounded opens (some head)))

lemma caseTest?_bounded : Bounded text (caseTest? inner) := by
  refine .kind fun _ => ?_
  split
  · exact .bind .advance <| .bind (expression_bounded bounded true) <| .pure _
  · exact .bind .advance <| .pure _
  · exact .fail _
  · exact .fail _

lemma caseClause_bounded : Bounded text (caseClause inner) :=
  .here fun _ opens => .bind (caseTest?_bounded bounded) <| .bind (.expect _) <|
    .bind (.many (.kind fun _ => .ite (.pure _) (.bind bounded.statement <| .pure _))) <|
      .finish opens _

lemma switchStatement_bounded : Bounded text (switchStatement inner) :=
  .here fun _ opens => .bind .advance <| .bind (inParens_bounded bounded) <| .bind (.expect _) <|
    .bind (.many (.isAt <| .ite (.pure _) (.bind (caseClause_bounded bounded) <| .pure _))) <|
      .bind .advance <| .finish opens _

lemma catchClause_bounded : Bounded text (catchClause inner) :=
  .here fun _ opens => .bind .advance <| .bind (.expect _) <| .isAt <| .isAt <|
    .ite (.failThen _ _) (.bind identifier_bounded <| .bind (.expect _) <|
      .bind (block_bounded bounded) <| .finish opens _)

lemma tryStatement_bounded : Bounded text (tryStatement inner) :=
  .here fun _ opens => .bind .advance <| .bind (block_bounded bounded) <| .isAt <|
    .optional (catchClause_bounded bounded) <| .bind (.accept _) <|
      .optional (block_bounded bounded) <| .ite (.failThen _ _) (.finish opens _)

lemma whileStatement_bounded : Bounded text (whileStatement inner) :=
  .here fun _ opens => .bind .advance <| .bind (inParens_bounded bounded) <|
    .bind bounded.statement <| .finish opens _

lemma doStatement_bounded : Bounded text (doStatement inner) :=
  .here fun _ opens => .bind .advance <| .bind bounded.statement <| .bind (.expect _) <|
    .bind (inParens_bounded bounded) <| .bind (.bind (.accept _) <| .pure _) <| .finish opens _

lemma withStatement_bounded : Bounded text (withStatement inner) :=
  .here fun _ opens => .bind .advance <| .bind (inParens_bounded bounded) <|
    .bind bounded.statement <| .finish opens _

lemma returnStatement_bounded : Bounded text (returnStatement inner) :=
  .here fun _ opens => .bind .advance <| .token fun _ _ _ _ =>
    .ite (.bind (.pure _) <| .bind .endStatement <| .finish opens _)
      (.bind (expression_bounded bounded true) <| .bind (.pure _) <| .bind .endStatement <|
        .finish opens _)

lemma throwStatement_bounded : Bounded text (throwStatement inner) :=
  .here fun _ opens => .bind .advance <| .token fun _ _ _ _ => .ite (.failThen _ _)
    (.bind (expression_bounded bounded true) <| .bind .endStatement <| .finish opens _)

lemma expressionStatement_bounded : Bounded text (expressionStatement inner) :=
  .here fun _ opens => .bind (expression_bounded bounded true) <| .isAt <|
    .bind (.look rfl) <|
      .ite (.bind .advance <| .bind bounded.statement <| .finish opens _)
        (.bind .endStatement <| .finish opens _)

lemma statement_bounded : Bounded text (statement inner) := by
  refine .here fun start opens => .kind fun _ => ?_
  split
  · exact .bind (declarationList_bounded bounded _ true) <| .bind .endStatement <| .finish opens _
  · split
    · exact block_bounded bounded
    · exact .bind .advance <| .finish opens _
    · exact .bind (function_bounded bounded true) <| .finish opens _
    · exact ifStatement_bounded bounded
    · exact forStatement_bounded bounded
    · exact switchStatement_bounded bounded
    · exact tryStatement_bounded bounded
    · exact whileStatement_bounded bounded
    · exact returnStatement_bounded bounded
    · exact doStatement_bounded bounded
    · exact withStatement_bounded bounded
    · exact throwStatement_bounded bounded
    · exact jumpStatement_bounded _
    · exact jumpStatement_bounded _
    · exact .bind .advance <| .bind .endStatement <| .finish opens _
    · exact expressionStatement_bounded bounded

end Nested

end Grammar

/-- At every depth the productions stay in bounds. -/
lemma Productions.within_bounded (text : Text) (depth : Nat) : (within depth).Bounded text := by
  induction depth with
  | zero =>
    exact ⟨.fail _, .fail _, fun _ => .fail _, fun _ _ => .fail _, .fail _, .fail _,
      fun _ => .fail _⟩
  | succ depth ih =>
    exact ⟨Grammar.statement_bounded ih, Grammar.binding_bounded ih, Grammar.assignment_bounded ih,
      Grammar.binary_bounded ih, Grammar.unary_bounded ih, Grammar.construct_bounded ih,
      Grammar.literal_bounded ih⟩

namespace Reading

variable {text : Text} {inner : Productions}

lemma continueWithin_inBounds (bounded : inner.Bounded text) (bound : Nat) {found : Array NodeId}
    {s : ParseState} (bounds : s.InBounds text) :
    (continueWithin inner bound found s).state.InBounds text := by
  induction bound generalizing found s with
  | zero => exact bounds
  | succ bound ih =>
    rw [continueWithin]
    split
    · exact bounds
    · have after := bounded.statement s bounds
      cases ran : inner.statement s with
      | ok statement s' =>
        rw [ran] at after
        exact ih after
      | error halt s' =>
        rw [ran] at after
        exact after

lemma start_inBounds (text : Text) : (start text).InBounds text := by
  have inside := Cursor.in_atStart text
  have none :
      (Scanner.ofText text).FaultsWithin text := by simp [Scanner.FaultsWithin, Scanner.ofText]
  exact ⟨rfl, (Scanner.stands_scan inside).1.takeFaults, by simp [Scanner.FaultsWithin,
    Scanner.takeFaults, start, Parse.advance, before, modify, modifyGet, MonadStateOf.modifyGet,
    EStateM.modifyGet], fun fault mem => none.scan inside fault mem, Text.isBoundary_zero text,
    fun found => by cases found⟩

lemma ofText_inBounds (text : Text) : (ofText text).state.InBounds text :=
  continueWithin_inBounds (Productions.within_bounded text _) _ (start_inBounds text)

end Reading

/-- Every syntax error lies in the text, between characters. -/
lemma Parsed.faults_within (text : Text) : ∀ fault ∈ (ofText text).faults, fault.Within text :=
  (Reading.ofText_inBounds text).faults

end PatternLowering

import PatternLowering.Grammar.Expression
import PatternLowering.Proofs.Productions

/-!
# Expressions

Accesses, calls and operators take the tree before them as their first part, so a loop over them
always holds one tree, which starts where the loop did.
-/

namespace PatternLowering

open Parse ParseState

variable {text : Text} {inner : Productions} {s0 s1 : ParseState} {moved : Bool}
  {slots : List (Role × NodeId)}

lemma Fits.element_of_expression {t : Table} {n : NodeId} (fits : Fits t .expression n) :
    Fits t .element n :=
  fits.as fun {form _} _ slots => by cases form <;> first | exact slots | cases slots

/-- What a compound assignment assigns to is no pattern. -/
lemma ParseState.Holds.simple {n : NodeId} {s : ParseState}
    (holds : Holds text s0 moved [(.expression, n)] s) (simple : s.table.isSimpleTarget n) :
    Holds text s0 moved [(.simple, n)] s :=
  holds.role fun fits => fits.simple_of_within simple

/-- A tree may play another role than the one it was made for. -/
lemma Parse.Makes.role {p : Parse NodeId} {role role' : Role} (makes : Makes text p role)
    (fits : ∀ {t : Table} {n : NodeId}, Fits t role n → Fits t role' n) : Makes text p role' :=
  fun s0 => (makes s0).post fun _ _ holds => holds.role fits

/-- Items after the first one, each after a comma. -/
lemma Parse.Makes.afterComma {p : Parse NodeId} {role : Role} (makes : Makes text p role) :
    Collects text (do if ← acceptPunctuator .comma then return some (← p) else return none)
      role := by
  intro s1
  refine .first_accept (by simp) (makes.meets.next <| .pure fun _ => id) fun _ =>
    .pure fun s h => ?_
  obtain ⟨rfl, ready⟩ := h
  exact .refl ready

namespace Grammar

variable (sound : inner.Sound text)

include sound

lemma expression_makes (allowIn : Bool) : Makes text (expression inner allowIn) .expression := by
  intro s0
  refine .start ((sound.assignment allowIn).meets.bind fun first =>
    .glance rfl fun {comma} => .ite (fun _ => .pure fun _ => id)
      fun _ => (sound.assignment allowIn).afterComma.meets.bind fun later => meets_finish rfl rfl)

lemma callArguments_meets : Meets (Holds text s0 moved slots) (callArguments inner)
      fun arguments => Holds text s0 true (slots ++ arguments.map (.expression, ·)) := by
  refine (meets_expect (by simp)).next <|
    (Collects.until rfl (?argument : Collects text _ .expression)).meets.bind
      fun arguments => meets_advance.next <| .pure fun _ => id
  intro s1
  refine .first rfl (.ite (fun _ => (meets_first_fail _).stop) fun _ => ?_)
  exact (sound.assignment true).separated _ s1

/-- The tree `object` becomes the first part of another one. -/
lemma memberAccess_meets {object : NodeId} (holds : Holds text s0 true [(.expression, object)] s1) :
    Meets (· = s1) (memberAccess inner s0.here object) fun n s =>
      Holds text s0 true [(.expression, n)] s ∧ s1.here < s.here := by
  refine .whenReady holds.ready (.first_accept (by simp) ?_ fun _ => ?_)
  · exact (word_makes fun _ => rfl).meets.bind fun name => meets_finish_over holds rfl rfl
  · exact .begin ((meets_expect (by simp)).next <| (expression_makes sound true).meets.bind
      fun key => (meets_expect (by simp)).next <| meets_finish_over holds rfl rfl)

lemma arrayElement_makes : Makes text (arrayElement inner) .element := by
  intro s0
  refine .first rfl (.first_accept (by simp) ?_ fun _ => ?_)
  · exact (sound.assignment true).meets.next <| meets_finish rfl rfl
  · exact (sound.assignment true).role (fun fits => fits.element_of_expression) s0

lemma arrayLiteral_makes : Makes text (arrayLiteral inner) .expression := by
  intro s0
  refine .start ((meets_expect (by simp)).next <|
    (meets_many_trees (fun e => e.toList.map (.element, ·)) fun s1 => ?_).bind
      fun elements => meets_advance.next <| (meets_finish ?_ rfl))
  · refine .first rfl (.ite (fun _ => .pure fun s h => ?_) fun _ => ?_)
    · obtain ⟨rfl, ready⟩ := h
      exact .refl ready
    · refine .first_accept (by simp) (.pure fun _ => id) fun _ => ?_
      exact (arrayElement_makes sound s1).next <| (meets_separator _).next <|
        .pure fun _ => id
  · induction elements with
    | nil => rfl
    | cons first later ih => cases first <;> simp_all [Role.slots, Role.expressionSlots]

omit sound in
lemma accessorKind?_meets {P : ParseState → Prop} : Meets P accessorKind? fun _ => P := by
  have follow (kind : AccessorKind) :
      Meets P (do if startsKey (← peek) then return some kind else return none) fun _ => P :=
    .glance rfl <| .ite (fun _ => .pure fun _ => id)
      fun _ => .pure fun _ => id
  exact .glance rfl <| .glance rfl <|
    .ite (fun _ => follow .getter) fun _ => .ite (fun _ => follow .setter)
      fun _ => .pure fun _ => id

lemma accessorProperty_meets (kind : AccessorKind) :
    Meets (Starting text s0) (accessorProperty inner s0.here kind)
      fun n => Holds text s0 true [(.property, n)] := by
  refine .begin (meets_advance.next <| (Meets.rebase fun _ => propertyKey_meets sound).bind
    fun found => ?_)
  obtain ⟨key, computed⟩ := found
  refine .fix fun s1 holds => .whenReady holds.ready (.start ?_)
  refine ((signatureAndBody_meets sound none).bind fun parts =>
    (meets_finish rfl rfl : Meets _ _ fun n => Holds text s1 true [(.expression, n)]).bind
      fun function => .ite (fun _ => ?_) fun _ => meets_failAtNode _ _)
  exact (meets_finish rfl rfl).pre fun s inner => (holds.trans inner).relax fun _ => by simp

lemma plainProperty_meets : Meets (Starting text s0) (plainProperty inner s0.here)
      fun n => Holds text s0 true [(.property, n)] := by
  refine (propertyKey_meets sound).bind fun found => ?_
  obtain ⟨key, computed⟩ := found
  refine (meets_accept (by simp)).bind fun colon => .ite (fun _ => ?_) fun _ =>
    (isShorthandKey_meets key).bind fun name => .ite (fun short => ?_) fun _ => ?_
  · exact (sound.assignment true).meets.bind fun value => meets_finish rfl rfl
  · obtain ⟨rfl, rfl⟩ : computed = false ∧ name = true := by simpa using short
    refine (refuseDefault_meets.pre (?_ : ∀ s, _ →
      Holds text s0 true [(.plainWord, key)] s)).next <| meets_finish rfl rfl
    exact fun s h => (h.1.relax fun _ => rfl).shorthand (h.2 rfl)
  · exact .glance rfl <|
      .ite (fun _ => (meets_failing _).pre fun s h => h.1)
        fun _ => (meets_failing _).pre fun s h => h.1

lemma objectProperty_makes : Makes text (objectProperty inner) .property := by
  intro s0
  refine .first rfl (.first rfl (.ite (fun _ => (meets_first_fail _).stop)
    fun _ => accessorKind?_meets.bind fun found => ?_))
  cases found with
  | some kind => exact accessorProperty_meets sound kind
  | none => exact plainProperty_meets sound

lemma objectLiteral_makes : Makes text (objectLiteral inner) .expression := by
  intro s0
  exact .start ((meets_expect (by simp)).next <|
    (Collects.until rfl ((objectProperty_makes sound).separated _)).meets.bind
      fun properties => meets_advance.next <| meets_finish rfl rfl)

omit sound in
lemma regexLiteral_meets (more : s0.scanner.token.kind ≠ .endOfFile) :
    Meets (Starting text s0) regexLiteral
      fun n => Holds text s0 true [(.expression, n)] := by
  have slash : Meets (Starting text s0) rescanSlash fun _ s =>
      (Holds text s0 false [] s ∧ s.scanner.token.kind ≠ .endOfFile) ∧ s.here = s0.here := by
    rintro s ⟨rfl, ready⟩
    exact ⟨meets_rescanSlash s ⟨.refl ready, more⟩, ready.scanner.stands.rescanSlash.2⟩
  refine .first rfl (slash.next <| (Meets.look fun _ => rfl).bind fun written =>
    ((meets_pass_word rfl).pre ?_).next <| meets_finish_spelled rfl)
  rintro s ⟨⟨⟨holds, more⟩, same⟩, rfl⟩
  exact ⟨holds, same, more, rfl⟩

lemma primary_makes : Makes text (primary inner) .expression := by
  intro s0
  refine .first rfl (.first rfl ?_)
  split
  · exact identifier_makes (fun _ => rfl) s0
  · rename_i isNumber
    exact .first rfl ((meets_first_word (by simp [isNumber]) rfl).next <|
      meets_finish_spelled rfl)
  · rename_i isString
    exact .first rfl ((meets_first_pass (by simp [isString])).next <|
      meets_finish rfl rfl)
  · rename_i isSlash
    exact regexLiteral_meets (by simp [isSlash])
  · rename_i isSlash
    exact regexLiteral_meets (by simp [isSlash])
  · exact .begin (meets_advance.next <| (expression_makes sound true).meets.next <|
      (meets_expect (by simp)).next <| meets_finish rfl rfl)
  · exact arrayLiteral_makes sound s0
  · exact objectLiteral_makes sound s0
  · exact (function_meets sound false).next <| meets_finish rfl rfl
  · rename_i isKeyword
    refine .ite (fun _ => ?_) fun _ => meets_first_fail _
    refine ((meets_pass_word rfl).pre ?_).next <| meets_finish_spelled rfl
    rintro s ⟨rfl, ready⟩
    exact ⟨.refl ready, rfl, by simp [isKeyword], ready.scanner.spelling_of_keyword isKeyword⟩
  · exact meets_first_fail _

omit sound in
/-- A step that gives a larger tree around the one before it. -/
lemma meets_around {step : NodeId → Parse (Option NodeId)} {first : NodeId}
    (body : ∀ n s1, Holds text s0 true [(.expression, n)] s1 →
      Meets (Starting text s1) (step n)
        (Stepped (fun n => Holds text s0 true [(.expression, n)])
          (fun n => Holds text s0 true [(.expression, n)]) n s1)) :
    Meets (Holds text s0 true [(.expression, first)]) (iterate first step)
      fun n => Holds text s0 true [(.expression, n)] :=
  meets_iterate (I := fun n => Holds text s0 true [(.expression, n)])
    (fun _ _ holds => holds.ready) fun n s1 holds => .whenReady holds.ready (body n s1 holds)

lemma construct_makes : Makes text (construct inner) .expression := by
  intro s0
  refine .start (meets_advance.next <| .fix fun s1 before => .whenReady before.ready
    (.first rfl (.first rfl (.join (fun _ => sound.construct s1)
      (fun _ => primary_makes sound s1) fun first => .bind (meets_around fun n s2 holds => ?member)
        fun callee => .glance rfl fun {_} => ?_))))
  · refine .glance rfl <| .ite (fun _ => ?_) fun _ =>
      .pure fun s h => h.1 ▸ holds
    exact ((memberAccess_meets sound holds).pre fun s h => h.1).bind fun n => .pure fun s h => h
  · have joined (s : ParseState) (holds : Holds text s1 true [(.expression, callee)] s) :
        Holds text s0 true [(.expression, callee)] s := before.trans holds
    refine .join (fun _ => (callArguments_meets sound).pre joined)
      (fun _ => .pure fun s holds => ?_) fun arguments => meets_finish rfl rfl
    exact joined s holds

lemma leftHandSide_makes : Makes text (leftHandSide inner) .expression := by
  intro s0
  refine .first rfl (.first rfl (.join (fun _ => construct_makes sound s0)
    (fun _ => primary_makes sound s0) fun first => meets_around fun n s1 holds => ?_))
  refine .glance rfl <| .ite (fun _ => ?member) fun _ =>
    .first rfl (.ite (fun _ => ?call) fun _ => .pure fun s h => h.1 ▸ holds)
  case member =>
    exact ((memberAccess_meets sound holds).pre fun s h => h.1).bind fun n => .pure fun s h => h
  case call =>
    exact .begin ((callArguments_meets sound).bind fun arguments =>
      (meets_finish_over holds rfl rfl).bind fun n => .pure fun s h => h)

lemma unary_makes : Makes text (unary inner) .expression := by
  intro s0
  refine .first rfl (.first rfl ?_)
  split
  · exact .begin (meets_advance.next <| sound.unary.meets.next <|
      meets_finish rfl rfl)
  · refine (leftHandSide_makes sound s0).bind fun operand => .glance rfl fun {t} => ?_
    split
    · exact .ite (fun _ => .pure fun _ => id)
        fun _ => meets_advance.next <| meets_finish rfl rfl
    · exact .pure fun _ => id

omit sound in
lemma tighterOp?_meets {P : ParseState → Prop} (allowIn : Bool) (minimum : Nat) :
    Meets P (tighterOp? allowIn minimum) fun _ => P := by
  refine .glance rfl fun {kind} => .ite (fun _ => .pure fun _ => id)
    fun _ => ?_
  split
  · exact .ite (fun _ => .pure fun _ => id) fun _ => .pure fun _ => id
  · exact .pure fun _ => id

lemma binary_makes (allowIn : Bool) (minimum : Nat) :
    Makes text (binary inner allowIn minimum) .expression := by
  intro s0
  refine .first rfl ((unary_makes sound s0).bind fun first => meets_around
    fun left s1 holds => (tighterOp?_meets allowIn minimum).bind fun op => ?_)
  cases op with
  | none => exact .pure fun s h => h.1 ▸ holds
  | some op =>
    exact .begin (meets_advance.next <| (sound.binary allowIn op.precedence).meets.bind
      fun right => (meets_finish_over holds rfl rfl).bind fun n => .pure fun s h => h)

lemma conditional_makes (allowIn : Bool) : Makes text (conditional inner allowIn) .expression := by
  intro s0
  refine .first rfl ((binary_makes sound allowIn 0 s0).bind fun condition =>
    (meets_accept (by simp)).next <| .ite (fun _ => .pure fun s holds => ?_) fun _ => ?_)
  · exact holds.relax fun _ => rfl
  · exact (sound.assignment true).meets.next <| (meets_expect (by simp)).next <|
      (sound.assignment allowIn).meets.next <| meets_finish rfl rfl

lemma assignment_makes (allowIn : Bool) : Makes text (assignment inner allowIn) .expression := by
  intro s0
  refine .first rfl ((conditional_makes sound allowIn s0).bind fun left =>
    .glance rfl fun {kind} => ?_)
  split
  · exact .pure fun _ => id
  · rename_i op _
    have assigned (n : NodeId) : Meets
        (Holds text s0 true [(if op = .plain then .target false else .simple, n)])
        (do advance; let right ← inner.assignment allowIn; finish s0.here (.assignment n op right))
        fun n => Holds text s0 true [(.expression, n)] :=
      meets_advance.next <| (sound.assignment allowIn).meets.next <|
        meets_finish rfl rfl
    refine meets_get.bind fun now => .ite (fun plain => ?_) fun compound =>
      .ite (fun simple => ?_) fun _ => (meets_failAtNode _ _).stop
    · rw [if_pos plain] at assigned
      exact (((target_turns sound.literal).meets left).pre fun s h => h.1).bind fun n =>
        (assigned n).pre fun s h => h.1 ▸ h.2
    · rw [if_neg compound] at assigned
      refine (assigned left).pre fun s h => ?_
      obtain ⟨holds, rfl⟩ := h
      exact holds.simple simple

end Grammar

end PatternLowering

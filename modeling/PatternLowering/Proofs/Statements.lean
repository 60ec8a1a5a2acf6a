import PatternLowering.Grammar.Statement
import PatternLowering.Proofs.Expressions

/-!
# Statements
-/

namespace PatternLowering

open Parse ParseState

variable {text : Text} {inner : Productions} {s0 s1 : ParseState} {moved : Bool}
  {slots : List (Role × NodeId)} {n : NodeId} {t : Table}

lemma Fits.expression_of_loopStart (fits : Fits t .loopStart n)
    (other : ∀ kind declarators, t.form? n ≠ some (.declarationList kind declarators)) :
    Fits t .expression n :=
  fits.as fun {form _} found slots => by
    cases form <;> first | exact slots | exact absurd found (other _ _)

lemma Fits.loopHead_of_target (fits : Fits t (.target false) n) : Fits t .loopHead n :=
  fits.as fun {form _} _ slots => by cases form <;> first | exact slots | cases slots

lemma Fits.loopStart_of_expression (fits : Fits t .expression n) : Fits t .loopStart n :=
  fits.as fun {form _} _ slots => by cases form <;> first | exact slots | cases slots

namespace Grammar

variable (sound : inner.Sound text)

include sound

lemma declarator_makes (allowIn : Bool) : Makes text (declarator inner allowIn) .declarator := by
  intro s0
  exact .first rfl ((sound.binding s0).next <| (meets_accept (by simp)).next <|
    (sound.assignment allowIn).optional fun _ => meets_finish rfl rfl)

lemma declarationList_makes {role : Role} (kind : DeclarationKind) (allowIn : Bool)
    (known : ∀ declarators, role.slots (.declarationList kind declarators) =
      some (declarators.map (.declarator, ·))) :
    Makes text (declarationList inner kind allowIn) role := by
  intro s0
  have declarator := declarator_makes sound allowIn
  exact .start (meets_advance.next <| declarator.meets.bind fun first =>
    declarator.afterComma.meets.bind fun later => meets_finish (known (first :: later)) rfl)

lemma inParens_meets : Meets (Holds text s0 moved slots) (inParens inner)
      fun n => Holds text s0 true (slots ++ [(.expression, n)]) :=
  (meets_expect (by simp)).next <| (expression_makes sound true).meets.next <|
    (meets_expect (by simp)).next <| .pure fun _ => id

lemma ifStatement_makes : Makes text (ifStatement inner) .statement := by
  intro s0
  refine .start (meets_advance.next <| (inParens_meets sound).next <|
    sound.statement.meets.next <| (meets_accept (by simp)).next <|
      sound.statement.optional fun _ => meets_finish ?_ rfl)
  simp [Role.slots, Role.statementSlots]

lemma forEachHead_meets (n : NodeId) :
    Meets (Holds text s0 moved [(.loopStart, n)]) (forEachHead inner n)
      fun m => Holds text s0 moved [(.loopHead, m)] := by
  refine .fix fun s1 holds => meets_form ?_
  split
  · rename_i isList
    refine .pure fun s same => same ▸ holds.role fun fits => ?_
    obtain ⟨parts, slots, inside⟩ := fits.parts isList
    exact .mk isList slots inside
  · rename_i other
    have expression : Holds text s0 moved [(.expression, n)] s1 :=
      holds.role fun fits => fits.expression_of_loopStart other
    refine (((target_turns sound.literal).meets n).imp (fun s same => same ▸ expression)
      fun m s h => ?_)
    obtain ⟨rfl, turned⟩ := h
    exact turned.role fun fits => fits.loopHead_of_target

lemma forStart?_meets : Meets (Holds text s0 true []) (forStart? inner)
      fun first => Holds text s0 true (first.toList.map (.loopStart, ·)) := by
  refine .glance rfl fun {kind} => .ite (fun _ => .pure fun _ => id)
    fun _ => ?_
  split
  · rename_i kind _
    have list : Makes text (declarationList inner kind false) .loopStart :=
      declarationList_makes sound kind false fun _ => rfl
    exact list.meets.bind fun n => .pure fun _ => id
  · have expression : Makes text (expression inner false) .loopStart :=
      (expression_makes sound false).role fun fits => fits.loopStart_of_expression
    exact expression.meets.bind fun n => .pure fun _ => id

lemma forPart?_meets (close : Punctuator) : Meets (Holds text s0 moved slots) (forPart? inner close)
      fun part => Holds text s0 true (slots ++ part.toList.map (.expression, ·)) := by
  refine .glance rfl <| .ite (fun _ => ?_) fun _ => ?_
  · exact (meets_expect (by simp)).next <| .pure fun s holds => by simpa using holds
  · exact (expression_makes sound true).meets.next <| (meets_expect (by simp)).next <|
      .pure fun _ => id

lemma forEach_meets (head : NodeId) (isOf : Bool) :
    Meets (Holds text s0 true [(.loopStart, head)]) (forEach inner s0.here head isOf)
      fun n => Holds text s0 true [(.statement, n)] := by
  refine (forEachHead_meets sound head).bind fun head => meets_advance.next <|
    .join (fun _ => (sound.assignment true).meets) (fun _ => (expression_makes sound true).meets)
      fun subject => ?_
  exact (meets_expect (by simp)).next <| sound.statement.meets.bind fun body =>
    meets_finish rfl rfl

lemma forClauses_meets (first : Option NodeId) :
    Meets (Holds text s0 true (first.toList.map (.loopStart, ·)))
      (forClauses inner s0.here first) fun n => Holds text s0 true [(.statement, n)] := by
  refine (meets_expect (by simp)).next <| (forPart?_meets sound .semicolon).bind
    fun condition => (forPart?_meets sound .closeParen).bind fun step =>
      sound.statement.meets.bind fun body => meets_finish ?_ rfl
  simp [Role.slots, Role.statementSlots]

lemma forStatement_makes : Makes text (forStatement inner) .statement := by
  intro s0
  refine .start (meets_advance.next <| (meets_expect (by simp)).next <|
    (forStart?_meets sound).bind fun first => ?_)
  cases first with
  | none => exact forClauses_meets sound none
  | some head =>
    exact .glance rfl <| .ite (fun _ => forEach_meets sound head false)
      fun _ => .glance rfl <|
        .ite (fun _ => forEach_meets sound head true) fun _ => forClauses_meets sound (some head)

lemma caseTest?_meets : Meets (Starting text s0) (caseTest? inner)
      fun test => Holds text s0 true (test.toList.map (.expression, ·)) := by
  refine .first rfl ?_
  split
  · exact .begin (meets_advance.next <| (expression_makes sound true).meets.next <|
      .pure fun _ => id)
  · rename_i isDefault
    exact (meets_first_pass (by simp [isDefault])).next <| .pure fun _ => id
  · exact meets_first_fail _
  · exact meets_first_fail _

lemma caseClause_makes : Makes text (caseClause inner) .clause := by
  intro s0
  exact .first rfl ((caseTest?_meets sound).bind fun test =>
    (meets_expect (by simp)).next <|
      (Collects.until rfl sound.statement.collects).meets.bind fun statements =>
        meets_finish rfl rfl)

lemma switchStatement_makes : Makes text (switchStatement inner) .statement := by
  intro s0
  exact .start (meets_advance.next <| (inParens_meets sound).bind fun subject =>
    (meets_expect (by simp)).next <|
      (Collects.until rfl (caseClause_makes sound).collects).meets.bind fun clauses =>
        meets_advance.next <| meets_finish rfl rfl)

lemma catchClause_makes : Makes text (catchClause inner) .handler := by
  intro s0
  have body : Makes text (block inner) .block := block_makes sound fun _ => rfl
  refine .start (meets_advance.next <| (meets_expect (by simp)).next <|
    .glance rfl <| .glance rfl <|
      .ite (fun _ => (meets_failing _).stop) fun _ => ?_)
  exact (identifier_makes fun _ => rfl).meets.bind fun name => (meets_expect (by simp)).next <|
    body.meets.bind fun body => meets_finish rfl rfl

lemma tryStatement_makes : Makes text (tryStatement inner) .statement := by
  intro s0
  have block : Makes text (block inner) .block := block_makes sound fun _ => rfl
  refine .start (meets_advance.next <| block.meets.next <| .glance rfl <|
    (catchClause_makes sound).optional fun _ => (meets_accept (by simp)).next <|
    block.optional fun _ =>
      .ite (fun _ => (meets_failing _).stop) fun _ => meets_finish ?_ rfl)
  simp [Role.slots, Role.statementSlots]

lemma whileStatement_makes : Makes text (whileStatement inner) .statement := by
  intro s0
  exact .start (meets_advance.next <| (inParens_meets sound).next <|
    sound.statement.meets.next <| meets_finish rfl rfl)

lemma withStatement_makes : Makes text (withStatement inner) .statement := by
  intro s0
  exact .start (meets_advance.next <| (inParens_meets sound).next <|
    sound.statement.meets.next <| meets_finish rfl rfl)

lemma doStatement_makes : Makes text (doStatement inner) .statement := by
  intro s0
  refine .start (meets_advance.next <| sound.statement.meets.bind fun body =>
    (meets_expect (by simp)).next <| (inParens_meets sound).bind fun condition =>
      ((meets_accept (by simp)).next <| .pure fun s holds => ?_).next <|
        meets_finish rfl rfl)
  exact holds.relax fun _ => rfl

/-- A statement that may be only a keyword. -/
lemma returnStatement_meets
    (more : s0.scanner.token.kind ≠ .endOfFile) :
    Meets (Starting text s0) (returnStatement inner)
      fun n => Holds text s0 true [(.statement, n)] := by
  refine .first rfl ((meets_first_pass more).next <|
    .glance rfl fun {t} => .ite (fun _ => ?_) fun _ => ?_)
  · exact meets_endStatement.next <| meets_finish rfl rfl
  · exact (expression_makes sound true).meets.next <| meets_endStatement.next <|
      meets_finish rfl rfl

omit sound in
lemma jumpStatement_meets {form : Option NodeId → Form}
    (known : ∀ label, Role.slots .statement (form label) = some (label.toList.map (.word, ·)))
    (plain : ∀ label, (form label).isSpelled = false)
    (more : s0.scanner.token.kind ≠ .endOfFile) :
    Meets (Starting text s0) (jumpStatement form)
      fun n => Holds text s0 true [(.statement, n)] := by
  exact .first rfl ((meets_first_pass more).next <| .glance rfl <|
    (identifier_makes fun _ => rfl).optional fun label => meets_endStatement.next <|
      meets_finish (known label) (plain label))

lemma throwStatement_makes : Makes text (throwStatement inner) .statement := by
  intro s0
  refine .start (meets_advance.next <| .glance rfl fun {t} =>
    .ite (fun _ => (meets_failing _).stop) fun _ => ?_)
  exact (expression_makes sound true).meets.next <| meets_endStatement.next <|
    meets_finish rfl rfl

lemma expressionStatement_makes : Makes text (expressionStatement inner) .statement := by
  intro s0
  refine .first rfl ((expression_makes sound true s0).bind fun inside =>
    .glance rfl fun {colon} => (meets_name? inside).bind fun name =>
      .ite (fun isLabel => ?_) fun _ => ?_)
  · refine Meets.pre (P := Holds text s0 true [(.word, inside)]) ?_ fun s h => ?_
    · exact meets_advance.next <| sound.statement.meets.next <| meets_finish rfl rfl
    · obtain ⟨holds, rfl⟩ := h
      obtain ⟨_, named⟩ : colon = true ∧ (s.table.name? inside).isSome := by simpa using isLabel
      obtain ⟨name, found⟩ := Option.isSome_iff_exists.mp named
      exact holds.role fun _ => .mk (Table.form?_of_name? found) rfl (by simp)
  · exact (meets_endStatement.pre fun s h => h.1).next <| meets_finish rfl rfl

lemma statement_makes : Makes text (statement inner) .statement := by
  intro s0
  refine .first rfl (.first rfl ?_)
  split
  · rename_i kind _
    have list : Makes text (declarationList inner kind true) .list :=
      declarationList_makes sound kind true fun _ => rfl
    exact (list s0).next <| meets_endStatement.next <| meets_finish rfl rfl
  · split
    · exact block_makes sound (fun _ => rfl) s0
    · rename_i isSemicolon
      exact (meets_first_pass (by simp [isSemicolon])).next <| meets_finish rfl rfl
    · exact (function_meets sound true).next <| meets_finish rfl rfl
    · exact ifStatement_makes sound s0
    · exact forStatement_makes sound s0
    · exact switchStatement_makes sound s0
    · exact tryStatement_makes sound s0
    · exact whileStatement_makes sound s0
    · rename_i isReturn
      exact returnStatement_meets sound (by simp [isReturn])
    · exact doStatement_makes sound s0
    · exact withStatement_makes sound s0
    · exact throwStatement_makes sound s0
    · rename_i isBreak
      exact jumpStatement_meets (fun _ => rfl) (fun _ => rfl) (by simp [isBreak])
    · rename_i isContinue
      exact jumpStatement_meets (fun _ => rfl) (fun _ => rfl) (by simp [isContinue])
    · rename_i isDebugger
      exact (meets_first_pass (by simp [isDebugger])).next <| meets_endStatement.next <|
        meets_finish rfl rfl
    · exact expressionStatement_makes sound s0

end Grammar

end PatternLowering

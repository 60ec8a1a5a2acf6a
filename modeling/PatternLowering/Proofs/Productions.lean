import PatternLowering.Grammar.Function
import PatternLowering.Proofs.Targets

/-!
# Names, declared patterns and functions

Each production makes one tree for its role, given that the productions further in do.
-/

namespace PatternLowering

open Parse ParseState

/-- The nested productions make trees for their roles. -/
structure Productions.Sound (text : Text) (inner : Productions) : Prop where
  statement : Makes text inner.statement .statement
  binding : Makes text inner.binding (.target true)
  assignment : ∀ allowIn, Makes text (inner.assignment allowIn) .expression
  binary : ∀ allowIn minimum, Makes text (inner.binary allowIn minimum) .expression
  unary : Makes text inner.unary .expression
  construct : Makes text inner.construct .expression
  literal : Turns text Form.IsLiteral inner.literal

variable {text : Text} {inner : Productions} {s0 : ParseState} {role : Role} {α : Type}

lemma Parse.Meets.whenReady {p : Parse α} {Q : α → ParseState → Prop} (ready : s0.Ready text)
    (meets : Meets (Starting text s0) p Q) : Meets (· = s0) p Q :=
  meets.pre fun _ same => ⟨same, ready⟩

/-- At the start of a production, what is looked up is known. -/
lemma Parse.Meets.first {α β : Type} {look : Parse β} {f : ParseState → β} {g : β → Parse α}
    {Q : α → ParseState → Prop} (looks : ∀ {s}, look s = .ok (f s) s)
    (meets : Meets (Starting text s0) (g (f s0)) Q) :
    Meets (Starting text s0) (look >>= g) Q :=
  (Meets.look fun _ => looks).bind fun a => by
    rintro s ⟨⟨rfl, ready⟩, rfl⟩
    exact meets s ⟨rfl, ready⟩

/-- Passing the first token. -/
lemma Parse.meets_first_pass (more : s0.scanner.token.kind ≠ .endOfFile) :
    Meets (Starting text s0) advance fun _ => Holds text s0 true [] := by
  refine meets_pass fun s h => ?_
  obtain ⟨rfl, ready⟩ := h
  exact ⟨⟨_, .refl ready⟩, more⟩

/-- Passing the first token where it becomes a node that tells its text. -/
lemma Parse.meets_first_word {form : Form} (more : s0.scanner.token.kind ≠ .endOfFile)
    (isWord : form.word? = some (String.ofList s0.scanner.lexeme)) :
    Meets (Starting text s0) advance
      fun _ s => Holds text s0 true [] s ∧ Spells text s0 form s :=
  (meets_pass_word isWord).pre fun s h => by
    obtain ⟨rfl, ready⟩ := h
    exact ⟨.refl ready, rfl, more, rfl⟩

/-- Passing the first token if it is of a kind. -/
lemma Parse.Meets.first_accept {k : TokenKind} {g : Bool → Parse α} {Q : α → ParseState → Prop}
    (more : k ≠ .endOfFile) (yes : Meets (Holds text s0 true []) (g true) Q)
    (no : s0.scanner.token.kind ≠ k → Meets (Starting text s0) (g false) Q) :
    Meets (Starting text s0) (accept k >>= g) Q := by
  have accepts : Meets (Starting text s0) (accept k) fun found s =>
      if found then Holds text s0 true [] s
      else s0.scanner.token.kind ≠ k ∧ s = s0 ∧ s0.Ready text := by
    refine .first rfl (.ite (fun isKind => ?_) fun other => .pure fun s h => ⟨other, h⟩)
    exact (meets_first_pass (isKind ▸ more)).next <| .pure fun _ => id
  refine accepts.bind fun found => ?_
  cases found with
  | true => exact yes
  | false => exact fun s h => no h.1 s h.2

lemma Parse.meets_first_fail {Q : α → ParseState → Prop} (cause : SyntaxError) :
    Meets (Starting text s0) (fail cause) Q := by
  refine meets_fail cause fun s h => ?_
  obtain ⟨rfl, ready⟩ := h
  exact ready.reported

/-- A name that is the key and the target at once is no key for its parent. -/
lemma ParseState.Holds.shorthand {moved : Bool} {key : NodeId} {s : ParseState}
    (holds : Holds text s0 moved [(.ofKey false, key)] s)
    (named : ∃ name, s.table.form? key = some (.identifier name) ∧ Keyword.ofSpelling? name = none)
    : Holds text s0 moved [(.plainWord, key)] s := by
  obtain ⟨name, found, plain⟩ := named
  have slots : Role.slots .plainWord (.identifier name) = some [] := by simp [Role.slots, plain]
  exact holds.role fun _ => .mk found slots (by simp)

/-- Items are collected until something tells that there are no more. -/
lemma Parse.Collects.until {look : Parse Bool} {f : ParseState → Bool}
    {step : Parse (Option NodeId)} (looks : ∀ {s}, look s = .ok (f s) s)
    (collects : Collects text step role) :
    Collects text (do if ← look then return none else step) role := by
  intro s1
  refine .first looks (.ite (fun _ => .pure fun s h => ?_) fun _ => collects s1)
  obtain ⟨rfl, ready⟩ := h
  exact .refl ready

/-- The step makes one more tree with the given role. -/
def Parse.Gives (text : Text) (step : Parse (Option NodeId)) (role : Role) : Prop :=
  ∀ s1, Meets (Starting text s1) step fun next s =>
    ∃ n, next = some n ∧ Holds text s1 true [(role, n)] s

/-- Trees are made until something tells that there are no more, and then it tells so still. -/
lemma Parse.Gives.meets_until {look : Parse Bool} {f : ParseState → Bool} {moved : Bool}
    {slots : List (Role × NodeId)} {step : Parse (Option NodeId)}
    (looks : ∀ {s}, look s = .ok (f s) s) (gives : Gives text step role) :
    Meets (Holds text s0 moved slots) (many (do if ← look then return none else step))
      fun found s => Holds text s0 moved (slots ++ found.map (role, ·)) s ∧ f s = true := by
  have loop : Meets (Holds text s0 moved (slots ++ [].map (role, ·)))
      (many (do if ← look then return none else step))
      fun found s => Holds text s0 moved (slots ++ found.map (role, ·)) s ∧ f s = true := by
    refine meets_many (I := fun found => Holds text s0 moved (slots ++ found.map (role, ·)))
      (fun _ _ holds => holds.ready) fun found s1 holds => .whenReady holds.ready ?_
    refine .first looks (.ite (fun stops => .pure fun s h => ?_) fun _ => ?_)
    · obtain ⟨rfl, _⟩ := h
      exact ⟨holds, stops⟩
    · refine (gives s1).post fun next s h => ?_
      obtain ⟨n, rfl, inner⟩ := h
      have both : Holds text s0 moved _ s := (holds.trans inner).relax fun some => by simp [some]
      exact ⟨by simpa using both, (inner.passed rfl).trans_le inner.ready.behind⟩
  simpa using loop

/-- Every item is made by one production. -/
lemma Parse.Makes.collects {p : Parse NodeId} (makes : Makes text p role) :
    Collects text (do return some (← p)) role :=
  fun s1 => (makes s1).next <| .pure fun _ => id

/-- Every item is made by one production and followed by a comma or the end of the list. -/
lemma Parse.Makes.separated {p : Parse NodeId} (makes : Makes text p role) (close : Punctuator) :
    Collects text (do let item ← p; separator close; return some item) role :=
  fun s1 => (makes s1).next <| (meets_separator close).next <|
    .pure fun _ => id

namespace Grammar

/-- A name can play any role that names can play. -/
lemma word_makes (leaf : ∀ name, role.slots (.identifier name) = some []) :
    Makes text word role := by
  intro s0
  refine .first rfl (.ite (fun isWord => ?_) fun _ => meets_first_fail _)
  refine .first rfl ((meets_first_word ?_ rfl).next <| meets_finish_spelled (leaf _))
  intro same
  rw [same] at isWord
  cases isWord

lemma identifier_makes (leaf : ∀ name, role.slots (.identifier name) = some []) :
    Makes text identifier role := by
  intro s0
  exact .first rfl (.ite (fun _ => word_makes leaf s0) fun _ => meets_first_fail _)

lemma propertyKey_meets (sound : inner.Sound text) :
    Meets (Starting text s0) (propertyKey inner)
      fun found => Holds text s0 true [(Role.ofKey found.2, found.1)] := by
  refine .first rfl (.first rfl ?_)
  split
  · rename_i isBracket
    refine (meets_first_pass (by simp [isBracket])).next <|
      (sound.assignment true).meets.bind fun expression =>
        (meets_expect (by simp)).next <| .pure fun _ => id
  · rename_i isString
    exact .first rfl ((meets_first_pass (by simp [isString])).next <|
      (meets_finish rfl rfl).next <| .pure fun _ => id)
  · rename_i isNumber
    exact .first rfl ((meets_first_word (by simp [isNumber]) rfl).next <|
      (meets_finish_spelled rfl).next <| .pure fun _ => id)
  · exact (word_makes (fun _ => rfl) s0).next <| .pure fun _ => id

lemma refuseDefault_meets {moved : Bool} {slots : List (Role × NodeId)} :
    Meets (Holds text s0 moved slots) refuseDefault fun _ => Holds text s0 moved slots :=
  .glance rfl <|
    .ite (fun _ => meets_failing _) fun _ => .pure fun _ => id

lemma isShorthandKey_meets {P : ParseState → Prop} (key : NodeId) :
    Meets P (isShorthandKey key) fun short s =>
      P s ∧ (short = true → ∃ name, s.table.form? key = some (.identifier name) ∧
        Keyword.ofSpelling? name = none) := by
  refine (Meets.look fun _ => rfl).post fun short s h => ⟨h.1, fun yes => ?_⟩
  obtain ⟨_, rfl⟩ := h
  cases named : s.table.name? key with
  | none => simp [named] at yes
  | some name => exact ⟨name, Table.form?_of_name? named, by simpa [named] using yes⟩

lemma bindingProperty_makes (sound : inner.Sound text) :
    Makes text (bindingProperty inner) (.bindingProperty true) := by
  intro s0
  refine .first rfl (.first rfl (.ite (fun _ => (meets_first_fail _).stop)
    fun _ => ?_))
  refine (propertyKey_meets sound).bind fun found => ?_
  obtain ⟨key, computed⟩ := found
  refine (meets_accept (by simp)).bind fun colon => (isShorthandKey_meets key).bind fun name => ?_
  refine .ite (fun yes => ?_) fun no => .ite (fun short => ?_) fun _ => ?_
  · refine (sound.binding.meets.pre fun s h => h.1).bind fun value => ?_
    exact refuseDefault_meets.next <| meets_finish rfl rfl
  · obtain ⟨rfl, rfl⟩ : computed = false ∧ name = true := by simpa using short
    refine (refuseDefault_meets.pre (?_ : ∀ s, _ →
      Holds text s0 true [(.plainWord, key)] s)).next <| meets_finish rfl rfl
    exact fun s h => (h.1.relax fun _ => rfl).shorthand (h.2 rfl)
  · exact ((meets_failing _).pre fun s h => h.1).stop

/-- The properties of a declared pattern. -/
lemma bindingProperties_meets (sound : inner.Sound text) : Meets (Holds text s0 true []) (many do
      if ← isAtPunctuator .closeBrace then return none
      let property ← bindingProperty inner
      separator .closeBrace
      return some property) fun properties => Holds text s0 true
        (properties.map (.bindingProperty true, ·)) :=
  (Collects.until rfl ((bindingProperty_makes sound).separated _)).meets

lemma objectPattern_makes (sound : inner.Sound text) :
    Makes text (objectPattern inner) (.target true) := by
  intro s0
  exact .start ((meets_expect (by simp)).next <| (bindingProperties_meets sound).bind
    fun properties => meets_advance.next <| meets_finish rfl rfl)

lemma restBinding_meets (sound : inner.Sound text)
    (more : s0.scanner.token.kind ≠ .endOfFile) :
    Meets (Starting text s0) (restBinding inner) fun n s =>
      Holds text s0 true [(.last true, n)] s ∧
        s.scanner.token.kind = .punctuator .closeBracket := by
  refine .first rfl ((meets_first_pass more).next <|
    sound.binding.meets.next <| (meets_finish rfl rfl).bind fun rest =>
      (meets_isAt _).bind fun closes => .ite (fun yes => .pure fun s h => ⟨h.1, ?_⟩)
        fun _ => (meets_failing _).pre fun s h => h.1)
  simpa [yes] using h.2.symm

/-- What an array pattern holds after some of its elements: after a rest element no other can be
read. -/
def ElementsRead (text : Text) (s0 : ParseState) (found : List (Option NodeId)) (s : ParseState) :
    Prop :=
  Holds text s0 true ((found.filterMap id).map (.target true, ·)) s ∨
    Holds text s0 true (Role.items true found) s ∧
      s.scanner.token.kind = .punctuator .closeBracket

namespace ElementsRead

variable {found : List (Option NodeId)} {s s1 : ParseState}

lemma items (read : ElementsRead text s0 found s) :
    Holds text s0 true (Role.items true found) s := by
  obtain holds | ⟨holds, _⟩ := read
  · refine holds.roles ?_ fun {part} mem => ?_
    · simp [Role.map_items, Function.comp_def]
    · obtain ⟨target, role⟩ := Role.mem_items mem
      have fits : Fits s.table (.target true) part.2 :=
        holds.fits (List.mem_map_of_mem (f := fun n => (Role.target true, n)) target)
      rcases role with role | role
      · exact role ▸ fits
      · exact role ▸ fits.last_of_target
  · exact holds

lemma ready (read : ElementsRead text s0 found s) : s.Ready text := read.items.ready

lemma targets (read : ElementsRead text s0 found s)
    (more : s.scanner.token.kind ≠ .punctuator .closeBracket) :
    Holds text s0 true ((found.filterMap id).map (.target true, ·)) s := by
  obtain holds | ⟨_, closes⟩ := read
  · exact holds
  · exact absurd closes more

variable {n : NodeId} (read : ElementsRead text s0 found s1)
  (more : s1.scanner.token.kind ≠ .punctuator .closeBracket)

include read more

lemma hole (inner : Holds text s1 true [] s) :
    Grew (ElementsRead text s0) (ElementsRead text s0) found s1 (some none) s := by
  refine ⟨.inl ?_, (inner.passed rfl).trans_le inner.ready.behind⟩
  simpa using (read.targets more).trans inner

lemma element (inner : Holds text s1 true [(.target true, n)] s) :
    Grew (ElementsRead text s0) (ElementsRead text s0) found s1 (some (some n)) s := by
  refine ⟨.inl ?_, (inner.passed rfl).trans_le inner.ready.behind⟩
  simpa using (read.targets more).trans inner

lemma rest (inner : Holds text s1 true [(.last true, n)] s)
    (closes : s.scanner.token.kind = .punctuator .closeBracket) :
    Grew (ElementsRead text s0) (ElementsRead text s0) found s1 (some (some n)) s := by
  refine ⟨.inr ⟨?_, closes⟩, (inner.passed rfl).trans_le inner.ready.behind⟩
  rw [Role.items_append_singleton]
  exact (read.targets more).trans inner

end ElementsRead

/-- The elements of a declared pattern. -/
lemma bindingElements_meets (sound : inner.Sound text) :
    Meets (Holds text s0 true []) (many do
      if ← isAtPunctuator .closeBracket then return none
      if ← acceptPunctuator .comma then return some none
      if ← isAtPunctuator .ellipsis then return some (some (← restBinding inner))
      let element ← inner.binding
      refuseDefault
      separator .closeBracket
      return some (some element)) (ElementsRead text s0) := by
  refine (meets_many (I := ElementsRead text s0) (D := ElementsRead text s0)
    (fun _ _ => ElementsRead.ready) fun found s1 read => ?_).pre fun s holds => .inl holds
  refine .whenReady read.ready (.first rfl
    (.ite (fun _ => .pure fun s h => h.1 ▸ read) fun more => ?_))
  have more : s1.scanner.token.kind ≠ .punctuator .closeBracket := by simpa using more
  refine .first_accept (by simp) (.pure fun s inner => read.hole more inner) fun _ => ?_
  refine .first rfl (.ite (fun isRest => ?_) fun _ => ?_)
  · have isRest : s1.scanner.token.kind = .punctuator .ellipsis := by simpa using isRest
    exact (restBinding_meets sound (by simp [isRest])).bind fun n =>
      .pure fun s h => read.rest more h.1 h.2
  · exact (sound.binding s1).bind fun n => refuseDefault_meets.next <|
      (meets_separator _).next <| .pure fun s inner => read.element more inner

lemma arrayPattern_makes (sound : inner.Sound text) :
    Makes text (arrayPattern inner) (.target true) := by
  intro s0
  exact .start ((meets_expect (by simp)).next <| (bindingElements_meets sound).bind fun elements =>
    .bind (.pre meets_advance fun s read => read.items) fun _ => meets_finish rfl rfl)

lemma binding_makes (sound : inner.Sound text) : Makes text (binding inner) (.target true) := by
  intro s0
  refine .first rfl ?_
  split
  · exact objectPattern_makes sound s0
  · exact arrayPattern_makes sound s0
  · exact identifier_makes (fun _ => rfl) s0

/-- Passing the brace that closes a block, since whose opening brace the statements were made. -/
lemma meets_closeBrace {s1 : ParseState} {slots : List (Role × NodeId)}
    (opened : Holds text s0 true [] s1) :
    Meets (fun s => Holds text s1 false slots s ∧ s.scanner.token.kind ≠ .endOfFile) advance
      fun _ s => Holds text s0 true slots s ∧
        s.table.Laid (s0.here + 1) (slots.map Prod.snd) (s.lastStop - 1) := by
  rintro s ⟨holds, more⟩
  obtain ⟨ready, same, forward, late, stop, trail⟩ := advance_ready holds.ready rfl
  have wide := holds.ready.scanner.stands.width more
  have behind := holds.ready.behind
  have after : s0.here < s1.here := (opened.passed rfl).trans_le opened.ready.behind
  have := holds.forward
  refine ⟨(opened.trans holds).onward ready same forward late trail, ?_⟩
  rw [same, stop]
  refine holds.laid.mono after ?_
  unfold ParseState.here at *
  omega

lemma block_makes (sound : inner.Sound text)
    (known : ∀ statements, role.slots (.block statements) =
      some (statements.map (Role.statement, ·))) : Makes text (block inner) role := by
  intro s0
  have gives : Gives text (do
      if ← isAt .endOfFile then expectPunctuator .closeBrace
      return some (← inner.statement)) .statement := by
    intro s1
    refine .first rfl (.ite (fun _ => ?_) fun _ => ?_)
    · exact .begin ((meets_expect (by simp)).next <| sound.statement.meets.bind fun n =>
        .pure fun s holds => ⟨n, rfl, holds⟩)
    · exact (sound.statement s1).bind fun n => .pure fun s holds => ⟨n, rfl, holds⟩
  refine .start ((meets_expect (by simp)).next <| .fix fun s1 opened =>
    .whenReady opened.ready (.begin ((gives.meets_until rfl).bind fun statements =>
      ((meets_closeBrace opened).pre fun s h => ⟨h.1, ?_⟩).next <|
        (meets_finish_spelled (known statements)).pre fun s h => ⟨h.1, ?_, nofun⟩)))
  · have closes : s.scanner.token.kind = .punctuator .closeBrace := by simpa using h.2
    simp [closes]
  · rintro _ ⟨⟩
    simpa [Function.comp_def] using h.2

lemma parameter_makes (sound : inner.Sound text) : Makes text (parameter inner) (.target true) := by
  intro s0
  refine .first rfl (.ite (fun _ => (meets_first_fail _).stop) fun _ => ?_)
  refine (sound.binding s0).bind fun parameter => .glance rfl <|
    .ite (fun _ => (meets_failing _).stop) fun _ => ?_
  exact (meets_separator _).next <| .pure fun _ => id

lemma signatureAndBody_meets (sound : inner.Sound text) {moved : Bool} (name : Option NodeId) :
    Meets (Holds text s0 moved (name.toList.map (.word, ·))) (signatureAndBody inner name)
      fun parts => Holds text s0 true (Role.functionParts parts) := by
  have body : Makes text (block inner) .block := block_makes sound fun _ => rfl
  exact (meets_expect (by simp)).next <|
    (Collects.until rfl (parameter_makes sound).collects).meets.bind fun parameters =>
      meets_advance.next <| body.meets.next <| .pure fun _ => id

lemma function_meets (sound : inner.Sound text) (named : Bool) :
    Meets (Starting text s0) (function inner named)
      fun parts => Holds text s0 true (Role.functionParts parts) := by
  refine .begin ((meets_expect (by simp)).next <| .glance rfl <|
    .ite (fun _ => ?_) fun _ => .ite (fun _ => (meets_failing _).stop) fun _ => ?_)
  · exact (identifier_makes fun _ => rfl).meets.bind fun name =>
      signatureAndBody_meets sound (some name)
  · exact signatureAndBody_meets sound none

end Grammar

end PatternLowering

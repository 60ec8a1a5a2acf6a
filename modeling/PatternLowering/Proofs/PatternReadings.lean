import PatternLowering.Proofs.CoupledProductions
import PatternLowering.Proofs.Drafts
import PatternLowering.Proofs.Operands
import PatternLowering.Proofs.Productions

/-!
# Patterns read as literals

The rules for declared patterns and those for literals go side by side. Wherever a declared pattern
can be read, so can a literal, and the literal is a draft of the pattern.
-/

namespace PatternLowering

open Parse Table

variable {w : Twin} {limit : Prop}

namespace ParseState

variable {s s' s1 s1' s2 s2' : ParseState} {roots roots' : List NodeId} {n : NodeId}

/-- The parsers went on from `s` and `s'` side by side. What they made is the same, except that the
patterns `roots` are drafts on the second side. -/
def Sketched (w : Twin) (s s' : ParseState) (roots : List NodeId) (s1 s1' : ParseState) : Prop :=
  s1.Twins w s.table s'.table (fun m => ∃ n ∈ roots, s1.table.Draws n m) s1'

lemma Sketched.refl {old old' : Table} {drafts : NodeId → Prop}
    (twins : s.Twins w old old' drafts s') : Sketched w s s' [] s s' :=
  twins.rebase

lemma Sketched.trans (first : Sketched w s s' roots s1 s1')
    (second : Sketched w s1 s1' roots' s2 s2') : Sketched w s s' (roots ++ roots') s2 s2' := by
  refine (Twins.trans first second).widen fun m either => ?_
  rcases either with ⟨n, isRoot, draws⟩ | ⟨n, isRoot, draws⟩
  · exact ⟨n, List.mem_append_left roots' isRoot, draws.mono second.table.kept⟩
  · exact ⟨n, List.mem_append_right roots isRoot, draws⟩

/-- Going on without drafting anything. -/
lemma Sketched.next (first : Sketched w s s' roots s1 s1') (second : Sketched w s1 s1' [] s2 s2') :
    Sketched w s s' roots s2 s2' := by
  simpa using first.trans second

/-- Nodes made without drafting anything are the same. -/
lemma Sketched.form? (sketched : Sketched w s s' [] s1 s1') (new : s.table.size ≤ n) {form : Form}
    (found : s1.table.form? n = some form) : s1'.table.form? n = some form := by
  obtain ⟨_, _, at_⟩ := exists_at_of_form? found
  obtain ⟨_, _, form', at', _, _, rfl | ⟨⟨_, isRoot, _⟩, _⟩⟩ := sketched.table.nodes new at_
  · exact at'.form?
  · cases isRoot

/-- A node is finished on one side and its draft on the other. -/
lemma Sketched.finish (sketched : Sketched w s s' roots s1 s1') {start start' : Nat} {form : Form}
    (moved : start = start' + w.shift) (inside : w.base ≤ start')
    (parts : ∀ root ∈ roots, root ∈ form.nestedParts) (ran : finish start form s1 = .ok n s2) :
    ∃ s2', Parse.finish start' form.draft s1' = .ok n s2' ∧ Sketched w s s' [n] s2 s2' ∧
      s2.scanner = s1.scanner ∧ s2.table.size = n + 1 ∧ s1.table.size = n ∧
      s2.table.form? n = some form ∧ s2'.table.form? n = some form.draft ∧
      s1.table.Preserves s2.table ∧ s1'.table.Preserves s2'.table := by
  cases ran
  have size : s1'.table.size = s1.table.size := sketched.table.size
  have found := (at_add_self (t := s1.table) start (max s1.lastStop start) form).form?
  have found' := (at_add_self (t := s1'.table) start' (max s1'.lastStop start') form.draft).form?
  rw [size] at found'
  have ran' : Parse.finish start' form.draft s1' = .ok s1.table.size
      { s1' with table := (s1'.table.add start' (max s1'.lastStop start') form.draft).2 } := by
    rw [← size]
    rfl
  have keeps : s1.table.Preserves (s1.table.add start (max s1.lastStop start) form).2 :=
    keeps_add _ _ _
  refine ⟨_, ran', ?_, rfl, size_add .., rfl, found, found', keeps, keeps_add _ _ _⟩
  refine (sketched.widen fun m => ?_).finish moved inside (.inr ⟨?_, rfl⟩)
  · rintro ⟨root, isRoot, draws⟩
    exact ⟨_, List.mem_singleton_self _, .part found (parts root isRoot) (draws.mono keeps)⟩
  · exact ⟨_, List.mem_singleton_self _, .self _⟩

end ParseState

open ParseState

/-- The stage on which the parsers go on from `s` and `s'`. -/
def ParseState.stage (w : Twin) (limit : Prop) (s s' : ParseState) : Stage :=
  ⟨w, limit, s.table, s'.table⟩

/-- Steps that do the same on both sides draft nothing. -/
lemma Stage.Pairs.sketch {α : Type} {p p' : Parse α} {W : α → Prop} {s s' s1 : ParseState} {a : α}
    {old old' : Table} {drafts : NodeId → Prop} (pairs : (stage w limit s s').Pairs True p p' W)
    (steady : s.scanner.Steady) (twins : s.Twins w old old' drafts s') (ran : p s = .ok a s1)
    (early : s1.Early w) :
    Follows limit (fun a' s1' => a' = a ∧ W a ∧ Sketched w s s' [] s1 s1') (p' s') := by
  have like : (stage w limit s s').Like s s' :=
    ⟨twins.rebase, fun new at_ => absurd at_.lt_size (Nat.not_lt.mpr new)⟩
  refine (pairs.run steady ⟨trivial, like⟩ ran early).imp ?_
  rintro _ s1' ⟨same, holds, like⟩
  exact ⟨same, holds, like.twins.widen fun _ => False.elim⟩

/-- Where `p` reads a pattern, `p'` reads a draft of it, so that `P` holds. That goes if one of the
tokens `E` follows. -/
structure Parse.Drafts (w : Twin) (limit : Prop) (E : TokenKind → Prop) (P : DraftRel)
    (p p' : Parse NodeId) : Prop where
  onward : ∀ {s n s1}, s.scanner.Steady → p s = .ok n s1 → Onward w s s1
  run : ∀ {s s' n s1}, s.scanner.Steady → Sketched w s s' [] s s' → p s = .ok n s1 → s1.Early w →
    E s1.scanner.token.kind → Follows limit (fun n' s1' => n' = n ∧ Sketched w s s' [n] s1 s1' ∧
      P s1.table s1'.table s.table.size n) (p' s')

/-- The literal may be nested too deeply. -/
lemma Parse.Drafts.tooDeep {E : TokenKind → Prop} {P : DraftRel} {p p' : Parse NodeId}
    (drafts : Parse.Drafts w limit E P p p') (deep : limit) :
    Parse.Drafts w limit E P p (fail .tooDeep) where
  onward := drafts.onward
  run _ sketched _ _ _ :=
    follows_tooDeep deep sketched.clean' (sketched.scanner.kind ▸ sketched.scanner.known)

/-- The tokens that open a pattern. -/
def TokenKind.OpensPattern (kind : TokenKind) : Prop :=
  kind = .punctuator .openBrace ∨ kind = .punctuator .openBracket

/-- The tokens that follow an item of a pattern. -/
def TokenKind.EndsItem (kind : TokenKind) : Prop :=
  kind = .punctuator .comma ∨ kind = .punctuator .closeBracket ∨ kind = .punctuator .closeBrace

lemma TokenKind.OpensPattern.startsOperand {kind : TokenKind} (opens : kind.OpensPattern) :
    kind.StartsOperand := by
  rcases opens with rfl | rfl <;> exact ⟨rfl, by simp⟩

/-! ### Single steps -/

section Steps

variable {α : Type} {s s1 : ParseState} {close : Punctuator} {k : TokenKind} {start : Nat}
  {form : Form}

lemma Parse.finish_eq {n : NodeId} (ran : finish start form s = .ok n s1) :
    n = s.table.size ∧ s1 = { s with table :=
      (s.table.add start (max s.lastStop start) form).2 } := by
  cases ran
  exact ⟨rfl, rfl⟩

lemma Parse.finish_scanner {n : NodeId} (ran : finish start form s = .ok n s1) :
    s1.scanner = s.scanner := by
  cases ran
  rfl

lemma Parse.finish_early {n : NodeId} (ran : finish start form s = .ok n s1) (early : s1.Early w) :
    s.Early w := by
  cases ran
  exact ⟨early.clean, early.scanner, early.before⟩

lemma Parse.accept_onward {found : Bool} (steady : s.scanner.Steady)
    (ran : accept k s = .ok found s1) : Onward w s s1 := by
  rcases accept_cases ran with ⟨_, _, passed⟩ | ⟨_, _, rfl⟩
  · exact onward_advance passed
  · exact ⟨steady, id⟩

lemma Parse.fail_ne_ok {cause : SyntaxError} {a : α} : (fail cause : Parse α) s ≠ .ok a s1 := by
  intro ran
  obtain ⟨halt, s2, failed⟩ := fail_fails (α := α) cause s
  cases failed.symm.trans ran

lemma Parse.not_ok_of_fail {cause : SyntaxError} {f : α → Parse NodeId} {n : NodeId} :
    (fail cause >>= f) s ≠ .ok n s1 := by
  intro ran
  obtain ⟨_, _, failed, _⟩ := EStateM.bind_eq_ok.mp ran
  exact fail_ne_ok failed

lemma Parse.isAt_then {p q : Parse α} (isAt : s.scanner.token.kind = k) :
    (do if ← Parse.isAt k then p else q) s = p s := by
  change (if decide (s.scanner.token.kind = k) = true then p else q) s = p s
  rw [if_pos (by simp [isAt])]

lemma Parse.isAt_else {p q : Parse α} (other : s.scanner.token.kind ≠ k) :
    (do if ← Parse.isAt k then p else q) s = q s := by
  change (if decide (s.scanner.token.kind = k) = true then p else q) s = q s
  rw [if_neg (by simp [other])]

lemma Parse.separator_at (isAt : s.scanner.token.kind = .punctuator close) :
    separator close s = .ok () s :=
  isAt_then isAt

lemma Parse.separator_cases (ran : separator close s = .ok () s1) :
    s.scanner.token.kind = .punctuator close ∨ s.scanner.token.kind = .punctuator .comma := by
  by_cases isAt : s.scanner.token.kind = .punctuator close
  · exact .inl isAt
  · have expected : separator close s = expectPunctuator .comma s := isAt_else isAt
    rw [expected] at ran
    obtain ⟨found, s2, accepted, rest⟩ := EStateM.bind_eq_ok.mp ran
    rcases accept_cases accepted with ⟨_, isComma, _⟩ | ⟨rfl, _, _⟩
    · exact .inr isComma
    · exact absurd rest fail_ne_ok

/-- An item and the comma behind it. -/
lemma Parse.Drafts.separated {β : Type} {P : DraftRel} {p p' : Parse NodeId} {g : NodeId → Parse β}
    {R : β → ParseState → Prop} {s' s2 s3 : ParseState} {n : NodeId} {t t' : Table}
    {drafts : NodeId → Prop} (reads : Parse.Drafts w limit TokenKind.EndsItem P p p')
    (lasting : Lasting P) (isClose : TokenKind.EndsItem (.punctuator close))
    (steady : s.scanner.Steady) (twins : s.Twins w t t' drafts s') (isItem : p s = .ok n s2)
    (separated : separator close s2 = .ok () s3) (early : s3.Early w)
    (next : ∀ s3', Sketched w s s' [n] s3 s3' → P s3.table s3'.table s.table.size n →
      Follows limit R (g n s3')) : Follows limit R ((do let n ← p'; separator close; g n) s') := by
  have comma : (stage w limit s2 s2).Pairs True (separator close) (separator close) fun _ => True :=
    .separator
  have item := reads.onward steady isItem
  have early2 : s2.Early w := (comma.onward item.steady separated).early early
  have ends : s2.scanner.token.kind.EndsItem := by
    rcases separator_cases separated with isAt | isAt
    · exact isAt ▸ isClose
    · exact .inl isAt
  refine (reads.run steady (.refl twins) isItem early2 ends).bind ?_
  rintro n s2' ⟨rfl, sketched, holds⟩
  have comma : (stage w limit s2 s2').Pairs True (separator close) (separator close) fun _ =>
    True := .separator
  refine (comma.sketch item.steady sketched separated early).bind ?_
  rintro _ s3' ⟨_, _, sketched'⟩
  exact next s3' (sketched.next sketched')
    (lasting.stay holds sketched'.table.kept.stays sketched'.table.kept'.stays)

end Steps

namespace Grammar

variable {inner inner' : Productions} {s s' s1 s2 : ParseState} {n key : NodeId} {depth : Nat}
  {t t' : Table} {drafts : NodeId → Prop}

/-! ### Properties -/

lemma refuseDefault_other (other : s.scanner.token.kind ≠ .punctuator .assign) :
    refuseDefault s = .ok () s :=
  isAt_else other

lemma refuseDefault_cases (ran : refuseDefault s = .ok () s1) :
    s.scanner.token.kind ≠ .punctuator .assign ∧ s1 = s := by
  by_cases isAt : s.scanner.token.kind = .punctuator .assign
  · have refused : refuseDefault s = fail (.unsupported .patternDefault) s := isAt_then isAt
    exact absurd (refused.symm.trans ran) fail_ne_ok
  · cases (refuseDefault_other isAt).symm.trans ran
    exact ⟨isAt, rfl⟩

lemma isShorthandKey_eq (key : NodeId) (s : ParseState) : isShorthandKey key s =
    .ok ((s.table.name? key).any fun text => (Keyword.ofSpelling? text).isNone) s := rfl

lemma isShorthandKey_true (ran : isShorthandKey key s = .ok true s1) :
    ∃ text, s.table.form? key = some (.identifier text) ∧
      (Keyword.ofSpelling? text).isNone = true := by
  rw [isShorthandKey_eq, EStateM.Result.ok.injEq] at ran
  have found := ran.1
  unfold Table.name? at found
  cases isForm : s.table.form? key with
  | none => simp [isForm] at found
  | some form =>
    rw [isForm] at found
    cases form <;> simp [Form.name?] at found
    exact ⟨_, rfl, by simpa using found⟩

lemma isShorthandKey_same {found : Bool} (ran : isShorthandKey key s = .ok found s1) : s1 = s := by
  cases ran
  rfl

/-- Reading a declared property: its key, and then its target or nothing. -/
lemma bindingProperty_cases (ran : bindingProperty inner s = .ok n s1) :
    s.scanner.token.kind ≠ .punctuator .ellipsis ∧ ∃ key computed s2,
      propertyKey inner s = .ok (key, computed) s2 ∧
      ((∃ value s3 s4, acceptPunctuator .colon s2 = .ok true s3 ∧ inner.binding s3 = .ok value s4 ∧
          finish s.here (.bindingProperty (some key) computed value) s4 = .ok n s1) ∨
        (s2.scanner.token.kind ≠ .punctuator .colon ∧ refuseDefault s2 = .ok () s2 ∧
          computed = false ∧ isShorthandKey key s2 = .ok true s2 ∧
          finish s.here (.bindingProperty none false key) s2 = .ok n s1)) := by
  obtain ⟨_, _, looked, ran1⟩ := EStateM.bind_eq_ok.mp ran
  cases looked
  obtain ⟨_, _, looked, ran2⟩ := EStateM.bind_eq_ok.mp ran1
  cases looked
  split at ran2
  · exact absurd ran2 not_ok_of_fail
  · rename_i other
    obtain ⟨⟨key, computed⟩, s2, isKey, ran3⟩ := EStateM.bind_eq_ok.mp ran2
    obtain ⟨colon, s3, accepted, ran4⟩ := EStateM.bind_eq_ok.mp ran3
    obtain ⟨short, _, isShort, ran5⟩ := EStateM.bind_eq_ok.mp ran4
    refine ⟨by simpa using other, key, computed, s2, isKey, ?_⟩
    rcases accept_cases accepted with ⟨rfl, _, _⟩ | ⟨rfl, noColon, rfl⟩
    · cases isShort
      obtain ⟨value, s4, isValue, ran6⟩ := EStateM.bind_eq_ok.mp ran5
      have ran7 :
          (do refuseDefault; finish s.here (.bindingProperty (some key) computed value)) s4 =
          .ok n s1 := ran6
      obtain ⟨_, s5, passed, finished⟩ := EStateM.bind_eq_ok.mp ran7
      obtain ⟨_, rfl⟩ := refuseDefault_cases passed
      exact .inl ⟨value, s3, s5, accepted, isValue, finished⟩
    · obtain rfl : _ = s3 := isShorthandKey_same isShort
      have ran6 : (if (!computed && short) = true then
          do refuseDefault; finish s.here (.bindingProperty none computed key)
        else fail (.expected Punctuator.colon.spelling) >>= fun pair : Option NodeId × NodeId =>
          do refuseDefault; finish s.here (.bindingProperty pair.1 computed pair.2) : Parse NodeId)
          _ =
            .ok n s1 := ran5
      split at ran6
      · rename_i plain
        simp only [Bool.and_eq_true, Bool.not_eq_true'] at plain
        obtain ⟨rfl, rfl⟩ := plain
        obtain ⟨_, s5, passed, finished⟩ := EStateM.bind_eq_ok.mp ran6
        obtain ⟨_, rfl⟩ := refuseDefault_cases passed
        exact .inr ⟨noColon, passed, rfl, isShort, finished⟩
      · exact absurd ran6 not_ok_of_fail

/-- A key that is a name is one token. -/
lemma propertyKey_name {found : NodeId × Bool} (isName : s.scanner.token.kind = .identifier)
    (ran : propertyKey inner s = .ok found s1) :
    ∃ s2, advance s = .ok () s2 ∧ s1.scanner = s2.scanner ∧ s1.faults = s2.faults := by
  have single : propertyKey inner s = (do
      advance
      let key ← finish s.here (.identifier (String.ofList s.scanner.lexeme))
      return (key, false)) s := by
    obtain ⟨⟨⟨kind, first, last, lineBreak⟩, opening, closing, faults⟩, table, found,
      lastStop, size⟩ := s
    obtain rfl : kind = .identifier := isName
    rfl
  rw [single] at ran
  obtain ⟨_, s2, passed, ran1⟩ := EStateM.bind_eq_ok.mp ran
  cases ran1
  exact ⟨s2, passed, rfl, rfl⟩

lemma accessorAt_none {found : NodeId × Bool} (ran : propertyKey inner s = .ok found s1)
    (noKey : startsKey s1.scanner.token.kind = false) : accessorAt s = none := by
  unfold accessorAt
  by_cases isName : s.scanner.token.kind = .identifier
  · obtain ⟨s2, passed, scanner, _⟩ := propertyKey_name isName ran
    have next : s.scanner.scan.token.kind = s1.scanner.token.kind := by
      rw [scanner]
      cases passed
      rfl
    rw [next, noKey]
    simp
  · simp [isName]

/-- A name that is followed by no key is a key itself. -/
lemma objectProperty_plain (noSpread : s.scanner.token.kind ≠ .punctuator .ellipsis)
    (none : accessorAt s = none) : objectProperty inner s = plainProperty inner s.here s := by
  unfold objectProperty
  rw [here_bind]
  refine (isAt_else noSpread).trans ?_
  beta_reduce
  rw [EStateM.bind_of_ok (accessorKind?_eq s), none]

lemma not_startsKey_of_endsItem {kind : TokenKind}
    (ends : kind = .punctuator .colon ∨ kind.EndsItem) : startsKey kind = false := by
  rcases ends with rfl | rfl | rfl | rfl <;> rfl

/-- What the rules for declared patterns need of those further in: the second side does the same,
and where a pattern is declared it can read a literal. -/
structure Alongside (w : Twin) (limit : Prop) (depth : Nat) (inner inner' : Productions) :
    Prop where
  paired : ∀ s s', (stage w limit s s').Paired inner inner'
  drafts : Drafts w limit TokenKind.EndsItem (Drafted depth) inner.binding (inner'.assignment true)

/-- Behind the key, the target of a declared property is read as the value of a property. -/
lemma afterKey_keyed (along : Alongside w limit depth inner inner') {s3 s4 s2' : ParseState}
    {computed : Bool} {value : NodeId} (steady : s2.scanner.Steady)
    (starts : s.Twins w t t' drafts s') (sketched : Sketched w s s' [] s2 s2')
    (accepted : acceptPunctuator .colon s2 = .ok true s3)
    (isValue : inner.binding s3 = .ok value s4)
    (ran : finish s.here (.bindingProperty (some key) computed value) s4 = .ok n s1)
    (early : s1.Early w) (ends : s1.scanner.token.kind.EndsItem) :
    Follows limit (fun n' s1' => n' = n ∧ Sketched w s s' [n] s1 s1' ∧
      PropertyDraft (Drafted depth) s1.table s1'.table s.table.size n)
      (afterKey inner' s'.here key computed s2') := by
  have colon : (stage w limit s2 s2').Pairs True (acceptPunctuator .colon) (acceptPunctuator .colon)
    fun _ => True := .accept
  have passed : Onward w s2 s3 := accept_onward steady accepted
  have early4 : s4.Early w := finish_early ran early
  have ends4 : s4.scanner.token.kind.EndsItem := finish_scanner ran ▸ ends
  have early3 : s3.Early w := (along.drafts.onward passed.steady isValue).early early4
  refine (colon.sketch steady sketched accepted early3).bind ?_
  rintro _ s3' ⟨rfl, _, sketched3⟩
  refine (along.drafts.run passed.steady (.refl sketched3) isValue early4 ends4).bind ?_
  rintro value s4' ⟨rfl, sketched4, drafted⟩
  obtain ⟨moved, inside⟩ := starts.start
  have whole : Sketched w s s' [value] s4 s4' := (sketched.next sketched3).trans sketched4
  obtain ⟨s1', ran', sketched1, _, _, rfl, found, found', keeps, keeps'⟩ :=
    whole.finish moved inside (by simp [Form.nestedParts]) ran
  change Follows limit _ (finish s'.here (Form.bindingProperty (some key) computed value).draft s4')
  rw [ran']
  refine ⟨rfl, sketched1, some key, computed, value, found, found', by simp, drafted.lt_size,
    s3.table.size, (sketched.next sketched3).table.grown, ?_⟩
  exact (lasting_drafted depth).stay drafted keeps.stays keeps'.stays

/-- A declared property without a target is read as a shorthand. -/
lemma afterKey_shorthand {s2' : ParseState} (starts : s.Twins w t t' drafts s')
    (sketched : Sketched w s s' [] s2 s2') (new : s.table.size ≤ key)
    (noColon : s2.scanner.token.kind ≠ .punctuator .colon)
    (noDefault : refuseDefault s2 = .ok () s2) (isShort : isShorthandKey key s2 = .ok true s2)
    (ran : finish s.here (.bindingProperty none false key) s2 = .ok n s1) :
    Follows limit (fun n' s1' => n' = n ∧ Sketched w s s' [n] s1 s1' ∧
      PropertyDraft (Drafted depth) s1.table s1'.table s.table.size n)
      (afterKey inner' s'.here key false s2') := by
  have kind : s2'.scanner.token.kind = s2.scanner.token.kind := sketched.scanner.kind
  obtain ⟨text, isName, isWord⟩ : ∃ text, s2.table.form? key = some (.identifier text) ∧
      (Keyword.ofSpelling? text).isNone = true := isShorthandKey_true isShort
  have isName' : s2'.table.form? key = some (.identifier text) := sketched.form? new isName
  have isShort' : isShorthandKey key s2' = .ok true s2' := by
    rw [isShorthandKey_eq, Table.name?, isName']
    simp [Form.name?, isWord]
  have noDefault' : refuseDefault s2' = .ok () s2' :=
    refuseDefault_other (kind ▸ (refuseDefault_cases noDefault).1)
  obtain ⟨moved, inside⟩ := starts.start
  obtain ⟨s1', ran', sketched1, _, _, rfl, found, found', keeps, keeps'⟩ :=
    sketched.finish moved inside (by simp) ran
  have shorthand : afterKey inner' s'.here key false s2' =
      Parse.finish s'.here (Form.bindingProperty none false key).draft s2' := by
    unfold afterKey
    have noColon' : acceptPunctuator .colon s2' = .ok false s2' := accept_other (kind ▸ noColon)
    rw [EStateM.bind_of_ok noColon', if_neg (by simp), EStateM.bind_of_ok isShort',
      if_pos (by simp), EStateM.bind_of_ok noDefault']
    rfl
  rw [shorthand, ran']
  have named : NamedDraft s1.table s1'.table s.table.size key :=
    ⟨new, text, keeps.form? isName, keeps'.form? isName'⟩
  have before : key < s2.table.size := by
    obtain ⟨_, _, at_⟩ := exists_at_of_form? isName
    exact at_.lt_size
  exact ⟨rfl, sketched1, none, false, key, found, found', fun _ => ⟨rfl, named⟩, before,
    s.table.size, le_rfl, named.drafted⟩

lemma bindingProperty_drafts (along : Alongside w limit depth inner inner') :
    Drafts w limit TokenKind.EndsItem (PropertyDraft (Drafted depth)) (bindingProperty inner)
      (objectProperty inner') where
  onward {s _ _} := (bindingProperty_pairs (V := True) (along.paired s s)).onward
  run {s s' n s1} steady sketched ran early ends := by
    obtain ⟨noSpread, key, computed, s2, isKey, rest⟩ := bindingProperty_cases ran
    have pairs := propertyKey_pairs (V := True) (along.paired s s')
    have first : Onward w s s2 := pairs.onward steady isKey
    have kind : s'.scanner.token.kind = s.scanner.token.kind := sketched.scanner.kind
    -- Behind the key stands a colon or the end of the item, and it stands before the blank.
    have follows : s2.Early w ∧
        (s2.scanner.token.kind = .punctuator .colon ∨ s2.scanner.token.kind.EndsItem) := by
      rcases rest with ⟨value, s3, s4, accepted, isValue, finished⟩ | ⟨_, _, _, _, finished⟩
      · have passed : Onward w s2 s3 := accept_onward first.steady accepted
        have valued := along.drafts.onward passed.steady isValue
        rcases accept_cases accepted with ⟨_, isColon, _⟩ | ⟨impossible, _⟩
        · exact ⟨passed.early (valued.early (finish_early finished early)), .inl isColon⟩
        · cases impossible
      · exact ⟨finish_early finished early, .inr (finish_scanner finished ▸ ends)⟩
    have none : accessorAt s = none := accessorAt_none isKey (not_startsKey_of_endsItem follows.2)
    have none' : accessorAt s' = Option.none := by
      rw [accessorAt_same sketched fun isName => ?_, none]
      obtain ⟨s3, passed, scanner, faults⟩ := propertyKey_name isName isKey
      exact ⟨s3, passed, faults ▸ follows.1.clean, scanner ▸ follows.1.scanner,
        scanner ▸ follows.1.before⟩
    rw [objectProperty_plain (kind ▸ noSpread) none']
    change Follows limit _ ((propertyKey inner' >>= fun found =>
      afterKey inner' s'.here found.1 found.2) s')
    refine (pairs.sketch steady sketched isKey follows.1).bind ?_
    rintro _ s2' ⟨rfl, new, sketched2⟩
    rcases rest with ⟨value, s3, s4, accepted, isValue, finished⟩ |
      ⟨noColon, noDefault, rfl, isShort, finished⟩
    · exact afterKey_keyed along first.steady sketched sketched2 accepted isValue
        finished early ends
    · exact afterKey_shorthand sketched sketched2 new noColon noDefault isShort finished

/-! ### Loops over properties -/

/-- One round of the loop over the properties of a literal. -/
def nextLiteralProperty (inner : Productions) : Parse (Option NodeId) := do
  if ← isAtPunctuator .closeBrace then return none
  let property ← objectProperty inner
  separator .closeBrace
  return some property

/-- The properties that were read since `s0`, and their drafts. -/
def PropertiesDrafted (w : Twin) (depth : Nat) (s0 s0' : ParseState) (found : List NodeId)
    (s s' : ParseState) : Prop :=
  Sketched w s0 s0' found s s' ∧ Row (fun _ => PropertyDraft (Drafted depth)) s.table s'.table
    s.table.size s0.table.size (found.map some)

lemma nextProperty_couples (along : Alongside w limit depth inner inner') (s0 s0' : ParseState)
    (found : List NodeId) :
    Couples w limit (PropertiesDrafted w depth s0 s0' found) (nextProperty inner)
      (nextLiteralProperty inner')
      (Finds (PropertiesDrafted w depth s0 s0') (PropertiesDrafted w depth s0 s0') found) where
  onward {s _ _} := (nextProperty_pairs (V := True) (along.paired s s)).onward
  run {s s' next s1} steady related ran early := by
    obtain ⟨sketched, row⟩ := related
    have lasting := lasting_drafted depth
    have kind : s'.scanner.token.kind = s.scanner.token.kind := sketched.scanner.kind
    by_cases isAt : s.scanner.token.kind = .punctuator .closeBrace
    · have done : nextProperty inner s = .ok none s := isAt_then isAt
      have done' : nextLiteralProperty inner' s' = .ok none s' := isAt_then (kind ▸ isAt)
      cases done.symm.trans ran
      rw [done']
      exact ⟨rfl, sketched, row⟩
    · have goes : nextProperty inner s = _ := isAt_else isAt
      have goes' : nextLiteralProperty inner' s' = _ := isAt_else (kind ▸ isAt)
      rw [goes] at ran
      rw [goes']
      obtain ⟨n, s2, isProperty, ran1⟩ := EStateM.bind_eq_ok.mp ran
      obtain ⟨_, s3, separated, ran2⟩ := EStateM.bind_eq_ok.mp ran1
      cases ran2
      refine (bindingProperty_drafts along).separated lasting.property (.inr (.inr rfl)) steady
        sketched isProperty separated early fun s1' sketched1 drafted => ?_
      refine ⟨rfl, sketched.trans sketched1, ?_⟩
      rw [List.map_append]
      have kept := row.stay (fun _ => lasting.property) sketched1.table.kept.stays
        sketched1.table.kept'.stays le_rfl
      exact kept.append (fun _ _ holds => holds) fun lo below =>
        ⟨lasting.property.lower drafted below, drafted.lt_size⟩

/-! ### Loops over elements -/

lemma restBinding_cases (ran : restBinding inner s = .ok n s1) :
    ∃ value s2 s3, advance s = .ok () s2 ∧ inner.binding s2 = .ok value s3 ∧
      finish s.here (.restElement value) s3 = .ok n s1 ∧
      s1.scanner.token.kind = .punctuator .closeBracket := by
  obtain ⟨_, _, looked, ran1⟩ := EStateM.bind_eq_ok.mp ran
  cases looked
  obtain ⟨_, s2, passed, ran2⟩ := EStateM.bind_eq_ok.mp ran1
  obtain ⟨value, s3, isValue, ran3⟩ := EStateM.bind_eq_ok.mp ran2
  obtain ⟨rest, s4, finished, ran4⟩ := EStateM.bind_eq_ok.mp ran3
  have last : (if decide (s4.scanner.token.kind = .punctuator .closeBracket) = true then pure rest
    else fail .restNotLast : Parse NodeId) s4 = .ok n s1 := ran4
  split at last
  · rename_i isAt
    cases last
    exact ⟨value, s2, s3, passed, isValue, finished, by simpa using isAt⟩
  · exact absurd last fail_ne_ok

/-- An element of a literal that starts with no dots. -/
lemma arrayElement_plain (plain : s.scanner.token.kind ≠ .punctuator .ellipsis) :
    arrayElement inner s = inner.assignment true s := by
  have stays : acceptPunctuator .ellipsis s = .ok false s := accept_other plain
  unfold arrayElement
  rw [here_bind, EStateM.bind_of_ok stays, if_neg (by simp)]

/-- A rest element is read as a spread element. -/
lemma restBinding_sketched (along : Alongside w limit depth inner inner')
    (steady : s.scanner.Steady) (twins : s.Twins w t t' drafts s')
    (isRest : s.scanner.token.kind = .punctuator .ellipsis) (ran : restBinding inner s = .ok n s1)
    (early : s1.Early w) : Follows limit (fun n' s1' => n' = n ∧ Sketched w s s' [n] s1 s1' ∧
      RestDraft (Drafted depth) s1.table s1'.table s.table.size n) (arrayElement inner' s') := by
  obtain ⟨value, s2, s3, passed, isValue, finished, isLast⟩ := restBinding_cases ran
  have early3 : s3.Early w := finish_early finished early
  have ends : s3.scanner.token.kind.EndsItem :=
    .inr (.inl (finish_scanner finished ▸ isLast))
  have first : Onward w s s2 := onward_advance passed
  have early2 : s2.Early w := (along.drafts.onward first.steady isValue).early early3
  have accepted : acceptPunctuator .ellipsis s = .ok true s2 := by
    change (if s.scanner.token.kind = .punctuator .ellipsis then _ else _ : Parse Bool) s = _
    rw [if_pos isRest, EStateM.bind_of_ok passed]
    rfl
  have dots :
      (stage w limit s s').Pairs True (acceptPunctuator .ellipsis) (acceptPunctuator .ellipsis)
      fun _ => True := .accept
  unfold arrayElement
  rw [here_bind]
  refine (dots.sketch steady twins accepted early2).bind ?_
  rintro _ s2' ⟨rfl, _, sketched⟩
  refine (along.drafts.run first.steady (.refl sketched) isValue early3 ends).bind ?_
  rintro value s3' ⟨rfl, sketched', drafted⟩
  obtain ⟨moved, inside⟩ := twins.start
  have whole : Sketched w s s' [value] s3 s3' := sketched.trans sketched'
  obtain ⟨s1', ran', sketched1, _, _, rfl, found, found', keeps, keeps'⟩ :=
    whole.finish moved inside (by simp [Form.nestedParts]) finished
  change Follows limit _ (finish s'.here (Form.restElement value).draft s3')
  rw [ran']
  refine ⟨rfl, sketched1, value, found, found', drafted.lt_size, ?_⟩
  have lasting := lasting_drafted depth
  exact lasting.lower (lasting.stay drafted keeps.stays keeps'.stays) sketched.table.grown

/-- One round of the loop over the elements of a literal. -/
def nextLiteralElement (inner : Productions) : Parse (Option (Option NodeId)) := do
  if ← isAtPunctuator .closeBracket then return none
  if ← acceptPunctuator .comma then return some none
  let element ← arrayElement inner
  separator .closeBracket
  return some (some element)

/-- The elements that were read since `s0`, and their drafts. Behind a rest element nothing
comes. -/
def ElementsDrafted (w : Twin) (depth : Nat) (s0 s0' : ParseState) (found : List (Option NodeId))
    (s s' : ParseState) : Prop :=
  Sketched w s0 s0' (found.filterMap id) s s' ∧
    (Row (fun _ => Drafted depth) s.table s'.table s.table.size s0.table.size found ∨
      s.scanner.token.kind = .punctuator .closeBracket ∧
        Row (ElementDraft (Drafted depth)) s.table s'.table s.table.size s0.table.size found)

/-- All elements were read. -/
def ElementsDone (w : Twin) (depth : Nat) (s0 s0' : ParseState) (found : List (Option NodeId))
    (s s' : ParseState) : Prop :=
  Sketched w s0 s0' (found.filterMap id) s s' ∧
    Row (ElementDraft (Drafted depth)) s.table s'.table s.table.size s0.table.size found

lemma nextElement_couples (along : Alongside w limit depth inner inner') (s0 s0' : ParseState)
    (found : List (Option NodeId)) :
    Couples w limit (ElementsDrafted w depth s0 s0' found) (nextElement inner)
      (nextLiteralElement inner')
      (Finds (ElementsDrafted w depth s0 s0') (ElementsDone w depth s0 s0') found) where
  onward {s _ _} := (nextElement_pairs (V := True) (along.paired s s)).onward
  run {s s' next s1} steady related ran early := by
    obtain ⟨sketched, rows⟩ := related
    have lasting := lasting_drafted depth
    have kind : s'.scanner.token.kind = s.scanner.token.kind := sketched.scanner.kind
    by_cases isAt : s.scanner.token.kind = .punctuator .closeBracket
    · have done : nextElement inner s = .ok none s := isAt_then isAt
      have done' : nextLiteralElement inner' s' = .ok none s' := isAt_then (kind ▸ isAt)
      cases done.symm.trans ran
      rw [done']
      exact ⟨rfl, sketched, rows.elim (·.imp fun _ _ _ => .inl) And.right⟩
    · have goes : nextElement inner s = _ := isAt_else isAt
      have goes' : nextLiteralElement inner' s' = _ := isAt_else (kind ▸ isAt)
      rw [goes] at ran
      rw [goes']
      have row := rows.resolve_right fun last => isAt last.1
      obtain ⟨comma, s2, accepted, ran1⟩ := EStateM.bind_eq_ok.mp ran
      rcases accept_cases accepted with ⟨rfl, _, _⟩ | ⟨rfl, noComma, rfl⟩
      · -- A hole.
        cases ran1
        have commas :
            (stage w limit s s').Pairs True (acceptPunctuator .comma) (acceptPunctuator .comma)
            fun _ => True := .accept
        refine (commas.sketch steady sketched accepted early).bind ?_
        rintro _ s1' ⟨rfl, _, sketched1⟩
        refine ⟨rfl, by simpa using sketched.next sketched1, .inl ?_⟩
        have kept := row.stay (fun _ => lasting) sketched1.table.kept.stays
          sketched1.table.kept'.stays le_rfl
        exact kept.append (fun _ _ holds => holds) fun lo below => below.trans sketched1.table.grown
      · have noComma' : acceptPunctuator .comma s' = .ok false s' := accept_other (kind ▸ noComma)
        rw [EStateM.bind_of_ok noComma', if_neg (by simp)]
        have ran2 : (if decide (s2.scanner.token.kind = .punctuator .ellipsis) = true then
            do return some (some (← restBinding inner))
          else do
            let element ← inner.binding
            refuseDefault
            separator .closeBracket
            return some (some element) : Parse (Option (Option NodeId))) s2 = .ok next s1 := ran1
        split at ran2
        · rename_i isRest
          obtain ⟨rest, s3, ranRest, ran3⟩ := EStateM.bind_eq_ok.mp ran2
          cases ran3
          obtain ⟨_, _, _, _, _, _, isLast⟩ := restBinding_cases ranRest
          refine (restBinding_sketched along steady sketched (by simpa using isRest) ranRest
            early).bind ?_
          rintro rest s1' ⟨rfl, sketched1, drafted⟩
          have ended : separator .closeBracket s1' = .ok () s1' :=
            separator_at (sketched1.scanner.kind.trans isLast)
          rw [EStateM.bind_of_ok ended]
          refine ⟨rfl, by simpa using sketched.trans sketched1, .inr ⟨isLast, ?_⟩⟩
          have kept := row.stay (fun _ => lasting) sketched1.table.kept.stays
            sketched1.table.kept'.stays le_rfl
          exact kept.append (fun _ _ => .inl) fun lo below =>
            ⟨(lasting.element true).lower (.inr ⟨rfl, drafted⟩) below, drafted.lt_size⟩
        · rename_i plain
          have plain' : arrayElement inner' s' = inner'.assignment true s' :=
            arrayElement_plain (by simpa [kind] using plain)
          obtain ⟨element, s3, isElement, ran3⟩ := EStateM.bind_eq_ok.mp ran2
          obtain ⟨_, s4, passed, ran4⟩ := EStateM.bind_eq_ok.mp ran3
          obtain ⟨_, rfl⟩ := refuseDefault_cases passed
          obtain ⟨_, s5, separated, ran5⟩ := EStateM.bind_eq_ok.mp ran4
          cases ran5
          rw [EStateM.bind_congr plain']
          refine along.drafts.separated lasting (.inr (.inl rfl)) steady sketched
            isElement separated early fun s1' sketched1 drafted => ?_
          refine ⟨rfl, by simpa using sketched.trans sketched1, .inl ?_⟩
          have kept := row.stay (fun _ => lasting) sketched1.table.kept.stays
            sketched1.table.kept'.stays le_rfl
          exact kept.append (fun _ _ holds => holds) fun lo below =>
            ⟨lasting.lower drafted below, drafted.lt_size⟩

/-! ### Whole patterns -/

/-- The parts of a pattern and their drafts. -/
def PartsDrafted (depth : Nat) (t t' : Table) (lo : Nat) : Form → Prop
  | .objectPattern properties =>
    Row (fun _ => PropertyDraft (Drafted depth)) t t' t.size lo (properties.map some)
  | .arrayPattern elements => Row (ElementDraft (Drafted depth)) t t' t.size lo elements
  | _ => False

/-- With its parts, the pattern is drafted. -/
lemma PartsDrafted.whole {form : Form} {u u' : Table} {lo : Nat}
    (parts : PartsDrafted depth t t' lo form) (keeps : t.Preserves u) (keeps' : t'.Preserves u')
    (found : u.form? t.size = some form) (found' : u'.form? t.size = some form.draft) :
    Drafted (depth + 1) u u' lo t.size := by
  have lasting := lasting_drafted depth
  cases form <;> try exact parts.elim
  case objectPattern properties =>
    exact .inr (.inl ⟨properties, found, found',
      Row.stay parts (fun _ => lasting.property) keeps.stays keeps'.stays le_rfl⟩)
  case arrayPattern elements =>
    exact .inr (.inr ⟨elements, found, found',
      Row.stay parts lasting.element keeps.stays keeps'.stays le_rfl⟩)

/-- Reading a pattern `form` from `s` up to its closing bracket in `s2` and finishing it. -/
structure ReadsPattern (w : Twin) (inner : Productions) (s : ParseState) (form : Form) (n : NodeId)
    (s1 s2 : ParseState) : Prop where
  onward : Onward w s s2
  ready : ∀ {text}, inner.Sound text → s.Ready text → s2.Ready text
  closed : ∃ s3, advance s2 = .ok () s3 ∧ finish s.here form s3 = .ok n s1

/-- The literal that is read where the pattern `form` is, up to its closing bracket. -/
def Redrawn (w : Twin) (depth : Nat) (s s' : ParseState) (form : Form) (s2 : ParseState)
    (n : NodeId) (s1' : ParseState) : Prop :=
  ∃ s2' s3', Sketched w s s' form.nestedParts s2 s2' ∧
    PartsDrafted depth s2.table s2'.table s.table.size form ∧ advance s2' = .ok () s3' ∧
    finish s'.here form.draft s3' = .ok n s1'

/-- A pattern has been read, and `literal` reads its draft. -/
def ReadsBoth (w : Twin) (limit : Prop) (depth : Nat) (inner : Productions) (s : ParseState)
    (n : NodeId) (s1 : ParseState) (literal : Parse NodeId) : Prop :=
  ∃ form s2, ReadsPattern w inner s form n s1 s2 ∧ ∀ {s'}, Sketched w s s' [] s s' → s2.Early w →
    Follows limit (Redrawn w depth s s' form s2) (literal s')

/-- Passing the closing bracket and finishing the literal. -/
lemma redrawn_of_parts {s2' : ParseState} (form : Form)
    (sketched : Sketched w s s' form.nestedParts s2 s2')
    (parts : PartsDrafted depth s2.table s2'.table s.table.size form) :
    Follows limit (Redrawn w depth s s' form s2) ((do advance; finish s'.here form.draft) s2') :=
  ⟨s2', _, sketched, parts, rfl, rfl⟩

/-- A pattern between brackets, read item by item as the literal that is its draft. -/
lemma bracketed_redrawn {α : Type} {bracket : Punctuator} {step step' : Parse (Option α)}
    (form : List α → Form) {I D : ParseState → ParseState → List α → ParseState → ParseState → Prop}
    (couples : ∀ s s' found, Couples w limit (I s s' found) step step'
      (Finds (I s s') (D s s') found))
    (start : ∀ {s s' s1 s1'}, Sketched w s s' [] s1 s1' → I s s' [] s1 s1')
    (parts : ∀ {s s' found s1 s1'}, D s s' found s1 s1' →
      Sketched w s s' (form found).nestedParts s1 s1' ∧
      PartsDrafted depth s1.table s1'.table s.table.size (form found))
    (ready : ∀ {text found s1 s2}, inner.Sound text → Holds text s true [] s1 → many step s1 =
      .ok found s2 →
      s2.Ready text) (steady : s.scanner.Steady) (ran : (do
      expectPunctuator bracket
      let found ← many step
      advance
      finish s.here (form found)) s = .ok n s1) : ReadsBoth w limit depth inner s n s1 (do
      let start ← here
      expectPunctuator bracket
      let found ← many step'
      advance
      finish start (form found).draft) := by
  obtain ⟨_, s2, opened, ran1⟩ := EStateM.bind_eq_ok.mp ran
  obtain ⟨found, s3, collected, ran2⟩ := EStateM.bind_eq_ok.mp ran1
  obtain ⟨_, s4, passed, finished⟩ := EStateM.bind_eq_ok.mp ran2
  have opening (s' : ParseState) : (stage w limit s s').Pairs True (expectPunctuator bracket)
    (expectPunctuator bracket) fun _ => True := .expect
  have loop (s' : ParseState) := Couples.many (couples s s')
  have first : Onward w s s2 := (opening s).onward steady opened
  have second : Onward w s2 s3 := (loop s).onward first.steady collected
  refine ⟨form found, s3, ⟨⟨second.steady, first.early ∘ second.early⟩, fun sound isReady => ?_,
    s4, passed, finished⟩, fun {s'} twins early => ?_⟩
  · exact ready sound ((meets_expect (by simp)).ok (.refl isReady) opened) collected
  refine ((opening s').sketch steady twins opened (second.early early)).bind ?_
  rintro _ s2' ⟨_, _, sketched⟩
  refine ((loop s').run first.steady (start sketched) collected early).bind ?_
  rintro _ s3' ⟨rfl, done⟩
  exact redrawn_of_parts (form _) (parts done).1 (parts done).2

/-- Once the pattern and the literal are finished, the one is the draft of the other. -/
lemma Redrawn.tables {form : Form} {s1' : ParseState} {n' : NodeId}
    (redrawn : Redrawn w depth s s' form s2 n' s1') (starts : s.Twins w t t' drafts s')
    (isPattern : ReadsPattern w inner s form n s1 s2) :
    n' = n ∧ Table.Twins w s.table s'.table (s1.table.Draws n) s1.table s1'.table ∧
      Drafted (depth + 1) s1.table s1'.table s.table.size n := by
  obtain ⟨s2', s3', sketched, parts, passed', finished'⟩ := redrawn
  obtain ⟨s3, passed, finished⟩ := isPattern.closed
  obtain ⟨rfl, rfl⟩ := finish_eq finished
  obtain ⟨rfl, rfl⟩ := finish_eq finished'
  cases passed
  cases passed'
  have size : s2'.table.size = s2.table.size := sketched.table.size
  obtain ⟨moved, inside⟩ := starts.start
  have moved' :
      max s2.scanner.token.stop s.here = max s2'.scanner.token.stop s'.here + w.shift := by
    rw [sketched.scanner.stop, moved, Nat.add_max_add_right]
  have found := (at_add_self (t := s2.table) s.here (max s2.scanner.token.stop s.here) form).form?
  have found' := (at_add_self (t := s2'.table) s'.here (max s2'.scanner.token.stop s'.here)
    form.draft).form?
  rw [size] at found'
  have keeps : s2.table.Preserves (s2.table.add s.here (max s2.scanner.token.stop s.here) form).2 :=
    keeps_add _ _ _
  refine ⟨size, (sketched.table.widen fun m => ?_).add moved moved' (.inr ⟨.self _, rfl⟩),
    parts.whole keeps (keeps_add _ _ _) found found'⟩
  rintro ⟨root, isRoot, draws⟩
  exact .part found isRoot (draws.mono keeps)

/-- Passing the closing bracket early, the literal is drafted as a whole. -/
lemma Redrawn.drafted {form : Form} {s1' : ParseState} {n' : NodeId}
    (redrawn : Redrawn w depth s s' form s2 n' s1') (starts : s.Twins w t t' drafts s')
    (isPattern : ReadsPattern w inner s form n s1 s2) (early : s1.Early w) :
    n' = n ∧ Sketched w s s' [n] s1 s1' ∧ Drafted (depth + 1) s1.table s1'.table
      s.table.size n := by
  obtain ⟨same, tables, drafted⟩ := redrawn.tables starts isPattern
  obtain ⟨s2', s3', sketched, parts, passed', finished'⟩ := redrawn
  obtain ⟨s3, passed, finished⟩ := isPattern.closed
  obtain ⟨_, passed'', twins, _, _⟩ := sketched.advance passed (finish_early finished early)
  cases passed'.symm.trans passed''
  obtain ⟨_, rfl⟩ := finish_eq finished
  obtain ⟨_, rfl⟩ := finish_eq finished'
  exact ⟨same, ⟨twins.scanner, twins.clean, twins.clean', twins.last, tables.widen (by simp)⟩,
    drafted⟩

lemma identifier_eq (isName : s.scanner.token.kind = .identifier) : identifier s = (do
    advance
    finish s.here (.identifier (String.ofList s.scanner.lexeme))) s := by
  obtain ⟨⟨⟨kind, first, last, lineBreak⟩, opening, closing, faults⟩, table, found,
    lastStop, size⟩ := s
  obtain rfl : kind = .identifier := isName
  rfl

lemma identifier_cases (ran : identifier s = .ok n s1) :
    s.scanner.token.kind = .identifier ∧ n = s.table.size ∧
      ∃ text, s1.table.form? n = some (.identifier text) := by
  by_cases isName : s.scanner.token.kind = .identifier
  · rw [identifier_eq isName] at ran
    obtain ⟨_, s2, passed, ran1⟩ := EStateM.bind_eq_ok.mp ran
    cases passed
    cases ran1
    exact ⟨isName, rfl, _, (at_add_self _ _ _).form?⟩
  · have refused : identifier s = fail (.expected TokenKind.identifier.spelling) s :=
      isAt_else isName
    exact absurd (refused.symm.trans ran) fail_ne_ok

lemma binding_named (other : ¬ s.scanner.token.kind.OpensPattern) :
    binding inner s = identifier s := by
  unfold binding
  rw [kind_bind]
  generalize s.scanner.token.kind = kind at other
  split
  · exact absurd (.inl rfl) other
  · exact absurd (.inr rfl) other
  · rfl

lemma primary_named (isName : s.scanner.token.kind = .identifier) :
    primary inner s = identifier s := by
  unfold primary
  rw [here_bind, kind_bind, isName]

lemma endsOperand_of_endsItem {kind : TokenKind} (ends : kind.EndsItem) :
    kind.EndsOperand ∧ AssignmentOp.ofToken? kind = none := by
  rcases ends with rfl | rfl | rfl <;> exact ⟨⟨by simp, by simp, by simp, rfl, rfl, by simp⟩, rfl⟩

section Redrawing

variable (along : Alongside w limit depth inner inner')

include along

lemma objectPattern_redrawn (steady : s.scanner.Steady) (ran : objectPattern inner s = .ok n s1) :
    ReadsBoth w limit depth inner s n s1 (objectLiteral inner') :=
  bracketed_redrawn .objectPattern (nextProperty_couples along)
    (fun sketched => ⟨sketched, sketched.table.grown⟩) id
    (fun sound holds collected => ((bindingProperties_meets sound).ok holds collected).ready)
    steady ran

lemma arrayPattern_redrawn (steady : s.scanner.Steady) (ran : arrayPattern inner s = .ok n s1) :
    ReadsBoth w limit depth inner s n s1 (arrayLiteral inner') :=
  bracketed_redrawn .arrayPattern (nextElement_couples along)
    (fun sketched => ⟨sketched, .inl sketched.table.grown⟩) id
    (fun sound holds collected => ((bindingElements_meets sound).ok holds collected).ready)
    steady ran

/-- A declared pattern, and the literal that is read where it is. -/
lemma binding_redrawn (steady : s.scanner.Steady) (opens : s.scanner.token.kind.OpensPattern)
    (ran : binding inner s = .ok n s1) : ReadsBoth w limit depth inner s n s1 (primary inner') := by
  unfold binding at ran
  rw [kind_bind] at ran
  have reads {literal : Parse NodeId} (both : ReadsBoth w limit depth inner s n s1 literal)
      (same : ∀ s', s'.scanner.token.kind = s.scanner.token.kind → primary inner' s' = literal s') :
      ReadsBoth w limit depth inner s n s1 (primary inner') := by
    obtain ⟨form, s2, isPattern, redrawn⟩ := both
    refine ⟨form, s2, isPattern, fun {s'} sketched early => ?_⟩
    rw [same s' sketched.scanner.kind]
    exact redrawn sketched early
  rcases opens with isAt | isAt <;> rw [isAt] at ran
  · exact reads (objectPattern_redrawn along steady ran) fun s' kind => by
      rw [primary, here_bind, kind_bind, kind, isAt]
  · exact reads (arrayPattern_redrawn along steady ran) fun s' kind => by
      rw [primary, here_bind, kind_bind, kind, isAt]

/-- A declared variable or pattern, and the primary expression that is read where it is. -/
lemma binding_primary (steady : s.scanner.Steady) (sketched : Sketched w s s' [] s s')
    (ran : binding inner s = .ok n s1) (early : s1.Early w) :
    s.scanner.token.kind.StartsOperand ∧ Follows limit (fun n' s1' => n' = n ∧
      Sketched w s s' [n] s1 s1' ∧
      Drafted (depth + 1) s1.table s1'.table s.table.size n) (primary inner' s') := by
  by_cases opens : s.scanner.token.kind.OpensPattern
  · obtain ⟨form, s2, isPattern, redrawn⟩ := binding_redrawn along steady opens ran
    obtain ⟨s3, passed, finished⟩ := isPattern.closed
    have early2 : s2.Early w := (onward_advance passed).early (finish_early finished early)
    exact ⟨opens.startsOperand, (redrawn sketched early2).imp fun _ _ redrawn =>
      redrawn.drafted sketched isPattern early⟩
  · rw [binding_named opens] at ran
    obtain ⟨isName, rfl, text, found⟩ := identifier_cases ran
    refine ⟨isName ▸ ⟨rfl, by simp⟩, ?_⟩
    rw [primary_named (sketched.scanner.kind.trans isName)]
    have pairs : (stage w limit s s').Pairs True identifier identifier _ := identifier_pairs
    refine (pairs.sketch steady sketched ran early).imp ?_
    rintro _ s1' ⟨rfl, _, sketched1⟩
    have named : NamedDraft s1.table s1'.table s.table.size s.table.size :=
      ⟨le_rfl, text, found, sketched1.form? le_rfl found⟩
    exact ⟨rfl, sketched1.widen (by simp), named.drafted⟩

/-- A literal that no operator follows is a draft of the pattern. -/
lemma binding_drafts :
    Drafts w limit TokenKind.EndsItem (Drafted (depth + 1)) (binding inner)
      (assignment inner' true) where
  onward {s _ _} := (binding_pairs (V := True) (along.paired s s)).onward
  run {s s' n s1} steady sketched ran early ends := by
    obtain ⟨starts, reads⟩ := binding_primary along steady sketched ran early
    obtain ⟨ended, noOperator⟩ := endsOperand_of_endsItem ends
    refine (assignment_of_primary (sketched.scanner.kind ▸ starts) (reads.imp fun n' s1' holds =>
      ⟨holds, holds.2.1.scanner.kind ▸ ended⟩) (fun n' s1' holds => ?_) true).imp
      fun _ _ ended => ended.1
    rw [holds.2.1.scanner.kind]
    exact noOperator

end Redrawing

/-- The rules for patterns go alongside at every depth. -/
lemma within_alongside {depth' : Nat} (enough : depth ≤ depth' ∨ limit) :
    Alongside w limit depth (.within depth) (.within depth') := by
  refine ⟨fun s s' => Productions.within_paired _ enough, ?_⟩
  induction depth generalizing depth' with
  | zero =>
    have refuses {s n s1} : (Productions.within 0).binding s ≠ .ok n s1 := fail_ne_ok
    exact ⟨fun _ ran => (refuses ran).elim, fun _ _ ran => (refuses ran).elim⟩
  | succ depth ih =>
    cases depth' with
    | zero =>
      have deep : limit := enough.resolve_left (by omega)
      have inside : depth ≤ depth ∨ limit := .inl le_rfl
      exact (binding_drafts ⟨fun s s' => Productions.within_paired _ inside, ih inside⟩).tooDeep
        deep
    | succ depth' =>
      have inside : depth ≤ depth' ∨ limit := enough.imp (by omega) id
      exact binding_drafts ⟨fun s s' => Productions.within_paired _ inside, ih inside⟩

end Grammar

end PatternLowering

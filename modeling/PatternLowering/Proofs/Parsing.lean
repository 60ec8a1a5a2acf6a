import PatternLowering.Grammar.Parse
import PatternLowering.Proofs.Roles
import PatternLowering.Proofs.Steps
import PatternLowering.Proofs.Tokens

/-!
# What parsing steps do

A production turns the tokens it passes into one tree. In the middle of it, the trees it has made so
far stand side by side at the end of the table, each with the role it is going to play: finishing a
node takes them all as its parts. Steps are described by what holds before and after them. A step
that fails has reported an error.
-/

namespace PatternLowering

open List Table

namespace ParseState

/-- Where the current token starts. -/
def here (s : ParseState) : Nat := s.scanner.token.start

/-- What holds between any two steps. -/
structure Ready (text : Text) (s : ParseState) : Prop where
  scanner : s.scanner.Run text
  behind : s.lastStop ≤ s.here
  closed : 0 < s.lastStop → text.Closes s.lastStop
  reported : s.scanner.token.kind = .unknown → s.faults ≠ []
  tidy : s.table.Tidy text.Opens text.Closes
  size : s.size = text.size
  spelled : ∀ {n node word}, s.table.get? n = some node → node.form.word? = some word →
    word.toList = text.slice node.start node.stop

/-- Since `s0` the tokens were passed, and the nodes made since then start and stop with them. -/
structure Trail (s0 : ParseState) (tokens : List Token) (s : ParseState) : Prop where
  passes : s0.scanner.Passes tokens s.scanner
  last : s.lastStop = s0.lastStop ∧ tokens = [] ∨
    ∃ token, tokens.getLast? = some token ∧ token.stop = s.lastStop
  spans : ∀ {m node}, s0.table.size ≤ m → s.table.get? m = some node →
    (∃ token ∈ tokens, token.start = node.start) ∧ ∃ token ∈ tokens, token.stop = node.stop

namespace Trail

variable {s0 s s' : ParseState} {tokens tokens' : List Token}

/-- Reading on without touching the table. -/
lemma of_same (same : s.table = s0.table) (passes : s0.scanner.Passes tokens s.scanner)
    (last : s.lastStop = s0.lastStop ∧ tokens = [] ∨
      ∃ token, tokens.getLast? = some token ∧ token.stop = s.lastStop) :
    s0.Trail tokens s := by
  refine ⟨passes, last, fun beyond found => ?_⟩
  rw [same] at found
  exact absurd (lt_size found) (Nat.not_lt.mpr beyond)

lemma refl (s : ParseState) : s.Trail [] s := of_same rfl .refl (.inl ⟨rfl, rfl⟩)

lemma trans (first : s0.Trail tokens s) (second : s.Trail tokens' s')
    (frame : ∀ {m}, m < s.table.size → s'.table.get? m = s.table.get? m) :
    s0.Trail (tokens ++ tokens') s' := by
  refine ⟨first.passes.trans second.passes, ?_, fun {m node} later found => ?_⟩
  · rcases second.last with ⟨same, rfl⟩ | ⟨token, isLast, stop⟩
    · rw [same, append_nil]
      exact first.last
    · exact .inr ⟨token, by simp [isLast], stop⟩
  · rcases Nat.lt_or_ge m s.table.size with before | after
    · rw [frame before] at found
      obtain ⟨⟨opening, isOpening, start⟩, closing, isClosing, stop⟩ := first.spans later found
      exact ⟨⟨opening, mem_append_left _ isOpening, start⟩,
        closing, mem_append_left _ isClosing, stop⟩
    · obtain ⟨⟨opening, isOpening, start⟩, closing, isClosing, stop⟩ := second.spans after found
      exact ⟨⟨opening, mem_append_right _ isOpening, start⟩,
        closing, mem_append_right _ isClosing, stop⟩

/-- Where something was passed, the tokens start where the trail does. -/
lemma ends {text : Text} (trail : s0.Trail tokens s) (ready : s0.Ready text)
    (passed : s0.here < s.lastStop) :
    (∃ token ∈ tokens, token.start = s0.here) ∧ ∃ token ∈ tokens, token.stop = s.lastStop := by
  rcases trail.last with ⟨same, _⟩ | ⟨token, isLast, stop⟩
  · exact absurd ready.behind (Nat.not_le_of_lt (same ▸ passed))
  · have start := (trail.passes.start ready.scanner).2
    rw [if_neg (by rintro rfl; cases isLast)] at start
    exact ⟨start, token, mem_of_getLast? isLast, stop⟩

end Trail

/-- Since `s0` the trees in `slots` were made, and nothing before them was touched. If `moved`, a
token was passed. -/
structure Holds (text : Text) (s0 : ParseState) (moved : Bool) (slots : List (Role × NodeId))
    (s : ParseState) : Prop where
  base : s0.Ready text
  ready : s.Ready text
  frame : ∀ {m}, m < s0.table.size → s.table.get? m = s0.table.get? m
  grown : s0.table.size ≤ s.table.size
  roots : ∀ {m}, s0.table.size ≤ m → m < s.table.size →
    (s.table.parent? m = none ↔ m ∈ slots.map Prod.snd)
  fresh : ∀ {m}, m ∈ slots.map Prod.snd → s0.table.size ≤ m
  laid : s.table.Laid s0.here (slots.map Prod.snd) (max s.lastStop s0.here)
  fits : ∀ {part}, part ∈ slots → Fits s.table part.1 part.2
  forward : s0.here ≤ s.here
  late : s0.lastStop ≤ s.lastStop
  passed : moved = true → s0.here < s.lastStop
  trail : ∃ tokens, s0.Trail tokens s

variable {text : Text} {s0 s s' : ParseState} {moved moved' : Bool}
  {slots slots' : List (Role × NodeId)}

lemma Holds.opened (holds : Holds text s0 moved slots s) : text.Opens s0.here :=
  ⟨_, holds.base.scanner, rfl⟩

lemma Holds.refl (ready : s.Ready text) : Holds text s false [] s where
  base := ready
  ready := ready
  frame _ := rfl
  grown := le_rfl
  roots inside outside := absurd inside (Nat.not_le_of_lt outside)
  fresh mem := by simp at mem
  laid := le_max_right _ _
  fits mem := by simp at mem
  forward := le_rfl
  late := le_rfl
  passed h := by cases h
  trail := ⟨[], .refl s⟩

/-- Trees that were made one after the other stand side by side. -/
lemma Holds.trans (first : Holds text s0 moved slots s) (second : Holds text s moved' slots' s') :
    Holds text s0 (moved || moved') (slots ++ slots') s' := by
  have keeps {m : NodeId} {form : Form} (found : s.table.form? m = some form) :
      s'.table.form? m = some form := by
    obtain ⟨node, isNode, _⟩ := form?_eq_some.mp found
    rw [Table.form?, second.frame (lt_size isNode)]
    exact found
  refine ⟨first.base, second.ready, ?_, first.grown.trans second.grown, ?_, ?_, ?_, ?_,
    first.forward.trans second.forward, first.late.trans second.late, ?_, ?_⟩
  · intro m old
    rw [second.frame (Nat.lt_of_lt_of_le old first.grown), first.frame old]
  · intro m new inside
    rw [map_append, mem_append]
    rcases Nat.lt_or_ge m s.table.size with before | after
    · have absent : m ∉ slots'.map Prod.snd := fun mem =>
        Nat.not_le_of_lt before (second.fresh mem)
      have same : s'.table.parent? m = s.table.parent? m := by
        rw [Table.parent?, second.frame before, Table.parent?]
      simp only [same, absent, or_false]
      exact first.roots new before
    · have absent : m ∉ slots.map Prod.snd := by
        intro mem
        obtain ⟨part, isPart, rfl⟩ := mem_map.mp mem
        exact Nat.not_le_of_lt (first.fits isPart).lt_size after
      simp only [absent, false_or]
      exact second.roots after inside
  · intro m mem
    rw [map_append, mem_append] at mem
    rcases mem with mem | mem
    · exact first.fresh mem
    · exact first.grown.trans (second.fresh mem)
  · rw [map_append]
    have left : s'.table.Laid s0.here (slots.map Prod.snd) (max s.lastStop s0.here) := by
      refine first.laid.congr fun m _ node found => ?_
      exact ⟨node, by rw [second.frame (lt_size found), found], rfl, rfl⟩
    have := second.late
    have := first.ready.behind
    have := first.forward
    by_cases none : slots'.map Prod.snd = []
    · rw [none, append_nil]
      exact left.mono le_rfl (max_le_max_right _ second.late)
    · have := second.laid.lt none
      exact (left.append second.laid (by omega)).mono le_rfl (by omega)
  · intro part mem
    rcases mem_append.mp mem with mem | mem
    · exact (first.fits mem).congr fun m form => keeps
    · exact second.fits mem
  · intro some
    rcases (Bool.or_eq_true _ _).mp some with some | some
    · exact (first.passed some).trans_le second.late
    · exact first.forward.trans_lt (second.passed some)
  · obtain ⟨tokens, trail⟩ := first.trail
    obtain ⟨tokens', trail'⟩ := second.trail
    exact ⟨tokens ++ tokens', trail.trans trail' second.frame⟩

/-- Reading on without touching the table. -/
lemma Holds.onward {tokens : List Token} (holds : Holds text s0 moved slots s)
    (ready : s'.Ready text) (same : s'.table = s.table) (forward : s.here ≤ s'.here)
    (late : s.lastStop ≤ s'.lastStop) (trail : s.Trail tokens s') :
    Holds text s0 moved slots s' where
  base := holds.base
  ready := ready
  frame old := by rw [same]; exact holds.frame old
  grown := by rw [same]; exact holds.grown
  roots := by rw [same]; exact holds.roots
  fresh := holds.fresh
  laid := by rw [same]; exact holds.laid.mono le_rfl (max_le_max_right _ late)
  fits mem := by rw [same]; exact holds.fits mem
  forward := holds.forward.trans forward
  late := holds.late.trans late
  passed some := (holds.passed some).trans_le late
  trail := by
    obtain ⟨tokens', trail'⟩ := holds.trail
    exact ⟨tokens' ++ tokens, trail'.trans trail fun _ => by rw [same]⟩

/-- The trees may play other roles than those they were made for. -/
lemma Holds.roles (holds : Holds text s0 moved slots s)
    (same : slots'.map Prod.snd = slots.map Prod.snd)
    (fits : ∀ {part}, part ∈ slots' → Fits s.table part.1 part.2) : Holds text s0 moved slots' s :=
  { holds with
    roots := by rw [same]; exact holds.roots
    fresh := by rw [same]; exact holds.fresh
    laid := by rw [same]; exact holds.laid
    fits := fits }

/-- The one tree that was made may play another role. -/
lemma Holds.role {role role' : Role} {n : NodeId}
    (holds : Holds text s0 moved [(role, n)] s)
    (fits : Fits s.table role n → Fits s.table role' n) : Holds text s0 moved [(role', n)] s :=
  holds.roles rfl fun {part} mem => by
    obtain rfl : part = (role', n) := mem_singleton.mp mem
    exact fits (holds.fits (mem_singleton_self (role, n)))

lemma Holds.relax (holds : Holds text s0 moved slots s) (less : moved' = true → moved = true) :
    Holds text s0 moved' slots s :=
  { holds with passed := fun some => holds.passed (less some) }

/-- A step that starts in `s0`. -/
abbrev Starting (text : Text) (s0 s : ParseState) : Prop := s = s0 ∧ s0.Ready text

end ParseState

namespace Parse

open ParseState

variable {α β : Type}

/-- Where `P` holds, the step leads to `Q` or fails with an error that has been reported. -/
def Meets (P : ParseState → Prop) (p : Parse α) (Q : α → ParseState → Prop) : Prop :=
  ∀ s, P s →
    match p s with
    | .ok a s' => Q a s'
    | .error halt s' => halt = .reported ∧ s'.faults ≠ []

namespace Meets

variable {P P' : ParseState → Prop} {p : Parse α} {Q Q' : α → ParseState → Prop}

lemma ok (meets : Meets P p Q) {s s' : ParseState} {a : α} (holds : P s)
    (ran : p s = .ok a s') : Q a s' := by
  have := meets s holds
  rwa [ran] at this

lemma error (meets : Meets P p Q) {s s' : ParseState} {halt : Halt} (holds : P s)
    (ran : p s = .error halt s') : halt = .reported ∧ s'.faults ≠ [] := by
  have := meets s holds
  rwa [ran] at this

lemma pure {a : α} (holds : ∀ s, P s → Q a s) : Meets P (pure a) Q := holds

variable {R : β → ParseState → Prop} {f : α → Parse β}

lemma bind (first : Meets P p Q) (second : ∀ a, Meets (Q a) (f a) R) : Meets P (p >>= f) R := by
  intro s holds
  change match EStateM.bind p f s with | .ok a s' => R a s' | .error halt s' => _
  unfold EStateM.bind
  cases ran : p s with
  | ok a s' => exact second a s' (first.ok holds ran)
  | error halt s' => exact first.error holds ran

/-- As `bind`, where the result does not matter. -/
lemma next (first : Meets P p Q) (second : ∀ {a}, Meets (Q a) (f a) R) : Meets P (p >>= f) R :=
  first.bind fun _ => second

/-- Nothing comes after a step that always fails. -/
lemma stop (fails : Meets P p fun _ _ => False) : Meets P (p >>= f) R :=
  fails.bind fun _ _ impossible => impossible.elim

lemma imp (meets : Meets P p Q) (before : ∀ s, P' s → P s) (after : ∀ a s, Q a s → Q' a s) :
    Meets P' p Q' := by
  intro s holds
  cases ran : p s with
  | ok a s' => exact after a s' (meets.ok (before s holds) ran)
  | error halt s' => exact meets.error (before s holds) ran

lemma pre (meets : Meets P p Q) (before : ∀ s, P' s → P s) : Meets P' p Q :=
  meets.imp before fun _ _ h => h

lemma post (meets : Meets P p Q) (after : ∀ a s, Q a s → Q' a s) : Meets P p Q' :=
  meets.imp (fun _ h => h) after

/-- The state before a step may be given a name. -/
lemma fix (meets : ∀ s1, P s1 → Meets (· = s1) p Q) : Meets P p Q :=
  fun s holds => meets s holds s rfl

/-- A step that only looks at the state. -/
lemma look {f : ParseState → α} (looks : ∀ s, p s = .ok (f s) s) :
    Meets P p fun a s => P s ∧ a = f s := by
  intro s holds
  rw [looks]
  exact ⟨holds, rfl⟩

lemma glance {g : ParseState → α} (looks : ∀ {s}, p s = .ok (g s) s)
    (second : ∀ {a}, Meets P (f a) R) : Meets P (p >>= f) R :=
  (look fun _ => looks).bind fun _ => second.pre fun _ h => h.1

lemma ite {c : Prop} [Decidable c] {q : Parse α} (yes : c → Meets P p Q)
    (no : ¬ c → Meets P q Q) : Meets P (if c then p else q) Q := by
  split
  · exact yes ‹_›
  · exact no ‹_›

/-- Two ways to get what the following steps need. -/
lemma join {c : Prop} [Decidable c] {q : Parse α} (yes : c → Meets P p Q) (no : ¬ c → Meets P q Q)
    (next : ∀ a, Meets (Q a) (f a) R) : Meets P (if c then p >>= f else q >>= f) R :=
  .ite (fun holds => (yes holds).bind next) fun fails => (no fails).bind next

end Meets

section Looking

variable {P : ParseState → Prop}

lemma meets_here : Meets P here fun a s => P s ∧ a = s.here := .look fun _ => rfl

lemma meets_kind : Meets P kind fun a s => P s ∧ a = s.scanner.token.kind := .look fun _ => rfl

lemma meets_token : Meets P token fun a s => P s ∧ a = s.scanner.token := .look fun _ => rfl

lemma meets_isAt (k : TokenKind) :
    Meets P (isAt k) fun a s => P s ∧ a = decide (s.scanner.token.kind = k) :=
  .look fun _ => rfl

lemma meets_form? (n : NodeId) : Meets P (form? n) fun a s => P s ∧ a = s.table.form? n :=
  .look fun _ => rfl

lemma meets_name? (n : NodeId) : Meets P (name? n) fun a s => P s ∧ a = s.table.name? n :=
  .look fun _ => rfl

lemma meets_get : Meets P get fun a s => P s ∧ a = s := .look fun _ => rfl

end Looking

section Failing

variable {P : ParseState → Prop} {Q : α → ParseState → Prop}

lemma meets_failAt (start length : Nat) (cause : SyntaxError) :
    Meets P (failAt start length cause) Q := by
  intro s _
  exact ⟨rfl, by simp⟩

lemma meets_fail (cause : SyntaxError)
    (reported : ∀ s, P s → s.scanner.token.kind = .unknown → s.faults ≠ []) :
    Meets P (fail cause) Q := by
  refine meets_token.bind fun t => .ite (fun unknown => ?_) fun _ => meets_failAt _ _ _
  rintro s ⟨holds, rfl⟩
  exact ⟨rfl, reported s holds unknown⟩

lemma meets_failAtNode (n : NodeId) (cause : SyntaxError) : Meets P (failAtNode n cause) Q := by
  refine meets_get.bind fun s => ?_
  split
  · exact meets_failAt _ _ _
  · exact meets_here.bind fun _ => meets_failAt _ _ _

end Failing

section Tokens

variable {text : Text} {s0 : ParseState} {moved : Bool} {slots : List (Role × NodeId)}

lemma advance_ready {s s' : ParseState} (ready : s.Ready text) (ran : advance s = .ok () s') :
    s'.Ready text ∧ s'.table = s.table ∧ s.here ≤ s'.here ∧ s.lastStop ≤ s'.lastStop ∧
      s'.lastStop = s.scanner.token.stop ∧ s.Trail [s.scanner.token] s' := by
  have stands := ready.scanner.stands
  obtain ⟨_, after⟩ := Scanner.stands_scan stands.closing_in
  rw [← stands.stop] at after
  have before := stands.start_le_stop
  have behind := ready.behind
  cases ran
  refine ⟨⟨.takeFaults (.scan ready.scanner), after, fun _ => ⟨_, ready.scanner, rfl⟩,
    fun unknown => ?_,
    ready.tidy, ready.size, ready.spelled⟩, rfl, before.trans after, behind.trans before, rfl,
    .of_same rfl (.scan .refl) (.inr ⟨_, rfl, rfl⟩)⟩
  exact fun none => Scanner.faults_of_scan_unknown unknown (append_eq_nil_iff.mp none).2

lemma meets_advance :
    Meets (Holds text s0 moved slots) advance fun _ => Holds text s0 moved slots := by
  intro s holds
  obtain ⟨ready, same, forward, late, _, trail⟩ := advance_ready holds.ready rfl
  exact holds.onward ready same forward late trail

/-- Every token but the end of the file takes the parser on. -/
lemma meets_pass {P : ParseState → Prop}
    (before : ∀ s, P s →
      (∃ moved, Holds text s0 moved slots s) ∧ s.scanner.token.kind ≠ .endOfFile) :
    Meets P advance fun _ => Holds text s0 true slots := by
  intro s here
  obtain ⟨⟨moved, holds⟩, more⟩ := before s here
  obtain ⟨ready, same, forward, late, stop, trail⟩ := advance_ready holds.ready rfl
  have wide := holds.ready.scanner.stands.width more
  refine { holds.onward ready same forward late trail with passed := fun _ => ?_ }
  rw [stop]
  exact holds.forward.trans_lt wide

lemma meets_rescanSlash :
    Meets (fun s => Holds text s0 moved slots s ∧ s.scanner.token.kind ≠ .endOfFile) rescanSlash
      fun _ s => Holds text s0 moved slots s ∧ s.scanner.token.kind ≠ .endOfFile := by
  rintro s ⟨holds, more⟩
  obtain ⟨_, start⟩ := holds.ready.scanner.stands.rescanSlash
  have kind := s.scanner.rescanSlash_cases
  have ready := holds.ready
  refine ⟨holds.onward ⟨.rescanSlash ready.scanner, ?_, ready.closed, fun unknown => ?_, ready.tidy,
    ready.size, ready.spelled⟩ rfl (le_of_eq start.symm) le_rfl
      (.of_same rfl (.rescanSlash .refl) (.inl ⟨rfl, rfl⟩)), fun same => ?_⟩
  · exact ready.behind.trans_eq start.symm
  · rcases kind with kind | kind
    · cases unknown.symm.trans kind
    · exact ready.reported (kind ▸ unknown)
  · rcases kind with kind | kind
    · cases same.symm.trans kind
    · exact more (kind ▸ same)

lemma meets_failing {Q : α → ParseState → Prop} (cause : SyntaxError) :
    Meets (Holds text s0 moved slots) (fail cause) Q :=
  meets_fail cause fun _ holds => holds.ready.reported

lemma meets_accept {k : TokenKind} (more : k ≠ .endOfFile) :
    Meets (Holds text s0 moved slots) (accept k)
      fun found => Holds text s0 (moved || found) slots := by
  refine meets_kind.bind fun kind => .ite (fun isKind => ?_) fun _ => .pure ?_
  · refine (meets_pass fun s before => ⟨⟨_, before.1⟩, ?_⟩).bind fun _ => .pure fun s holds => by
      simpa using holds
    rw [← before.2, isKind]
    exact more
  · rintro s ⟨holds, _⟩
    simpa using holds

lemma meets_expect {k : TokenKind} (more : k ≠ .endOfFile) :
    Meets (Holds text s0 moved slots) (expect k) fun _ => Holds text s0 true slots := by
  refine (meets_accept more).bind fun found => .ite (fun yes => .pure fun s holds => ?_)
    fun _ => meets_failing _
  simpa [yes] using holds

lemma meets_endStatement :
    Meets (Holds text s0 moved slots) endStatement fun _ => Holds text s0 moved slots := by
  refine (meets_accept (by simp)).bind fun found => .ite (fun _ => .pure fun s holds => ?_)
    fun _ => .glance rfl fun {t} => .ite (fun _ => .pure fun s holds => ?_)
      fun _ => meets_failing _
  · exact holds.relax (by simp +contextual)
  · exact holds.relax (by simp +contextual)

lemma meets_separator (close : Punctuator) :
    Meets (Holds text s0 moved slots) (separator close) fun _ => Holds text s0 moved slots := by
  refine .glance rfl fun {closes} => .ite (fun _ => .pure fun _ => id)
    fun _ => (meets_expect (by simp)).post fun _ s holds => holds.relax fun _ => rfl

end Tokens

section Trees

variable {text : Text} {s0 : ParseState} {moved : Bool} {slots : List (Role × NodeId)}

/-- The node that a form makes of the text passed since `s0`: a block has its statements between the
braces, and a word is the whole text. -/
def Spells (text : Text) (s0 : ParseState) (form : Form) (s : ParseState) : Prop :=
  (∀ statements, form = .block statements →
      s.table.Laid (s0.here + 1) statements (s.lastStop - 1)) ∧
    ∀ word, form.word? = some word → word.toList = text.slice s0.here s.lastStop

variable {role : Role} {form : Form}

lemma spells_of_plain (plain : form.isSpelled = false) (s : ParseState) :
    Spells text s0 form s := by
  constructor
  · rintro statements rfl
    cases plain
  · intro word isWord
    cases plain.symm.trans (Form.isSpelled_of_word? isWord)

/-- The trees made so far become the parts of a new one. -/
lemma meets_finish_spelled (known : role.slots form = some slots) :
    Meets (fun s => Holds text s0 true slots s ∧ Spells text s0 form s) (finish s0.here form)
      fun n => Holds text s0 true [(role, n)] := by
  rintro s ⟨holds, braces, isText⟩
  have passed := holds.passed rfl
  have ready := holds.ready
  have parts := Role.map_slots known
  have stop : max s.lastStop s0.here = s.lastStop := max_eq_left passed.le
  have laid := holds.laid
  rw [parts, stop] at laid
  have ran : finish s0.here form s =
      .ok s.table.size { s with table := (s.table.add s0.here s.lastStop form).2 } := by
    change EStateM.Result.ok s.table.size
      { s with table := (s.table.add s0.here (max s.lastStop s0.here) form).2 } = _
    rw [stop]
  rw [ran]
  have part_lt (m : NodeId) (part : m ∈ form.children) : m < s.table.size := by
    obtain ⟨node, found, _⟩ := laid.within part
    exact lt_size found
  have tidy : (s.table.add s0.here s.lastStop form).2.Tidy text.Opens text.Closes := by
    refine ready.tidy.add laid (fun m part => ?_) holds.opened (ready.closed (by omega)) braces
    have part' : m ∈ slots.map Prod.snd := parts ▸ part
    exact (holds.roots (holds.fresh part') (part_lt m part)).mpr part'
  have self := s.table.get?_add_self s0.here s.lastStop form
  have isForm : (s.table.add s0.here s.lastStop form).2.form? s.table.size = some form := by
    rw [Table.form?, self]
    rfl
  refine ⟨holds.base, ⟨ready.scanner, ready.behind, ready.closed, ready.reported, tidy,
    ready.size, ?_⟩, ?_, ?_, ?_, ?_, ?_, ?_, holds.forward, holds.late, fun _ => passed, ?_⟩
  · intro m node word found isWord
    rcases get?_add_eq_some found with ⟨rfl, rfl⟩ | ⟨old, before, start, stop, same⟩
    · exact isText word isWord
    · rw [start, stop]
      exact ready.spelled before (same ▸ isWord)
  · intro m old
    have absent : m ∉ form.children := fun part =>
      Nat.not_le_of_lt old (holds.fresh (parts ▸ part))
    dsimp only
    rw [get?_add_of_lt _ _ _ (Nat.lt_of_lt_of_le old holds.grown), ← holds.frame old]
    cases s.table.get? m <;> simp [absent]
  · exact holds.grown.trans ((Nat.le_succ _).trans_eq (size_add ..).symm)
  · intro m new inside
    dsimp only at inside ⊢
    rw [size_add] at inside
    rw [parent?_add _ _ _ part_lt, map_singleton, mem_singleton]
    rcases Nat.lt_or_eq_of_le (Nat.le_of_lt_succ inside) with before | rfl
    · have roots := holds.roots new before
      rw [parts] at roots
      by_cases part : m ∈ form.children <;> simp [part, roots, before.ne]
    · have absent : s.table.size ∉ form.children := fun part => lt_irrefl _ (part_lt _ part)
      simp [absent, Table.parent?, get?_eq_none le_rfl]
  · intro m mem
    obtain rfl : m = s.table.size := by simpa using mem
    exact holds.grown
  · exact ⟨_, self, le_rfl, passed, le_max_left _ _⟩
  · intro part mem
    obtain rfl : part = (role, s.table.size) := by simpa using mem
    exact .mk isForm known fun part mem => (holds.fits mem).congr fun _ _ => form?_add
  · obtain ⟨tokens, trail⟩ := holds.trail
    refine ⟨tokens, trail.passes, trail.last, fun {m node} new found => ?_⟩
    rcases get?_add_eq_some found with ⟨rfl, rfl⟩ | ⟨old, before, start, stop, _⟩
    · exact trail.ends holds.base passed
    · rw [start, stop]
      exact trail.spans new before

lemma meets_finish (known : role.slots form = some slots) (plain : form.isSpelled = false) :
    Meets (Holds text s0 true slots) (finish s0.here form) fun n => Holds text s0 true
      [(role, n)] :=
  (meets_finish_spelled known).pre fun s holds => ⟨holds, spells_of_plain plain s⟩

/-- Passing the one token of a node that tells its text. -/
lemma meets_pass_word {word : String} (isWord : form.word? = some word) :
    Meets
      (fun s => Holds text s0 false [] s ∧ s.here = s0.here ∧
        s.scanner.token.kind ≠ .endOfFile ∧ word = String.ofList s.scanner.lexeme)
      advance fun _ s => Holds text s0 true [] s ∧ Spells text s0 form s := by
  rintro s ⟨holds, same, more, isLexeme⟩
  obtain ⟨_, _, _, _, stop, _⟩ := advance_ready holds.ready rfl
  refine ⟨meets_pass (P := (· = s)) ?_ s rfl, ?_, fun word' isWord' => ?_⟩
  · rintro _ rfl
    exact ⟨⟨_, holds⟩, more⟩
  · rintro statements rfl
    cases isWord
  · cases isWord.symm.trans isWord'
    rw [stop, isLexeme, String.toList_ofList, holds.ready.scanner.stands.lexeme_eq]
    exact congrArg (text.slice · s.scanner.token.stop) same

/-- A production that makes one tree, with the given role. -/
def Makes (text : Text) (p : Parse NodeId) (role : Role) : Prop :=
  ∀ s0, Meets (Starting text s0) p fun n => Holds text s0 true [(role, n)]

/-- Every step can be looked at as if it were the first one. -/
lemma Meets.rebase {p : Parse α} {moved' : α → Bool} {slots' : α → List (Role × NodeId)}
    (meets : ∀ s0, Meets (Starting text s0) p
      fun a => Holds text s0 (moved' a) (slots' a)) :
    Meets (Holds text s0 moved slots) p
      fun a => Holds text s0 (moved || moved' a) (slots ++ slots' a) := by
  intro s holds
  have inner := meets s s ⟨rfl, holds.ready⟩
  cases ran : p s with
  | ok a s' =>
    rw [ran] at inner
    exact holds.trans inner
  | error halt s' =>
    rw [ran] at inner
    exact inner

lemma Makes.meets {p : Parse NodeId} (makes : Makes text p role) :
    Meets (Holds text s0 moved slots) p fun n => Holds text s0 true (slots ++ [(role, n)]) :=
  (Meets.rebase makes).post fun _ _ holds => holds.relax fun _ => by simp

/-- A part that may be missing. -/
lemma Makes.optional {b : Prop} [Decidable b] {p : Parse NodeId} (makes : Makes text p role)
    {f : Option NodeId → Parse α} {R : α → ParseState → Prop}
    (later : ∀ found,
      Meets (Holds text s0 true (slots ++ found.toList.map (role, ·))) (f found) R) :
    Meets (Holds text s0 true slots)
      (if b then p >>= fun n => pure (some n) >>= f else pure none >>= f) R := by
  refine .ite (fun _ => makes.meets.bind fun n => later (some n)) fun _ => ?_
  have missing := later none
  rw [Option.toList_none, map_nil, append_nil] at missing
  exact missing

/-- From the first step on. -/
lemma Meets.begin {p : Parse α} {Q : α → ParseState → Prop}
    (meets : Meets (Holds text s0 false []) p Q) : Meets (Starting text s0) p Q :=
  meets.pre fun s start => by
    obtain ⟨rfl, ready⟩ := start
    exact .refl ready

/-- From the first step on, which looks where the production starts. -/
lemma Meets.start {p : Nat → Parse α} {Q : α → ParseState → Prop}
    (meets : Meets (Holds text s0 false []) (p s0.here) Q) :
    Meets (Starting text s0) (here >>= p) Q :=
  meets_here.bind fun a => by
    rintro s ⟨⟨rfl, ready⟩, rfl⟩
    exact meets s (.refl ready)

/-- A step that gave something passed a token and led to `I` again, any other to `D`. -/
def Stepped (I D : α → ParseState → Prop) (a : α) (s1 : ParseState) : Option α → ParseState → Prop
  | some a', s => I a' s ∧ s1.here < s.here
  | none, s => D a s

/-- Repeating a step that passes a token whenever it gives something. The tokens run out before the
bound of the loop does. -/
lemma meets_iterate {I D : α → ParseState → Prop} {a : α} {step : α → Parse (Option α)}
    (ready : ∀ a s, I a s → s.Ready text)
    (body : ∀ a s1, I a s1 → Meets (· = s1) (step a) (Stepped I D a s1)) :
    Meets (I a) (iterate a step) D := by
  have within (bound : Nat) : ∀ a s1, I a s1 → text.size < s1.here + bound →
      Meets (· = s1) (iterateWithin step bound a) D := by
    induction bound with
    | zero =>
      intro a s1 holds enough
      have stands := (ready a s1 holds).scanner.stands
      exact absurd enough (Nat.not_lt.mpr (stands.start_le_stop.trans stands.stop_le_size))
    | succ bound ih =>
      intro a s1 holds enough
      refine (body a s1 holds).bind fun next => ?_
      cases next with
      | none => exact .pure fun _ => id
      | some a' =>
        rintro s ⟨holds, further⟩
        exact ih a' s holds (by omega) s rfl
  refine meets_get.bind fun now => ?_
  rintro _ ⟨holds, rfl⟩
  have := (ready a now holds).size
  exact within _ a now holds (by omega) now rfl

/-- What was found grew by what a step gave, which passed a token; any other step led to `D`. -/
def Grew (I D : List α → ParseState → Prop) (found : List α) (s1 : ParseState) :
    Option α → ParseState → Prop
  | some a, s => I (found ++ [a]) s ∧ s1.here < s.here
  | none, s => D found s

/-- Collecting what a step gives. -/
lemma meets_many {step : Parse (Option α)} {I D : List α → ParseState → Prop}
    (ready : ∀ found s, I found s → s.Ready text)
    (body : ∀ found s1, I found s1 → Meets (· = s1) step (Grew I D found s1)) :
    Meets (I []) (many step) D := by
  unfold many
  refine .bind (Q := fun (found : Array α) => D found.toList) (meets_iterate
    (I := fun (found : Array α) => I found.toList) (fun found s => ready found.toList s)
      fun found s1 holds => (body found.toList s1 holds).bind fun next => ?_)
    fun found => .pure fun _ => id
  cases next with
  | some a =>
    refine .pure fun s (grew : I (found.toList ++ [a]) s ∧ s1.here < s.here) => ⟨?_, grew.2⟩
    simpa using grew.1
  | none => exact .pure fun s grew => grew

/-- A step that gave something made trees, any other did nothing. -/
def Made (text : Text) (s1 : ParseState) (made : α → List (Role × NodeId)) :
    Option α → ParseState → Prop
  | some a, s => Holds text s1 true (made a) s
  | none, s => Holds text s1 false [] s

/-- Collecting trees. -/
lemma meets_many_trees {step : Parse (Option α)} (made : α → List (Role × NodeId))
    (body : ∀ s1, Meets (Starting text s1) step (Made text s1 made)) :
    Meets (Holds text s0 moved slots) (many step)
      fun found => Holds text s0 moved (slots ++ found.flatMap made) := by
  have loop : Meets (Holds text s0 moved (slots ++ [].flatMap made)) (many step)
      fun found => Holds text s0 moved (slots ++ found.flatMap made) := by
    refine meets_many (I := fun found => Holds text s0 moved (slots ++ found.flatMap made))
      (fun _ _ holds => holds.ready) fun found s1 holds => ?_
    refine (body s1).imp (fun s same => ⟨same, holds.ready⟩) fun next s inner => ?_
    cases next with
    | some a =>
      have inner : Holds text s1 true (made a) s := inner
      have both : Holds text s0 moved _ s := (holds.trans inner).relax fun some => by simp [some]
      exact ⟨by simpa using both, (inner.passed rfl).trans_le inner.ready.behind⟩
    | none =>
      have inner : Holds text s1 false [] s := inner
      have both := holds.trans inner
      show Holds text s0 moved (slots ++ found.flatMap made) s
      simpa using both
  simpa using loop

/-- The step makes one more tree with the given role, or does nothing. -/
def Collects (text : Text) (step : Parse (Option NodeId)) (role : Role) : Prop :=
  ∀ s1, Meets (Starting text s1) step (Made text s1 fun n => [(role, n)])

lemma Collects.meets {step : Parse (Option NodeId)} (collects : Collects text step role) :
    Meets (Holds text s0 moved slots) (many step)
      fun found => Holds text s0 moved (slots ++ found.map (role, ·)) := by
  refine (meets_many_trees _ collects).post fun found s holds => ?_
  have same : (found.flatMap fun n => [(role, n)]) = found.map (role, ·) :=
    flatMap_pure_eq_map _ found
  rwa [same] at holds

/-- As `meets_finish`, where the first parts were made before `s1`. -/
lemma meets_finish_over {s1 : ParseState} {before after : List (Role × NodeId)}
    (holds : Holds text s0 true before s1) (known : role.slots form = some (before ++ after))
    (plain : form.isSpelled = false) :
    Meets (Holds text s1 true after) (finish s0.here form)
      fun n s => Holds text s0 true [(role, n)] s ∧ s1.here < s.here := by
  intro s inner
  have := meets_finish known plain s (holds.trans inner)
  exact ⟨this, (inner.passed rfl).trans_le inner.ready.behind⟩

end Trees

end Parse

end PatternLowering

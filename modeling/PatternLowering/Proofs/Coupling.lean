import PatternLowering.Grammar.Productions
import PatternLowering.Proofs.Twins

/-!
# Coupled runs

Two productions run side by side on a stretch that two texts share. Where the first one succeeds
before the blank behind the stretch, the second one does the same, unless nesting runs out. Nothing
is said about a first run that fails or gets past the blank.
-/

namespace PatternLowering

open EStateM

namespace Parse

variable {α β : Type}

/-! ### Looking at the state -/

lemma here_bind (f : Nat → Parse α) (s : ParseState) : (here >>= f) s = f s.here s := rfl

lemma kind_bind (f : TokenKind → Parse α) (s : ParseState) :
    (kind >>= f) s = f s.scanner.token.kind s := rfl

lemma form?_bind (n : NodeId) (f : Option Form → Parse α) (s : ParseState) :
    (form? n >>= f) s = f (s.table.form? n) s := rfl

/-! ### Runs -/

/-- How a run goes on that is to lead to `Q`: it may also run out of nesting, if there is a `limit`.
That no loop meets its bound is known from elsewhere. -/
def Follows (limit : Prop) (Q : α → ParseState → Prop) : EStateM.Result Halt ParseState α → Prop
  | .ok a s => Q a s
  | .error .reported s => limit ∧ ∃ start length, s.faults = [⟨start, length, .tooDeep⟩]
  | .error .exhausted _ => True

lemma Follows.bind {limit : Prop} {Q : α → ParseState → Prop} {R : β → ParseState → Prop}
    {p : Parse α} {f : α → Parse β} {s : ParseState} (first : Follows limit Q (p s))
    (next : ∀ a s1, Q a s1 → Follows limit R (f a s1)) : Follows limit R ((p >>= f) s) := by
  cases ran : p s with
  | ok a s1 =>
    rw [ran] at first
    rw [bind_of_ok ran]
    exact next a s1 first
  | error halt s1 =>
    rw [ran] at first
    rw [bind_of_error ran]
    cases halt <;> exact first

lemma Follows.imp {limit : Prop} {Q R : α → ParseState → Prop}
    {r : EStateM.Result Halt ParseState α} (follows : Follows limit Q r)
    (weaker : ∀ a s, Q a s → R a s) : Follows limit R r := by
  match r with
  | .ok a s => exact weaker a s follows
  | .error .reported s => exact follows
  | .error .exhausted s => trivial

/-- Nothing is left that could be nested. -/
lemma follows_tooDeep {limit : Prop} {Q : α → ParseState → Prop} {s : ParseState} (deep : limit)
    (clean : s.faults = []) (known : s.scanner.token.kind ≠ .unknown) :
    Follows limit Q (fail .tooDeep s) := by
  have failed : (fail .tooDeep : Parse α) s =
      failAt s.scanner.token.start s.scanner.token.length .tooDeep s := by
    change (if s.scanner.token.kind = .unknown then throw .reported else _ : Parse α) s = _
    rw [if_neg known]
  rw [failed]
  exact ⟨deep, s.scanner.token.start, s.scanner.token.length, by simp [clean]⟩

lemma fail_fails (cause : SyntaxError) (s : ParseState) :
    ∃ halt s1, (fail cause : Parse α) s = .error halt s1 := by
  change ∃ halt s1, (if s.scanner.token.kind = .unknown then throw .reported
    else failAt s.scanner.token.start s.scanner.token.length cause : Parse α) s = .error halt s1
  split
  · exact ⟨_, _, rfl⟩
  · exact ⟨_, _, rfl⟩

lemma failAtNode_fails (n : NodeId) (cause : SyntaxError) (s : ParseState) :
    ∃ halt s1, (failAtNode n cause : Parse α) s = .error halt s1 := by
  have meets := meets_failAtNode (P := fun _ => True) (Q := fun (_ : α) _ => False) n
    cause s trivial
  cases ran : (failAtNode n cause : Parse α) s with
  | ok a s1 =>
    rw [ran] at meets
    exact meets.elim
  | error halt s1 => exact ⟨halt, s1, rfl⟩

/-- Going on never makes good what was wrong, nor does it lead back before the blank. -/
structure Onward (w : Twin) (s s1 : ParseState) : Prop where
  steady : s1.scanner.Steady
  early : s1.Early w → s.Early w

/-- From states that are related by `P`, a first run that succeeds early is followed by the second
one, with the same result and states related by `Q`. -/
structure Couples (w : Twin) (limit : Prop) (P : ParseState → ParseState → Prop) (p p' : Parse α)
    (Q : α → ParseState → ParseState → Prop) : Prop where
  onward : ∀ {s a s1}, s.scanner.Steady → p s = .ok a s1 → Onward w s s1
  run : ∀ {s s' a s1}, s.scanner.Steady → P s s' → p s = .ok a s1 → s1.Early w →
    Follows limit (fun a' s1' => a' = a ∧ Q a s1 s1') (p' s')

namespace Couples

variable {w : Twin} {limit : Prop} {P P' : ParseState → ParseState → Prop} {p p' q q' : Parse α}
  {Q Q' : α → ParseState → ParseState → Prop} {R : β → ParseState → ParseState → Prop}

lemma pure {a : α} (holds : ∀ s s', P s s' → Q a s s') :
    Couples w limit P (pure a) (pure a) Q where
  onward := by
    rintro s _ _ steady ⟨⟩
    exact ⟨steady, id⟩
  run := by
    rintro s s' _ _ _ related ⟨⟩ _
    exact ⟨rfl, holds s s' related⟩

lemma bind {f f' : α → Parse β} (first : Couples w limit P p p' Q)
    (second : ∀ a, Couples w limit (Q a) (f a) (f' a) R) :
    Couples w limit P (p >>= f) (p' >>= f') R where
  onward steady ran := by
    obtain ⟨a, s1, ran1, ran2⟩ := bind_eq_ok.mp ran
    have one := first.onward steady ran1
    have two := (second a).onward one.steady ran2
    exact ⟨two.steady, fun early => one.early (two.early early)⟩
  run steady related ran early := by
    obtain ⟨a, s1, ran1, ran2⟩ := bind_eq_ok.mp ran
    have one := first.onward steady ran1
    have two := (second a).onward one.steady ran2
    refine (first.run steady related ran1 (two.early early)).bind ?_
    rintro _ s1' ⟨rfl, related1⟩
    exact (second _).run one.steady related1 ran2 early

lemma imp (couples : Couples w limit P p p' Q) (before : ∀ s s', P' s s' → P s s')
    (after : ∀ a s s', Q a s s' → Q' a s s') : Couples w limit P' p p' Q' where
  onward := couples.onward
  run {s s' _ _} steady related ran early :=
    (couples.run steady (before s s' related) ran early).imp
      fun _ _ ⟨same, related⟩ => ⟨same, after _ _ _ related⟩

lemma ite {c : Prop} [Decidable c] (yes : c → Couples w limit P p p' Q)
    (no : ¬ c → Couples w limit P q q' Q) :
    Couples w limit P (if c then p else q) (if c then p' else q') Q := by
  split
  · exact yes ‹_›
  · exact no ‹_›

/-- Where the first run always fails there is nothing to show. -/
lemma fails (failing : ∀ s, ∃ halt s1, p s = .error halt s1) : Couples w limit P p p' Q where
  onward {s _ _} _ ran := by
    obtain ⟨halt, s1, failed⟩ := failing s
    cases failed.symm.trans ran
  run {s _ _ _} _ _ ran := by
    obtain ⟨halt, s1, failed⟩ := failing s
    cases failed.symm.trans ran

/-- Looking at something that is the same on both sides. -/
lemma look {f f' : ParseState → α} {g g' : α → Parse β} (looks : ∀ s, p s = .ok (f s) s)
    (looks' : ∀ s, p' s = .ok (f' s) s) (same : ∀ s s', P s s' → f' s' = f s)
    (next : ∀ a, Couples w limit (fun s s' => P s s' ∧ a = f s) (g a) (g' a) R) :
    Couples w limit P (p >>= g) (p' >>= g') R where
  onward {s _ _} steady ran := by
    rw [bind_of_ok (looks s)] at ran
    exact (next (f s)).onward steady ran
  run {s s' _ _} steady related ran early := by
    rw [bind_of_ok (looks s)] at ran
    rw [bind_of_ok (looks' s'), same s s' related]
    exact (next (f s)).run steady ⟨related, rfl⟩ ran early

end Couples

/-- The rounds of a loop come out the same: both go on, or both are done. -/
def Rounds (I D : α → ParseState → ParseState → Prop) (a : α) :
    Option α → ParseState → ParseState → Prop
  | some a', s, s' => I a' s s'
  | none, s, s' => D a s s'

lemma Couples.iterate {w : Twin} {limit : Prop} {I D : α → ParseState → ParseState → Prop}
    {step step' : α → Parse (Option α)}
    (body : ∀ a, Couples w limit (I a) (step a) (step' a) (Rounds I D a)) (a : α) :
    Couples w limit (I a) (iterate a step) (iterate a step') D := by
  have onward (bound : Nat) : ∀ {a b s s1}, s.scanner.Steady →
      iterateWithin step bound a s = .ok b s1 → Onward w s s1 := by
    induction bound with
    | zero => rintro a b s s1 _ ⟨⟩
    | succ bound ih =>
      intro a b s s1 steady ran
      obtain ⟨next, s2, ran1, ran2⟩ := bind_eq_ok.mp ran
      have one := (body a).onward steady ran1
      cases next with
      | none =>
        cases ran2
        exact one
      | some a' =>
        have two := ih one.steady ran2
        exact ⟨two.steady, fun early => one.early (two.early early)⟩
  have within (bound bound' : Nat) : ∀ {a b s s' s1}, s.scanner.Steady → I a s s' →
      iterateWithin step bound a s = .ok b s1 → s1.Early w →
      Follows limit (fun b' s1' => b' = b ∧ D b s1 s1') (iterateWithin step' bound' a s') := by
    induction bound generalizing bound' with
    | zero => rintro a b s s' s1 _ _ ⟨⟩
    | succ bound ih =>
      intro a b s s' s1 steady related ran early
      cases bound' with
      | zero => trivial
      | succ bound' =>
        obtain ⟨next, s2, ran1, ran2⟩ := bind_eq_ok.mp ran
        have one := (body a).onward steady ran1
        cases next with
        | none =>
          cases ran2
          refine ((body a).run steady related ran1 early).bind ?_
          rintro _ s2' ⟨rfl, done⟩
          exact ⟨rfl, done⟩
        | some a' =>
          have two := onward bound one.steady ran2
          refine ((body a).run steady related ran1 (two.early early)).bind ?_
          rintro _ s2' ⟨rfl, related2⟩
          exact ih bound' one.steady related2 ran2 early
  exact ⟨fun steady ran => onward _ steady ran,
    fun steady related ran early => within _ _ steady related ran early⟩

/-- The rounds of a collecting loop come out the same: both find one more item, or both are done. -/
def Finds (I D : List α → ParseState → ParseState → Prop) (found : List α) :
    Option α → ParseState → ParseState → Prop
  | some a, s, s' => I (found ++ [a]) s s'
  | none, s, s' => D found s s'

/-- Collecting what the rounds give. -/
lemma Couples.many {w : Twin} {limit : Prop} {I D : List α → ParseState → ParseState → Prop}
    {step step' : Parse (Option α)}
    (body : ∀ found, Couples w limit (I found) step step' (Finds I D found)) :
    Couples w limit (I []) (many step) (many step') D := by
  unfold Parse.many
  refine .bind (Q := fun (found : Array α) => D found.toList)
    (.iterate (I := fun (found : Array α) => I found.toList) (fun found => ?_) #[]) fun found =>
      .pure fun s s' done => done
  refine (body found.toList).bind fun next => ?_
  cases next with
  | some a =>
    refine .pure fun s s' related => ?_
    have related : I (found.toList ++ [a]) s s' := related
    simpa [Rounds] using related
  | none => exact .pure fun s s' done => done

section Leaves

variable {w : Twin} {s s1 : ParseState}

lemma accept_cases {k : TokenKind} {found : Bool} (ran : accept k s = .ok found s1) :
    found = true ∧ s.scanner.token.kind = k ∧ advance s = .ok () s1 ∨
      found = false ∧ s.scanner.token.kind ≠ k ∧ s1 = s := by
  by_cases isAt : s.scanner.token.kind = k
  · have passed : accept k s = (do advance; return true) s := by
      change (if s.scanner.token.kind = k then _ else _ : Parse Bool) s = _
      rw [if_pos isAt]
    rw [passed] at ran
    obtain ⟨_, _, passed, rest⟩ := bind_eq_ok.mp ran
    cases rest
    exact .inl ⟨rfl, isAt, passed⟩
  · have stayed : accept k s = .ok false s := by
      change (if s.scanner.token.kind = k then _ else _ : Parse Bool) s = _
      rw [if_neg isAt]
      rfl
    cases stayed.symm.trans ran
    exact .inr ⟨rfl, isAt, rfl⟩

lemma accept_other {k : TokenKind} (other : s.scanner.token.kind ≠ k) :
    accept k s = .ok false s := by
  change (if s.scanner.token.kind = k then _ else _ : Parse Bool) s = _
  rw [if_neg other]
  rfl

lemma onward_advance (ran : advance s = .ok () s1) : Onward w s s1 := by
  cases ran
  refine ⟨s.scanner.steady_scan.takeFaults, fun early => ?_⟩
  obtain ⟨clean, faults⟩ := List.append_eq_nil_iff.mp early.clean
  have reaches : s.scanner.closing.Reaches s.scanner.scan.closing :=
    (Gap.reaches_skip _).trans (Lexeme.reaches_read _)
  refine ⟨clean, ?_, early.before.of_reaches reaches⟩
  simp only [Scanner.takeFaults, Scanner.scan, Scanner.settle, List.append_eq_nil_iff] at faults
  exact faults.1.1

lemma onward_rescanSlash (steady : s.scanner.Steady) (ran : rescanSlash s = .ok () s1) :
    Onward w s s1 := by
  cases ran
  refine ⟨steady.rescanSlash, fun early => ⟨early.clean, ?_, early.before.of_reaches steady⟩⟩
  have faults : s.scanner.rescanSlash.faults = [] := early.scanner
  unfold Scanner.rescanSlash at faults
  split at faults
  · exact (List.append_eq_nil_iff.mp faults).1
  · exact faults

/-- Steps that do not read on. -/
lemma onward_same (steady : s.scanner.Steady) (scanner : s1.scanner = s.scanner)
    (faults : s1.faults = s.faults) : Onward w s s1 := by
  refine ⟨scanner ▸ steady, fun early => ⟨faults ▸ early.clean, ?_, ?_⟩⟩
  · exact scanner ▸ early.scanner
  · exact scanner ▸ early.before

end Leaves

end Parse

/-- What two coupled runs share: the stretch they read, whether nesting may run out, and the tables
from which they started. -/
structure Stage where
  twin : Twin
  limit : Prop
  old : Table
  old' : Table

namespace Stage

open Parse

variable {α β : Type} {c : Stage} {V : Prop}

/-- The states agree, and whatever was made refers only to what was made. -/
structure Like (c : Stage) (s s' : ParseState) : Prop where
  twins : s.Twins c.twin c.old c.old' (fun _ => False) s'
  closed : Table.Closed c.old.size s.table

/-- The node is one of those made by the runs. -/
def Made (c : Stage) (n : NodeId) : Prop := c.old.size ≤ n

/-- The same place on both sides. -/
def Starts (c : Stage) (start start' : Nat) : Prop :=
  start = start' + c.twin.shift ∧ c.twin.base ≤ start'

/-- Where `V` is known, the runs lead from like states to like states, with a result that `W` tells
about. -/
def Pairs (c : Stage) (V : Prop) (p p' : Parse α) (W : α → Prop) : Prop :=
  Couples c.twin c.limit (fun s s' => V ∧ c.Like s s') p p' fun a s s' => W a ∧ c.Like s s'

namespace Pairs

variable {p p' q q' : Parse α} {f f' : α → Parse β} {U W W' : α → Prop} {W2 : β → Prop}

lemma pure {a : α} (holds : V → W a) : c.Pairs V (pure a) (pure a) W :=
  Couples.pure fun _ _ ⟨known, like⟩ => ⟨holds known, like⟩

lemma imp {V' : Prop} (pairs : c.Pairs V p p' W) (before : V' → V) (after : ∀ a, W a → W' a) :
    c.Pairs V' p p' W' :=
  Couples.imp pairs (fun _ _ ⟨known, like⟩ => ⟨before known, like⟩)
    fun a _ _ ⟨holds, like⟩ => ⟨after a holds, like⟩

/-- What is known stays known. -/
lemma keep (pairs : c.Pairs V p p' W) : c.Pairs V p p' fun a => V ∧ W a where
  onward := pairs.onward
  run steady related ran early := by
    refine (pairs.run steady related ran early).imp ?_
    rintro _ _ ⟨same, holds, like⟩
    exact ⟨same, ⟨related.1, holds⟩, like⟩

lemma bind (first : c.Pairs V p p' U) (second : ∀ {a}, c.Pairs (V ∧ U a) (f a) (f' a) W2) :
    c.Pairs V (p >>= f) (p' >>= f') W2 :=
  Couples.bind first.keep fun _ => second

/-- As `bind`, where nothing is to be known about the result. -/
lemma next (first : c.Pairs V p p' U) (second : ∀ {a}, c.Pairs V (f a) (f' a) W2) :
    c.Pairs V (p >>= f) (p' >>= f') W2 :=
  first.bind <| second.imp And.left fun _ holds => holds

variable {b : Prop}

lemma ite [Decidable b] (yes : c.Pairs V p p' W) (no : c.Pairs V q q' W) :
    c.Pairs V (if b then p else q) (if b then p' else q') W :=
  Couples.ite (fun _ => yes) fun _ => no

/-- Two ways to get what the following steps need. -/
lemma join [Decidable b] (yes : c.Pairs V p p' U) (no : c.Pairs V q q' U)
    (second : ∀ {a}, c.Pairs (V ∧ U a) (f a) (f' a) W2) :
    c.Pairs V (if b then p >>= f else q >>= f) (if b then p' >>= f' else q' >>= f') W2 :=
  .ite (yes.bind second) (no.bind second)

/-- A part that may be missing. -/
lemma optional [Decidable b] {f f' : Option α → Parse β} (part : c.Pairs V p p' U)
    (second : ∀ {found}, c.Pairs (V ∧ ∀ a ∈ found, U a) (f found) (f' found) W2) :
    c.Pairs V (if b then p >>= fun a => Pure.pure (some a) >>= f else Pure.pure none >>= f)
      (if b then p' >>= fun a => Pure.pure (some a) >>= f' else Pure.pure none >>= f') W2 :=
  .ite (part.bind <| second.imp (fun known => ⟨known.1, by simp [known.2]⟩) fun _ => id)
    (second.imp (fun known => ⟨known, by simp⟩) fun _ => id)

lemma fails (failing : ∀ s, ∃ halt s1, p s = .error halt s1) : c.Pairs V p p' W :=
  Couples.fails failing

/-- Looking at something that is the same in like states. -/
lemma look {f f' : ParseState → α} {g g' : α → Parse β} (looks : ∀ s, p s = .ok (f s) s)
    (looks' : ∀ s, p' s = .ok (f' s) s) (same : ∀ s s', V → c.Like s s' → f' s' = f s)
    (next : ∀ {a}, c.Pairs V (g a) (g' a) W2) : c.Pairs V (p >>= g) (p' >>= g') W2 :=
  Couples.look looks looks' (fun s s' ⟨known, like⟩ => same s s' known like)
    fun _ => Couples.imp next (fun _ _ related => related.1) fun _ _ _ holds => holds

section Looking

variable {g g' : β → Parse α}

lemma kind {g g' : TokenKind → Parse α} (next : ∀ kind, c.Pairs V (g kind) (g' kind) W) :
    c.Pairs V (Parse.kind >>= g) (Parse.kind >>= g') W :=
  look (fun _ => rfl) (fun _ => rfl) (fun _ _ _ like => like.twins.scanner.kind) (next _)

lemma isAt {k : TokenKind} {g g' : Bool → Parse α}
    (next : ∀ {found}, c.Pairs V (g found) (g' found) W) :
    c.Pairs V (Parse.isAt k >>= g) (Parse.isAt k >>= g') W :=
  look (fun _ => rfl) (fun _ => rfl)
    (fun _ _ _ like => by rw [like.twins.scanner.kind]) next

lemma lexeme {g g' : String → Parse α} (next : ∀ {text}, c.Pairs V (g text) (g' text) W) :
    c.Pairs V (Parse.lexeme >>= g) (Parse.lexeme >>= g') W :=
  look (fun _ => rfl) (fun _ => rfl) (fun _ _ _ like => by rw [like.twins.scanner.lexeme]) next

lemma stringValue {g g' : Option String → Parse α}
    (next : ∀ {value}, c.Pairs V (g value) (g' value) W) :
    c.Pairs V (Parse.stringValue >>= g) (Parse.stringValue >>= g') W :=
  look (fun _ => rfl) (fun _ => rfl)
    (fun _ _ _ like => by rw [Scanner.stringValue, like.twins.scanner.lexeme]; rfl) next

lemma isAtName {word : String} {g g' : Bool → Parse α}
    (next : ∀ {found}, c.Pairs V (g found) (g' found) W) :
    c.Pairs V (Parse.isAtName word >>= g) (Parse.isAtName word >>= g') W :=
  look (fun _ => rfl) (fun _ => rfl)
    (fun _ _ _ like => by rw [like.twins.scanner.kind, like.twins.scanner.lexeme]) next

/-- The place of the current token. -/
lemma here {g g' : Nat → Parse α}
    (next : ∀ {start start'}, c.Pairs (V ∧ c.Starts start start') (g start) (g' start') W) :
    c.Pairs V (Parse.here >>= g) (Parse.here >>= g') W where
  onward steady ran := (@next _ 0).onward steady ran
  run steady related ran early :=
    next.run steady ⟨⟨related.1, related.2.twins.start⟩, related.2⟩ ran early

lemma token {g g' : Token → Parse α}
    (next : ∀ {kind lineBreak start stop start' stop'}, c.Pairs (V ∧ c.Starts start start')
      (g ⟨kind, start, stop, lineBreak⟩) (g' ⟨kind, start', stop', lineBreak⟩) W) :
    c.Pairs V (Parse.token >>= g) (Parse.token >>= g') W where
  onward {s _ _} steady ran :=
    (@next s.scanner.token.kind s.scanner.token.lineBreak s.here s.scanner.token.stop 0 0).onward
      steady ran
  run {s s' _ _} steady related ran early := by
    have paired := @next s.scanner.token.kind s.scanner.token.lineBreak s.here s.scanner.token.stop
      s'.here s'.scanner.token.stop
    have token :
        (⟨s.scanner.token.kind, s'.here, s'.scanner.token.stop, s.scanner.token.lineBreak⟩ :
          Token) = s'.scanner.token := by
      rw [← related.2.twins.scanner.kind, ← related.2.twins.scanner.lineBreak]
      rfl
    have follows := paired.run steady ⟨⟨related.1, related.2.twins.start⟩, related.2⟩ ran early
    rw [token] at follows
    exact follows

end Looking

end Pairs

/-- What is read in like states about a node that was made is the same. -/
lemma Like.at {s s' : ParseState} (like : c.Like s s') {n : NodeId} (made : c.Made n)
    {start stop : Nat} {form : Form} (at_ : s.table.At n start stop form) :
    ∃ start' stop', s'.table.At n start' stop' form := by
  obtain ⟨start', stop', form', at', _, _, same | ⟨impossible, _⟩⟩ :=
    like.twins.table.nodes made at_
  · subst same
    exact ⟨start', stop', at'⟩
  · exact impossible.elim

lemma Like.form? {s s' : ParseState} (like : c.Like s s') {n : NodeId} (made : c.Made n) :
    s'.table.form? n = s.table.form? n := by
  rcases Nat.lt_or_ge n s.table.size with known | beyond
  · obtain ⟨start, stop, form, at_⟩ := Table.exists_at known
    obtain ⟨_, _, at'⟩ := like.at made at_
    rw [at_.form?, at'.form?]
  · have beyond' : s'.table.size ≤ n := like.twins.table.size ▸ beyond
    rw [Table.form?, Table.form?, Table.get?_eq_none beyond, Table.get?_eq_none beyond']

/-- The parts of a node that was made. -/
lemma Like.parts {s s' : ParseState} (like : c.Like s s') {n : NodeId} (made : c.Made n)
    {form : Form} (found : s.table.form? n = some form) : ∀ part ∈ form.children, c.Made part := by
  obtain ⟨_, _, at_⟩ := Table.exists_at_of_form? found
  exact like.closed made at_

lemma Like.isSimpleTarget {s s' : ParseState} (like : c.Like s s') {n : NodeId} (made : c.Made n) :
    s'.table.isSimpleTarget n = s.table.isSimpleTarget n := by
  have within (bound : Nat) : ∀ n, c.Made n →
      s'.table.isSimpleTargetWithin bound n = s.table.isSimpleTargetWithin bound n := by
    induction bound with
    | zero => exact fun _ _ => rfl
    | succ bound ih =>
      intro n made
      rw [Table.isSimpleTargetWithin, Table.isSimpleTargetWithin, like.form? made]
      split <;> try rfl
      rename_i inside found
      exact ih inside (like.parts made found inside (by simp [Form.children]))
  rw [Table.isSimpleTarget, Table.isSimpleTarget, like.twins.table.size]
  exact within _ n made

namespace Pairs

variable {p p' q q' : Parse α} {W : α → Prop}

/-- What a node is. -/
lemma form? {n : NodeId} {g g' : Option Form → Parse α} (made : V → c.Made n)
    (next : ∀ form, c.Pairs (V ∧ ∀ f ∈ form, ∀ part ∈ f.children, c.Made part) (g form) (g' form) W)
    : c.Pairs V (Parse.form? n >>= g) (Parse.form? n >>= g') W := by
  have looks (s : ParseState) : Parse.form? n s = .ok (s.table.form? n) s := rfl
  refine Couples.look looks looks (fun _ _ ⟨known, like⟩ => like.form? (made known)) fun form => ?_
  refine Couples.imp (next form) (fun _ _ ⟨⟨known, like⟩, same⟩ => ?_) fun _ _ _ holds => holds
  exact ⟨⟨known, fun _ isForm => like.parts (made known) (same ▸ isForm)⟩, like⟩

lemma name? {n : NodeId} {g g' : Option String → Parse α} (made : V → c.Made n)
    (next : ∀ {name}, c.Pairs V (g name) (g' name) W) :
    c.Pairs V (Parse.name? n >>= g) (Parse.name? n >>= g') W :=
  look (fun _ => rfl) (fun _ => rfl)
    (fun _ _ known like => by rw [Table.name?, Table.name?, like.form? (made known)]) next

/-- Nothing is done with the state. -/
lemma ignore (pairs : c.Pairs V p p' W) :
    c.Pairs V (get >>= fun _ => p) (get >>= fun _ => p') W :=
  ⟨pairs.onward, pairs.run⟩

/-- Whether a node may be assigned to. -/
lemma simple {n : NodeId} (made : V → c.Made n) (yes : c.Pairs V p p' W) (no : c.Pairs V q q' W) :
    c.Pairs V (get >>= fun s => if s.table.isSimpleTarget n then p else q)
      (get >>= fun s => if s.table.isSimpleTarget n then p' else q') W where
  onward {s _ _} steady ran := by
    have ran : (if s.table.isSimpleTarget n then p else q) s = .ok _ _ := ran
    split at ran
    · exact yes.onward steady ran
    · exact no.onward steady ran
  run {s s' _ _} steady related ran early := by
    have ran : (if s.table.isSimpleTarget n then p else q) s = .ok _ _ := ran
    change Follows _ _ ((if s'.table.isSimpleTarget n then p' else q') s')
    rw [related.2.isSimpleTarget (made related.1)]
    split at ran
    · rw [if_pos ‹_›]
      exact yes.run steady related ran early
    · rw [if_neg ‹_›]
      exact no.run steady related ran early

section Steps

lemma advance : c.Pairs V Parse.advance Parse.advance fun _ => True where
  onward _ ran := onward_advance ran
  run {s s' _ s1} _ related ran early := by
    obtain ⟨s1', ran', twins, same, _⟩ := related.2.twins.advance ran early
    rw [ran']
    refine ⟨rfl, trivial, twins, ?_⟩
    rw [same]
    exact related.2.closed

/-- The token behind the current one, where a run passes this one first. -/
lemma early_of_pass {rest : Unit → Parse α} (pairs : c.Pairs V (rest ()) p' W) {s s1 : ParseState}
    {a : α} (ran : (Parse.advance >>= rest) s = .ok a s1) (early : s1.Early c.twin) :
    ∃ s2, Parse.advance s = .ok () s2 ∧ s2.Early c.twin := by
  obtain ⟨_, s2, passed, ran⟩ := bind_eq_ok.mp ran
  have first : Onward c.twin s s2 := onward_advance passed
  exact ⟨s2, passed, (pairs.onward first.steady ran).early early⟩

lemma rescanSlash : c.Pairs V Parse.rescanSlash Parse.rescanSlash fun _ => True where
  onward steady ran := onward_rescanSlash steady ran
  run {s s' _ s1} _ related ran early := by
    cases ran
    exact ⟨rfl, trivial, related.2.twins.rescanSlash early, related.2.closed⟩

variable {cause : SyntaxError} {n : NodeId}

lemma fail : c.Pairs V (Parse.fail cause) p' W :=
  .fails (fail_fails cause)

lemma failAtNode : c.Pairs V (Parse.failAtNode n cause) p' W :=
  .fails (failAtNode_fails n cause)

/-- The second run may be out of nesting. -/
lemma tooDeep (pairs : c.Pairs V p p' W) (deep : c.limit) :
    c.Pairs V p (Parse.fail .tooDeep) W where
  onward := pairs.onward
  run {s s' _ _} _ related _ _ := by
    have twins := related.2.twins
    exact follows_tooDeep deep twins.clean' (twins.scanner.kind ▸ twins.scanner.known)

/-- Nothing comes after a step that always fails. -/
lemma fails_bind {r : Parse β} {f : β → Parse α} (failing : ∀ s, ∃ halt s1, r s = .error halt s1) :
    c.Pairs V (r >>= f) p' W := by
  refine .fails fun s => ?_
  obtain ⟨halt, s1, failed⟩ := failing s
  exact ⟨halt, s1, bind_of_error failed⟩

lemma stop {f : β → Parse α} : c.Pairs V (Parse.fail cause >>= f) p' W :=
  fails_bind (fail_fails cause)

lemma stopAtNode {f : β → Parse α} : c.Pairs V (Parse.failAtNode n cause >>= f) p' W :=
  fails_bind (failAtNode_fails n cause)

lemma accept {k : TokenKind} : c.Pairs V (Parse.accept k) (Parse.accept k) fun _ => True := by
  refine .kind fun kind => .ite ?_ (.pure fun _ => trivial)
  exact advance.next <| .pure fun _ => trivial

lemma expect {k : TokenKind} : c.Pairs V (Parse.expect k) (Parse.expect k) fun _ => True :=
  accept.next <| .ite (.pure fun _ => trivial) fail

lemma endStatement : c.Pairs V Parse.endStatement Parse.endStatement fun _ => True := by
  refine accept.next <| .ite (.pure fun _ => trivial) ?_
  exact .token <| .ite (.pure fun _ => trivial) fail

lemma separator {close : Punctuator} :
    c.Pairs V (Parse.separator close) (Parse.separator close) fun _ => True :=
  .isAt <| .ite (.pure fun _ => trivial) expect

lemma finish {start start' : Nat} {form : Form} (starts : V → c.Starts start start')
    (parts : V → ∀ part ∈ form.children, c.Made part) :
    c.Pairs V (Parse.finish start form) (Parse.finish start' form) c.Made where
  onward {s _ s1} steady ran := by
    cases ran
    exact onward_same steady rfl rfl
  run {s s' _ s1} _ related ran early := by
    cases ran
    obtain ⟨known, like⟩ := related
    obtain ⟨moved, inside⟩ := starts known
    refine ⟨like.twins.table.size, like.twins.table.grown,
      like.twins.finish moved inside (.inl rfl), ?_⟩
    intro m _ _ _ new at_
    rcases Table.at_add _ _ _ at_ with ⟨_, _, _, rfl⟩ | before
    · exact parts known
    · exact like.closed new before

lemma reinterpret {form : Form} (made : V → c.Made n)
    (parts : V → ∀ part ∈ form.children, c.Made part) :
    c.Pairs V (Parse.reinterpret n form) (Parse.reinterpret n form) fun _ => True where
  onward {s _ s1} steady ran := by
    cases ran
    exact onward_same steady rfl rfl
  run {s s' _ s1} _ related ran early := by
    cases ran
    obtain ⟨known, like⟩ := related
    refine ⟨rfl, trivial, { like.twins with table := ?_ }, ?_⟩
    · exact like.twins.table.reinterpret (made known)
    · intro m _ _ _ new at_
      rcases Table.at_reinterpret.mp at_ with ⟨_, rfl, _⟩ | ⟨_, before⟩
      · exact parts known
      · exact like.closed new before

lemma iterate {a : α} {step step' : α → Parse (Option α)} (first : V → W a)
    (body : ∀ a, c.Pairs (V ∧ W a) (step a) (step' a) fun next => ∀ b ∈ next, W b) :
    c.Pairs V (Parse.iterate a step) (Parse.iterate a step') W := by
  have round (a : α) :
      Couples c.twin c.limit (fun s s' => (V ∧ W a) ∧ c.Like s s') (step a) (step' a)
        (Rounds (fun a s s' => (V ∧ W a) ∧ c.Like s s') (fun a s s' => W a ∧ c.Like s s') a) := by
    refine Couples.imp (body a).keep (fun _ _ related => related) fun next s s' holds => ?_
    obtain ⟨⟨⟨known, holds⟩, made⟩, like⟩ := holds
    cases next with
    | none => exact ⟨holds, like⟩
    | some b => exact ⟨⟨known, made b rfl⟩, like⟩
  exact Couples.imp (.iterate round a) (fun _ _ ⟨known, like⟩ => ⟨⟨known, first known⟩, like⟩)
    fun _ _ _ holds => holds

lemma many {step step' : Parse (Option α)}
    (body : c.Pairs V step step' fun next => ∀ a ∈ next, W a) :
    c.Pairs V (Parse.many step) (Parse.many step') fun found => ∀ a ∈ found, W a := by
  have round (found : List α) : Couples c.twin c.limit
      (fun s s' => (V ∧ ∀ a ∈ found, W a) ∧ c.Like s s') step step'
      (Finds (fun found s s' => (V ∧ ∀ a ∈ found, W a) ∧ c.Like s s')
        (fun found s s' => (∀ a ∈ found, W a) ∧ c.Like s s') found) := by
    have kept : c.Pairs (V ∧ ∀ a ∈ found, W a) step step' fun next =>
        (V ∧ ∀ a ∈ found, W a) ∧ ∀ a ∈ next, W a := (body.imp And.left fun _ holds => holds).keep
    refine Couples.imp kept (fun _ _ related => related) fun next s s' holds => ?_
    obtain ⟨⟨⟨known, holds⟩, made⟩, like⟩ := holds
    cases next with
    | none => exact ⟨holds, like⟩
    | some a =>
      refine ⟨⟨known, fun b mem => ?_⟩, like⟩
      rcases List.mem_append.mp mem with mem | mem
      · exact holds b mem
      · exact List.mem_singleton.mp mem ▸ made a rfl
  exact Couples.imp (.many round) (fun _ _ ⟨known, like⟩ => ⟨⟨known, by simp⟩, like⟩)
    fun _ _ _ holds => holds

end Steps

end Pairs

end Stage

end PatternLowering

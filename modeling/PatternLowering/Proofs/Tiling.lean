import PatternLowering.Proofs.Consumption

/-!
# Tokens and gaps tile the text

Whatever a scanner is asked to do, it stands on a piece of its text that begins and ends between two
characters. Scanning from the start, the tokens and what separates them make up the text from its
first byte to its last, and the end of the file comes after at most one token for each byte.
-/

namespace PatternLowering

/-- The text `taken` may stand between two tokens, or after the last one, with `rest` behind it. A
comment ends at the first place where it can; one that does not end takes the rest of the text. -/
inductive Separates : (taken rest : Text) → Prop where
  | nothing (rest : Text) : Separates [] rest
  | blank {c : Char} {taken rest : Text} (isBlank : isLineTerminator c ∨ isSpacing c)
      (later : Separates taken rest) : Separates (c :: taken) rest
  | lineComment {body taken rest : Text} {e : Char} (inLine : ∀ c ∈ body, ¬ isLineEnd c)
      (ends : isLineEnd e) (later : Separates taken rest) :
      Separates ('/' :: '/' :: (body ++ e :: taken)) rest
  | lastLine {body : Text} (inLine : ∀ c ∈ body, ¬ isLineEnd c) : Separates ('/' :: '/' :: body) []
  | blockComment {body taken rest : Text} (first : ¬ ['*', '/'] <:+: body ++ ['*'])
      (later : Separates taken rest) : Separates ('/' :: '*' :: (body ++ '*' :: '/' :: taken)) rest
  | openComment {body : Text} (unclosed : ¬ ['*', '/'] <:+: body) :
      Separates ('/' :: '*' :: body) []

namespace Gap

/-- What is left of a gap in the middle of which one is. -/
def Inside.Separates : Inside → (taken rest : Text) → Prop
  | spaces, taken, rest => PatternLowering.Separates taken rest
  | lineComment, taken, rest => (∀ c ∈ taken, ¬ isLineEnd c) ∧ rest = [] ∨
      ∃ body e later, taken = body ++ e :: later ∧ (∀ c ∈ body, ¬ isLineEnd c) ∧ isLineEnd e ∧
        PatternLowering.Separates later rest
  | blockComment _ _, taken, rest => ¬ ['*', '/'] <:+: taken ∧ rest = [] ∨
      ∃ body later, taken = body ++ '*' :: '/' :: later ∧ ¬ ['*', '/'] <:+: body ++ ['*'] ∧
        PatternLowering.Separates later rest

/-- One more character that does not close the comment. -/
lemma not_closed_cons {c : Char} {body : Text} (open_ : ¬ ['*', '/'] <:+: body)
    (goesOn : ∀ later, c = '*' → body = '/' :: later → False) : ¬ ['*', '/'] <:+: c :: body := by
  rw [List.infix_cons_iff]
  rintro (starts | inside)
  · obtain ⟨later, same⟩ := starts
    simp only [List.cons_append, List.nil_append, List.cons.injEq] at same
    exact goesOn later same.1.symm same.2.symm
  · exact open_ inside

lemma skipFrom_separates (inside : Inside) (seen : Bool) (offset : Nat) (text : Text) :
    ∃ taken, text = taken ++ (skipFrom inside seen offset text).stop.rest ∧
      inside.Separates taken (skipFrom inside seen offset text).stop.rest := by
  fun_induction skipFrom inside seen offset text with
  | case1 inside seen offset =>
    refine ⟨[], rfl, ?_⟩
    cases inside with
    | spaces => exact .nothing []
    | lineComment => exact .inl ⟨by simp, rfl⟩
    | blockComment start breaks => exact .inl ⟨by simp, rfl⟩
  | case2 seen offset rest ih =>
    obtain ⟨taken, cut, ⟨inLine, last⟩ | ⟨body, e, later, rfl, inLine, ends, separates⟩⟩ := ih
    · exact ⟨'/' :: '/' :: taken, by simp [← cut], last ▸ .lastLine inLine⟩
    · exact ⟨_, congrArg ('/' :: '/' :: ·) cut, .lineComment inLine ends separates⟩
  | case3 seen offset rest ih =>
    obtain ⟨taken, cut, ⟨unclosed, last⟩ | ⟨body, later, rfl, first, separates⟩⟩ := ih
    · exact ⟨'/' :: '*' :: taken, by simp [← cut], last ▸ .openComment unclosed⟩
    · exact ⟨_, congrArg ('/' :: '*' :: ·) cut, .blockComment first separates⟩
  | case4 seen offset c rest _ _ ends ih =>
    obtain ⟨taken, cut, separates⟩ := ih
    exact ⟨c :: taken, congrArg (c :: ·) cut, .blank (.inl ends) separates⟩
  | case5 seen offset c rest _ _ _ isBlank ih =>
    obtain ⟨taken, cut, separates⟩ := ih
    exact ⟨c :: taken, congrArg (c :: ·) cut, .blank (.inr isBlank) separates⟩
  | case6 seen offset c rest => exact ⟨[], rfl, .nothing _⟩
  | case7 seen offset c rest ends ih =>
    obtain ⟨taken, cut, separates⟩ := ih
    exact ⟨c :: taken, congrArg (c :: ·) cut, .inr ⟨[], c, taken, rfl, by simp, ends, separates⟩⟩
  | case8 seen offset c rest goesOn ih =>
    obtain ⟨taken, cut, ⟨inLine, last⟩ | ⟨body, e, later, rfl, inLine, ends, separates⟩⟩ := ih
    · exact ⟨c :: taken, congrArg (c :: ·) cut,
        .inl ⟨List.forall_mem_cons.mpr ⟨goesOn, inLine⟩, last⟩⟩
    · exact ⟨_, congrArg (c :: ·) cut, .inr ⟨c :: body, e, later, rfl,
        List.forall_mem_cons.mpr ⟨goesOn, inLine⟩, ends, separates⟩⟩
  | case9 start breaks seen offset rest ih =>
    obtain ⟨taken, cut, separates⟩ := ih
    refine ⟨_, congrArg ('*' :: '/' :: ·) cut, .inr ⟨[], taken, rfl, ?_, separates⟩⟩
    decide
  | case10 start breaks seen offset c rest goesOn ih =>
    obtain ⟨taken, cut, ⟨unclosed, last⟩ | ⟨body, later, rfl, first, separates⟩⟩ := ih
    · refine ⟨c :: taken, congrArg (c :: ·) cut, .inl ⟨not_closed_cons unclosed ?_, last⟩⟩
      rintro later star rfl
      exact goesOn _ star cut
    · refine ⟨_, congrArg (c :: ·) cut, .inr ⟨c :: body, later, rfl,
        not_closed_cons first ?_, separates⟩⟩
      intro later' star same
      cases body with
      | nil => simp at same
      | cons x body =>
        obtain ⟨rfl, _⟩ := List.cons.inj same
        exact goesOn _ star cut

/-- What is skipped separates tokens. -/
lemma skip_separates (c : Cursor) :
    c.Reaches (skip c).stop ∧ Separates (c.textUpTo (skip c).stop) (skip c).stop.rest := by
  obtain ⟨taken, cut, separates⟩ := skipFrom_separates .spaces false c.offset c.rest
  have reaches := reaches_skip c
  obtain ⟨taken', cut', offset⟩ := id reaches
  obtain rfl : taken = taken' := List.append_cancel_right (cut.symm.trans cut')
  have text : c.textUpTo (skip c).stop = taken := by
    rw [Cursor.textUpTo, offset, Nat.add_sub_cancel_left, cut', Text.take?_append]
    rfl
  exact ⟨reaches, text ▸ separates⟩

end Gap

namespace Scanner

variable {text : Text} {s earlier : Scanner}

/-! ### One scanner -/

/-- The range of the current token can be cut out of the text, and that gives the token's text. -/
structure Cuts (text : Text) (s : Scanner) : Prop where
  start_le_stop : s.token.start ≤ s.token.stop
  stop_le_size : s.token.stop ≤ text.size
  start_isBoundary : text.isBoundary s.token.start
  stop_isBoundary : text.isBoundary s.token.stop
  slice_eq : text.slice? s.token.start s.token.stop = some s.lexeme

/-- The current token lies between the two places that the scanner keeps. It may be empty. -/
structure Placed (text : Text) (s : Scanner) : Prop where
  opening : s.opening.In text
  closing : s.opening.Reaches s.closing
  start : s.token.start = s.opening.offset
  stop : s.token.stop = s.closing.offset

lemma Stands.placed (stands : s.Stands text) : s.Placed text :=
  ⟨stands.opening, stands.closing, stands.start, stands.stop⟩

lemma placed_ofText (text : Text) : (ofText text).Placed text :=
  ⟨Cursor.in_atStart text, .refl _, rfl, rfl⟩

namespace Placed

lemma scan (placed : s.Placed text) : s.scan.Placed text :=
  (stands_scan (placed.opening.of_reaches placed.closing)).1.placed

lemma rescanSlash (placed : s.Placed text) : s.rescanSlash.Placed text := by
  unfold Scanner.rescanSlash
  split
  · exact ⟨placed.opening, Lexeme.reaches_regex _, rfl, rfl⟩
  · exact placed

lemma restore (placed : earlier.Placed text) : (s.restore earlier).Placed text :=
  ⟨placed.opening, placed.closing, placed.start, placed.stop⟩

lemma cuts (placed : s.Placed text) : s.Cuts text := by
  have closing : s.closing.In text := placed.opening.of_reaches placed.closing
  have whole := closing.offset_add
  have cut := Cursor.slice?_of_reaches placed.opening placed.closing
  constructor
  · exact placed.start ▸ placed.stop ▸ placed.closing.le
  · rw [placed.stop]
    omega
  · exact placed.start ▸ placed.opening.isBoundary
  · exact placed.stop ▸ closing.isBoundary
  · rw [placed.start, placed.stop]
    exact cut

end Placed

/-- What can be done with a scanner. A state that was saved is told by its number. -/
inductive Step where
  | scan
  | rescanSlash
  | save
  | restore (index : Nat)

/-- A scanner and the states of it that were saved. -/
structure Session where
  current : Scanner
  saved : List Scanner

namespace Session

def step (session : Session) : Step → Session
  | .scan => { session with current := session.current.scan }
  | .rescanSlash => { session with current := session.current.rescanSlash }
  | .save => { session with saved := session.saved ++ [session.current] }
  | .restore index =>
    { session with current := (session.saved[index]?).elim session.current session.current.restore }

/-- A new scanner after some steps. -/
def after (text : Text) (steps : List Step) : Session := steps.foldl step ⟨.ofText text, []⟩

/-- Every state, the saved ones included, is on a piece of the text. -/
def Placed (text : Text) (session : Session) : Prop :=
  session.current.Placed text ∧ ∀ s ∈ session.saved, s.Placed text

lemma Placed.step {session : Session} (placed : session.Placed text) (step : Step) :
    (session.step step).Placed text := by
  obtain ⟨current, saved⟩ := placed
  cases step with
  | scan => exact ⟨current.scan, saved⟩
  | rescanSlash => exact ⟨current.rescanSlash, saved⟩
  | save =>
    refine ⟨current, fun s mem => ?_⟩
    rcases List.mem_append.mp mem with before | last
    · exact saved s before
    · exact List.mem_singleton.mp last ▸ current
  | restore index =>
    refine ⟨?_, saved⟩
    cases found : session.saved[index]? with
    | none => simpa [Session.step, found] using current
    | some earlier =>
      simpa [Session.step, found] using (saved earlier (List.mem_of_getElem? found)).restore

lemma placed_after (text : Text) (steps : List Step) : (after text steps).Placed text := by
  have start : Placed text ⟨.ofText text, []⟩ := ⟨placed_ofText text, by simp⟩
  unfold after
  generalize (⟨.ofText text, []⟩ : Session) = session at start
  induction steps generalizing session with
  | nil => exact start
  | cons step steps ih => exact ih _ (start.step step)

end Session

/-! ### A run from the start -/

/-- The scanner after `count` tokens were scanned. -/
def scanned (text : Text) (count : Nat) : Scanner := scan^[count] (ofText text)

lemma scanned_succ (text : Text) (count : Nat) :
    scanned text (count + 1) = (scanned text count).scan :=
  Function.iterate_succ_apply' scan count (ofText text)

lemma scanned_run (text : Text) (count : Nat) : (scanned text (count + 1)).Run text := by
  induction count with
  | zero => exact .first
  | succ count ih =>
    rw [scanned_succ]
    exact .scan ih

lemma placed_scanned (text : Text) (count : Nat) : (scanned text count).Placed text := by
  cases count with
  | zero => exact placed_ofText text
  | succ count => exact (scanned_run text count).stands.placed

/-- The end of the file is an empty token at the end of the text. -/
lemma Run.token_of_endOfFile (run : s.Run text) (isEnd : s.token.kind = .endOfFile) :
    s.token = ⟨.endOfFile, text.size, text.size, s.token.lineBreak⟩ := by
  have start := run.start_of_endOfFile isEnd
  have stop : s.token.stop = text.size :=
    le_antisymm run.stands.stop_le_size (start ▸ run.stands.start_le_stop)
  cases token : s.token with
  | mk kind first last lineBreak => simp_all

lemma Run.scan_of_endOfFile (run : s.Run text) (isEnd : s.token.kind = .endOfFile) :
    s.scan.token.kind = .endOfFile := by
  have stop : s.token.stop = text.size := congrArg Token.stop (run.token_of_endOfFile isEnd)
  have whole := run.stands.closing_in.offset_add
  rw [← run.stands.stop, stop] at whole
  have nothing : s.closing.rest = [] := Text.size_eq_zero.mp (by omega)
  refine Lexeme.read_kind_eq_endOfFile ?_
  rw [Gap.skip, nothing]
  rfl

/-- Each token but the last takes a byte at least. -/
lemma scanned_progress (text : Text) (count : Nat) :
    (scanned text (count + 1)).token.kind = .endOfFile ∨
      count < (scanned text (count + 1)).token.stop := by
  induction count with
  | zero =>
    by_cases isEnd : (scanned text 1).token.kind = .endOfFile
    · exact .inl isEnd
    · exact .inr (Nat.zero_lt_of_lt ((scanned_run text 0).stands.width isEnd))
  | succ count ih =>
    have run := scanned_run text count
    rw [scanned_succ text (count + 1)]
    rcases ih with isEnd | further
    · exact .inl (run.scan_of_endOfFile isEnd)
    · by_cases isEnd : (scanned text (count + 1)).scan.token.kind = .endOfFile
      · exact .inl isEnd
      · obtain ⟨stands, behind⟩ := stands_scan run.stands.closing_in
        have wide := stands.width isEnd
        rw [← run.stands.stop] at behind
        exact .inr (by omega)

lemma scanned_endOfFile {count : Nat} (enough : text.size < count) :
    (scanned text count).token.kind = .endOfFile := by
  obtain ⟨count, rfl⟩ := Nat.exists_eq_add_one_of_ne_zero (Nat.ne_zero_of_lt enough)
  refine (scanned_progress text count).resolve_right fun further => ?_
  have := (scanned_run text count).stands.stop_le_size
  omega

/-- The token of `next` comes after that of `s`, with a gap between the two. -/
structure Continues (text : Text) (s next : Scanner) : Prop where
  stop_le_start : s.token.stop ≤ next.token.start
  nonempty : next.token.kind ≠ .endOfFile → next.token.start < next.token.stop
  separated : ∃ gap rest, text.slice? s.token.stop next.token.start = some gap ∧
    text.drop? next.token.start = some rest ∧ Separates gap rest

lemma Placed.continues (placed : s.Placed text) : s.Continues text s.scan := by
  have closing : s.closing.In text := placed.opening.of_reaches placed.closing
  obtain ⟨stands, behind⟩ := stands_scan closing
  obtain ⟨reaches, separates⟩ := Gap.skip_separates s.closing
  have cut := Cursor.slice?_of_reaches closing reaches
  constructor
  · exact placed.stop ▸ behind
  · exact stands.width
  · refine ⟨_, (Gap.skip s.closing).stop.rest, ?_, ?_, separates⟩
    · rw [placed.stop]
      exact cut
    · exact closing.of_reaches reaches

end Scanner

/-- The scanner tiles every text. Whatever steps are taken with one scanner, its token is a piece of
the text that can be cut out. In a run from the start each token follows the one before with nothing
but a gap between, only the end of the file is empty, and it is reached for good with one more scan
than the text has bytes. -/
theorem scanner_tiles_text (text : Text) :
    (∀ steps, (Scanner.Session.after text steps).current.Cuts text) ∧
      (∀ count, (Scanner.scanned text count).Continues text (Scanner.scanned text (count + 1))) ∧
      ∀ more, ∃ lineBreak, (Scanner.scanned text (text.size + 1 + more)).token =
        ⟨.endOfFile, text.size, text.size, lineBreak⟩ := by
  refine ⟨fun steps => ?_, fun count => ?_, fun more => ?_⟩
  · exact (Scanner.Session.placed_after text steps).1.cuts
  · rw [Scanner.scanned_succ]
    exact (Scanner.placed_scanned text count).continues
  · rw [Nat.add_right_comm]
    have isEnd : (Scanner.scanned text (text.size + more + 1)).token.kind = .endOfFile :=
      Scanner.scanned_endOfFile (by omega)
    exact ⟨_, (Scanner.scanned_run text (text.size + more)).token_of_endOfFile isEnd⟩

end PatternLowering

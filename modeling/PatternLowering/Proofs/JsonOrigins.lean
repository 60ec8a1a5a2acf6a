import Mathlib.Data.List.Basic
import PatternLowering.Json.Relaxed
import PatternLowering.Proofs.Scanning

/-!
# Where strict JSON comes from

The pass that makes JSON strict is a row of moves: each passes over a character, copies one, or adds
one of its own. Seen so, it writes to a draft and remembers at which byte a comma was written that
may have to go again. At every moment the draft has the line feeds of what was read, each copied
character stands behind as many of them as in the source, and the remembered byte is a comma.
-/

namespace PatternLowering.Json

open List

/-! ### Moves -/

/-- One thing that the pass does. -/
inductive Move where
  | skip (c : Char)
  | blank (c : Char)
  | copy (c : Char)
  | add (c : Char)
  | comma
  | close (c : Char)
deriving DecidableEq, Repr

/-- What a move takes from the source. -/
def Move.reads : Move → Text
  | skip c => [c]
  | blank c => [c]
  | copy c => [c]
  | add _ => []
  | comma => [',']
  | close c => [c]

/-- Only line feeds must not be passed over, and only quotation marks and backslashes are added. -/
def Move.Allowed : Move → Prop
  | skip c => c ≠ '\n'
  | add c => c = '"' ∨ c = '\\'
  | _ => True

/-- A double quotation mark is copied, a single one is replaced. -/
def markMoves (c : Char) : List Move := if c = '"' then [.copy c] else [.skip c, .add '"']

/-- The moves of the pass over what is left of a text. -/
def moves : Mode → Text → List Move
  | .plain, [] => []
  | .plain, '/' :: '/' :: rest => .skip '/' :: .skip '/' :: moves .lineComment rest
  | .plain, '/' :: '*' :: rest => .skip '/' :: .skip '*' :: moves (.blockComment false) rest
  | .plain, c :: rest =>
    if c = '"' ∨ c = '\'' then markMoves c ++ moves (.quoted c) rest
    else if c = ',' then .comma :: moves .plain rest
    else if c = '}' ∨ c = ']' then .close c :: moves .plain rest
    else if Letters.isBlank c then .blank c :: moves .plain rest
    else .copy c :: moves .plain rest
  | .lineComment, [] => []
  | .lineComment, c :: rest =>
    if c = '\n' then .blank c :: moves .plain rest else .skip c :: moves .lineComment rest
  | .blockComment _, [] => []
  | .blockComment star, c :: rest =>
    if star ∧ c = '/' then .skip c :: moves .plain rest
    else if c = '\n' then .blank c :: moves (.blockComment false) rest
    else .skip c :: moves (.blockComment (c = '*')) rest
  | .quoted _, [] => [.add '"']
  | .quoted _, ['\\'] => [.copy '\\', .add '"']
  | .quoted mark, '\\' :: c :: rest =>
    if c = '\'' then .skip '\\' :: .copy c :: moves (.quoted mark) rest
    else .copy '\\' :: .copy c :: moves (.quoted mark) rest
  | .quoted mark, c :: rest =>
    if c = mark then markMoves c ++ moves .plain rest
    else if c = '"' then .add '\\' :: .copy c :: moves (.quoted mark) rest
    else .copy c :: moves (.quoted mark) rest

/-- What the moves write behind a comma that may be pending. -/
def settle : Pending → List Move → Text
  | p, [] => p.keep
  | p, .skip _ :: later => settle p later
  | p, .blank c :: later => (p.blank c).1 ++ settle (p.blank c).2 later
  | p, .copy c :: later => p.keep ++ c :: settle none later
  | p, .add c :: later => p.keep ++ c :: settle none later
  | p, .comma :: later => p.keep ++ settle (some []) later
  | p, .close c :: later => p.discard ++ c :: settle none later

lemma settle_markMoves (p : Pending) (c : Char) (later : List Move) :
    settle p (markMoves c ++ later) = p.keep ++ '"' :: settle none later := by
  unfold markMoves
  split
  · next double => rw [double]; rfl
  · rfl

/-- Inside of a string, where no comma is pending. -/
def Mode.isQuoted : Mode → Bool
  | .quoted _ => true
  | _ => false

lemma strictFrom_eq_settle (mode : Mode) (text : Text) (p : Pending)
    (apart : mode.isQuoted → p = none) : strictFrom mode p text = settle p (moves mode text) := by
  fun_induction strictFrom mode p text
  case case15 star pending c rest inside other ih =>
    rw [moves, if_neg inside, if_neg other, settle]
    exact ih apart
  all_goals simp_all [moves, settle, settle_markMoves, Mode.isQuoted, Pending.keep]

lemma flatMap_reads_markMoves (c : Char) : (markMoves c).flatMap Move.reads = [c] := by
  unfold markMoves
  split <;> rfl

/-- The moves take the whole text. -/
lemma flatMap_reads_moves (mode : Mode) (text : Text) :
    (moves mode text).flatMap Move.reads = text := by
  fun_induction moves mode text <;> simp_all [Move.reads, flatMap_reads_markMoves]

@[simp] lemma Move.allowed_skip {c : Char} : (skip c).Allowed ↔ c ≠ '\n' := Iff.rfl

@[simp] lemma Move.allowed_blank {c : Char} : (blank c).Allowed := trivial

@[simp] lemma Move.allowed_copy {c : Char} : (copy c).Allowed := trivial

@[simp] lemma Move.allowed_add {c : Char} : (add c).Allowed ↔ c = '"' ∨ c = '\\' := Iff.rfl

@[simp] lemma Move.allowed_comma : comma.Allowed := trivial

@[simp] lemma Move.allowed_close {c : Char} : (close c).Allowed := trivial

/-- Strings are between quotation marks of one of the two kinds. -/
def Mode.Proper : Mode → Prop
  | .quoted mark => mark = '"' ∨ mark = '\''
  | _ => True

lemma allowed_markMoves {c : Char} (mark : c = '"' ∨ c = '\'') :
    ∀ move ∈ markMoves c, move.Allowed := by
  rcases mark with rfl | rfl <;> simp [markMoves]

lemma allowed_moves (mode : Mode) (text : Text) (proper : mode.Proper) :
    ∀ move ∈ moves mode text, move.Allowed := by
  fun_induction moves mode text
  case case4 c rest _ _ mark ih =>
    exact forall_mem_append.mpr ⟨allowed_markMoves mark, ih mark⟩
  case case20 c rest _ _ ih =>
    exact forall_mem_append.mpr ⟨allowed_markMoves proper, ih trivial⟩
  all_goals simp_all [Mode.Proper]

/-! ### Drafts -/

/-- A character of the output, with its place in the source if it was copied. -/
structure Written where
  char : Char
  origin : Option Nat
deriving DecidableEq, Repr

/-- The output in the making: what is written, the byte at which a comma stands that may turn out to
be trailing, and how many characters of the source were read. -/
structure Draft where
  written : List Written
  comma : Option Nat
  read : Nat
deriving DecidableEq, Repr

/-- The characters that are written. -/
def Written.text (written : List Written) : Text := written.map char

/-- Takes out the character that starts at a byte. -/
def Written.erase : Nat → List Written → List Written
  | _, [] => []
  | 0, _ :: later => later
  | offset + 1, w :: later => w :: erase (offset + 1 - w.char.utf8Size) later

namespace Draft

def empty : Draft := ⟨[], none, 0⟩

/-- What is written once the comma in question is taken out. -/
def trimmed (d : Draft) : List Written :=
  match d.comma with
  | none => d.written
  | some offset => Written.erase offset d.written

def step (d : Draft) : Move → Draft
  | .skip _ => { d with read := d.read + 1 }
  | .blank c => { d with written := d.written ++ [⟨c, some d.read⟩], read := d.read + 1 }
  | .copy c => ⟨d.written ++ [⟨c, some d.read⟩], none, d.read + 1⟩
  | .add c => ⟨d.written ++ [⟨c, none⟩], none, d.read⟩
  | .comma => ⟨d.written ++ [⟨',', some d.read⟩], some (Written.text d.written).size, d.read + 1⟩
  | .close c => ⟨d.trimmed ++ [⟨c, some d.read⟩], none, d.read + 1⟩

def run (d : Draft) (moves : List Move) : Draft := moves.foldl step d

@[simp] lemma run_cons (d : Draft) (move : Move) (later : List Move) :
    d.run (move :: later) = (d.step move).run later := rfl

lemma run_append (d : Draft) (moves later : List Move) :
    d.run (moves ++ later) = (d.run moves).run later :=
  foldl_append

end Draft

namespace Written

@[simp] lemma text_append (written later : List Written) :
    text (written ++ later) = text written ++ text later :=
  map_append

@[simp] lemma text_cons (w : Written) (later : List Written) :
    text (w :: later) = w.char :: text later := rfl

@[simp] lemma text_nil : text [] = [] := rfl

lemma erase_append (before : List Written) (w : Written) (after : List Written) :
    erase (text before).size (before ++ w :: after) = before ++ after := by
  induction before with
  | nil => rfl
  | cons x before ih =>
    obtain ⟨width, isSucc⟩ : ∃ width, x.char.utf8Size + (text before).size = width + 1 :=
      ⟨x.char.utf8Size + (text before).size - 1, by have := x.char.utf8Size_pos; omega⟩
    have left : width + 1 - x.char.utf8Size = (text before).size := by omega
    rw [cons_append, text_cons, Text.size_cons, isSucc, erase, left, ih]
    rfl

end Written

namespace Draft

variable {d : Draft} {front : Text} {p : Pending}

/-- The draft ends in the comma that is pending and the blanks behind it. -/
structure Holds (d : Draft) (front : Text) (p : Pending) : Prop where
  text : Written.text d.written = front ++ p.keep
  comma : d.comma = p.map fun _ => front.size

lemma Holds.text_trimmed (holds : d.Holds front p) :
    Written.text d.trimmed = front ++ p.discard := by
  obtain ⟨text, comma⟩ := holds
  cases p with
  | none => simpa [trimmed, comma, Pending.discard, Pending.keep] using text
  | some blanks =>
    obtain ⟨before, rest, split, rfl, behind⟩ := map_eq_append_iff.mp text
    obtain ⟨w, after, rfl, -, rfl⟩ := map_eq_cons_iff.mp behind
    simp only [trimmed, comma, split, Option.map_some]
    rw [show List.map Written.char before = Written.text before from rfl, Written.erase_append,
      Written.text_append]
    rfl

lemma Holds.settled {written : List Written} {read : Nat} (text : Written.text written = front) :
    Holds ⟨written, none, read⟩ front none :=
  ⟨by simpa [Pending.keep] using text, rfl⟩

/-- The buffer with its remembered byte writes what the pass writes. -/
lemma Holds.text_run (holds : d.Holds front p) (moves : List Move) :
    Written.text (d.run moves).written = front ++ settle p moves := by
  induction moves generalizing d front p with
  | nil => exact holds.text
  | cons move later ih =>
    cases move with
    | skip c => exact ih ⟨holds.text, holds.comma⟩
    | blank c =>
      rw [settle, ← append_assoc]
      refine ih ⟨?_, ?_⟩
      · cases p <;> simp [step, Pending.blank, Pending.keep, holds.text]
      · cases p <;> simp [step, Pending.blank, holds.comma]
    | copy c =>
      have next : (d.step (.copy c)).Holds (front ++ p.keep ++ [c]) none :=
        .settled (by simp [holds.text])
      simpa [settle] using ih next
    | add c =>
      have next : (d.step (.add c)).Holds (front ++ p.keep ++ [c]) none :=
        .settled (by simp [holds.text])
      simpa [settle] using ih next
    | comma =>
      have next : (d.step .comma).Holds (front ++ p.keep) (some []) :=
        ⟨by simp [step, holds.text, Pending.keep], by simp [step, holds.text]⟩
      simpa [settle] using ih next
    | close c =>
      have next : (d.step (.close c)).Holds (front ++ p.discard ++ [c]) none :=
        .settled (by simp [holds.text_trimmed])
      simpa [settle] using ih next

end Draft

/-! ### Line feeds -/

/-- What is written follows the source: it has the same line feeds, each copied character stands
behind as many of them as at its origin, and the origins are in order. Everything else is a
quotation mark or a backslash. -/
structure Aligned (source : Text) (written : List Written) : Prop where
  lines : (Written.text written).count '\n' = source.count '\n'
  copied : ∀ {before w after i}, written = before ++ w :: after → w.origin = some i →
    ∃ left right, source = left ++ w.char :: right ∧ left.length = i ∧
      (Written.text before).count '\n' = left.count '\n'
  own : ∀ w ∈ written, w.origin = none → w.char = '"' ∨ w.char = '\\'
  ordered : (written.filterMap Written.origin).Pairwise (· < ·)

namespace Aligned

variable {source : Text} {written before after : List Written} {c : Char}

lemma empty : Aligned [] [] := ⟨rfl, by simp, by simp, by simp⟩

lemma skip (aligned : Aligned source written) (other : c ≠ '\n') :
    Aligned (source ++ [c]) written where
  lines := by simpa [count_cons, other] using aligned.lines
  copied split origin := by
    obtain ⟨left, right, rfl, place, same⟩ := aligned.copied split origin
    exact ⟨left, right ++ [c], by simp, place, same⟩
  own := aligned.own
  ordered := aligned.ordered

lemma origin_lt (aligned : Aligned source written) {i : Nat}
    (mem : i ∈ written.filterMap Written.origin) : i < source.length := by
  obtain ⟨w, isWritten, origin⟩ := mem_filterMap.mp mem
  obtain ⟨before, after, split⟩ := append_of_mem isWritten
  obtain ⟨left, right, rfl, rfl, -⟩ := aligned.copied split origin
  simp

/-- The last written character, or one that was there before. -/
lemma split_snoc {w x : Written} (same : written ++ [x] = before ++ w :: after) :
    before = written ∧ w = x ∨ ∃ after', written = before ++ w :: after' := by
  rcases eq_nil_or_concat' after with rfl | ⟨after', y, rfl⟩
  · obtain ⟨rfl, last⟩ := append_inj' same rfl
    exact .inl ⟨rfl, (List.cons.inj last).1.symm⟩
  · have shorter : written ++ [x] = (before ++ w :: after') ++ [y] := by simpa using same
    exact .inr ⟨after', (append_inj' shorter rfl).1⟩

lemma copy (aligned : Aligned source written) (c : Char) {place : Nat}
    (isNext : place = source.length) : Aligned (source ++ [c]) (written ++ [⟨c, some place⟩]) where
  lines := by simp [aligned.lines, count_append]
  copied split origin := by
    rcases split_snoc split with ⟨rfl, rfl⟩ | ⟨after', rfl⟩
    · exact ⟨source, [], rfl, isNext ▸ Option.some.inj origin, aligned.lines⟩
    · obtain ⟨left, right, rfl, place, same⟩ := aligned.copied rfl origin
      exact ⟨left, right ++ [c], by simp, place, same⟩
  own w mem origin := by
    rcases mem_append.mp mem with mem | last
    · exact aligned.own w mem origin
    · rw [mem_singleton.mp last] at origin
      cases origin
  ordered := by
    rw [filterMap_append, pairwise_append]
    refine ⟨aligned.ordered, by simp, fun i mem j last => ?_⟩
    rw [mem_singleton.mp last, isNext]
    exact aligned.origin_lt mem

lemma add (aligned : Aligned source written) (isOwn : c = '"' ∨ c = '\\') :
    Aligned source (written ++ [⟨c, none⟩]) where
  lines := by
    have other : c ≠ '\n' := by rcases isOwn with rfl | rfl <;> decide
    simpa [count_cons, other] using aligned.lines
  copied split origin := by
    rcases split_snoc split with ⟨rfl, rfl⟩ | ⟨after', rfl⟩
    · cases origin
    · exact aligned.copied rfl origin
  own w mem origin := by
    rcases mem_append.mp mem with mem | last
    · exact aligned.own w mem origin
    · rw [mem_singleton.mp last]
      exact isOwn
  ordered := by simpa using aligned.ordered

/-- A comma can be taken out without moving anything to another line. -/
lemma erase {i : Nat} (aligned : Aligned source (before ++ ⟨',', some i⟩ :: after)) :
    Aligned source (before ++ after) where
  lines := by simpa [count_append, count_cons] using aligned.lines
  copied {left w right j} split origin := by
    rcases append_eq_append_iff.mp split with ⟨more, rfl, rest⟩ | ⟨more, rfl, rest⟩
    · have whole : before ++ ⟨',', some i⟩ :: after = (before ++ ⟨',', some i⟩ :: more) ++
        w :: right := by simp [rest]
      simpa [count_append, count_cons] using aligned.copied whole origin
    · cases more with
      | nil =>
        have whole : left ++ [] ++ ⟨',', some i⟩ :: after = (left ++ [⟨',', some i⟩]) ++
            w :: right := by
          simpa using rest.symm
        simpa [count_append, count_cons] using aligned.copied whole origin
      | cons x more =>
        obtain ⟨rfl, rfl⟩ := List.cons.inj rest
        have whole :
            left ++ w :: more ++ ⟨',', some i⟩ :: after = left ++
              w :: (more ++ ⟨',', some i⟩ :: after) := by
          simp
        exact aligned.copied whole origin
  own w mem origin := by
    refine aligned.own w ?_ origin
    rcases mem_append.mp mem with mem | mem <;> simp [mem]
  ordered := by
    have shorter : (before ++ after).Sublist (before ++ ⟨',', some i⟩ :: after) :=
      (List.Sublist.refl before).append (sublist_cons_self ..)
    exact aligned.ordered.sublist (shorter.filterMap _)

end Aligned

namespace Draft

variable {d : Draft} {source : Text}

/-- The draft follows what was read so far, and the byte that it remembers is a comma. -/
structure Follows (source : Text) (d : Draft) : Prop where
  read : d.read = source.length
  aligned : Aligned source d.written
  comma : ∀ offset, d.comma = some offset → ∃ before i after,
    d.written = before ++ ⟨',', some i⟩ :: after ∧ (Written.text before).size = offset ∧
      d.trimmed = before ++ after

lemma Follows.empty : Follows [] empty := ⟨rfl, .empty, nofun⟩

lemma trimmed_eq {before after : List Written} {w : Written}
    (comma : d.comma = some (Written.text before).size)
    (written : d.written = before ++ w :: after) : d.trimmed = before ++ after := by
  rw [trimmed, comma, written]
  exact Written.erase_append before w after

lemma Follows.trimmed (follows : d.Follows source) : Aligned source d.trimmed := by
  cases comma : d.comma with
  | none =>
    rw [Draft.trimmed, comma]
    exact follows.aligned
  | some offset =>
    obtain ⟨before, i, after, written, -, trimmed⟩ := follows.comma offset comma
    rw [trimmed]
    exact (written ▸ follows.aligned).erase

lemma Follows.step (follows : d.Follows source) {move : Move} (allowed : move.Allowed) :
    (d.step move).Follows (source ++ move.reads) := by
  obtain ⟨read, aligned, comma⟩ := follows
  cases move with
  | skip c => exact ⟨by simp [Draft.step, Move.reads, read], aligned.skip allowed, comma⟩
  | blank c =>
    refine ⟨by simp [Draft.step, Move.reads, read], aligned.copy c read, fun offset pending => ?_⟩
    obtain ⟨before, i, after, written, rfl, -⟩ := comma offset pending
    have longer :
        (d.step (.blank c)).written = before ++ ⟨',', some i⟩ :: (after ++ [⟨c, some d.read⟩]) := by
      simp [Draft.step, written]
    exact ⟨before, i, _, longer, rfl, trimmed_eq pending longer⟩
  | copy c => exact ⟨by simp [Draft.step, Move.reads, read], aligned.copy c read, nofun⟩
  | add c =>
    rw [Move.reads, append_nil]
    exact ⟨read, aligned.add allowed, nofun⟩
  | comma =>
    refine ⟨by simp [Draft.step, Move.reads, read], aligned.copy ',' read, fun offset pending => ?_⟩
    obtain rfl : (Written.text d.written).size = offset := Option.some.inj pending
    exact ⟨d.written, d.read, [], rfl, rfl, trimmed_eq rfl rfl⟩
  | close c =>
    have trimmed : Aligned source d.trimmed := Follows.trimmed ⟨read, aligned, comma⟩
    exact ⟨by simp [Draft.step, Move.reads, read], trimmed.copy c read, nofun⟩

lemma Follows.run (follows : d.Follows source) {moves : List Move}
    (allowed : ∀ move ∈ moves, move.Allowed) :
    (d.run moves).Follows (source ++ moves.flatMap Move.reads) := by
  induction moves generalizing d source with
  | nil => simpa [Draft.run] using follows
  | cons move later ih =>
    obtain ⟨first, rest⟩ := forall_mem_cons.mp allowed
    rw [run_cons, flatMap_cons, ← append_assoc]
    exact ih (follows.step first) rest

end Draft

/-- The draft of a whole text. -/
def draft (text : Text) : Draft := Draft.empty.run (moves .plain text)

lemma text_draft (text : Text) : Written.text (draft text).written = strict text := by
  have start : Draft.empty.Holds [] none := ⟨rfl, rfl⟩
  rw [draft, start.text_run, strict, strictFrom_eq_settle .plain text none (fun _ => rfl)]
  rfl

/-- The draft follows the source at every moment of the pass. -/
lemma follows_moves {text : Text} {done later : List Move}
    (split : moves .plain text = done ++ later) :
    (Draft.empty.run done).Follows (done.flatMap Move.reads) := by
  have allowed : ∀ move ∈ done, move.Allowed := fun move mem =>
    allowed_moves .plain text trivial move (split ▸ mem_append_left later mem)
  simpa using Draft.Follows.empty.run allowed

/-- The pass keeps everything on its line. -/
structure KeepsLines (text : Text) : Prop where
  written : Written.text (draft text).written = strict text
  lines : (strict text).count '\n' = text.count '\n'
  copied : ∀ {j w i}, (draft text).written[j]? = some w → w.origin = some i →
    text[i]? = some w.char ∧ ((strict text).take j).count '\n' = (text.take i).count '\n'
  own : ∀ w ∈ (draft text).written, w.origin = none → w.char = '"' ∨ w.char = '\\'
  ordered : ((draft text).written.filterMap Written.origin).Pairwise (· < ·)
  removed : ∀ {done c later offset}, moves .plain text = done ++ .close c :: later →
    (Draft.empty.run done).comma = some offset → ∃ before i after,
      (Draft.empty.run done).written = before ++ ⟨',', some i⟩ :: after ∧
        (Written.text before).size = offset ∧
      (Draft.empty.run (done ++ [.close c])).written = before ++ after ++
        [⟨c, some (Draft.empty.run done).read⟩]

theorem strict_keeps_lines (text : Text) : KeepsLines text := by
  have written := text_draft text
  have whole : (draft text).Follows text := by
    have follows := follows_moves (append_nil (moves .plain text)).symm
    rwa [flatMap_reads_moves] at follows
  refine ⟨written, written ▸ whole.aligned.lines, fun {j w i} there origin => ?_, whole.aligned.own,
    whole.aligned.ordered, fun {done c later offset} split pending => ?_⟩
  · obtain ⟨inside, isThere⟩ := List.getElem?_eq_some_iff.mp there
    have cut : (draft text).written = (draft text).written.take j ++ w :: (draft text).written.drop
        (j + 1) := by
      rw [← isThere, cons_getElem_drop_succ, take_append_drop]
    obtain ⟨left, right, source, rfl, same⟩ := whole.aligned.copied cut origin
    have front : (strict text).take j = Written.text ((draft text).written.take j) := by
      rw [← written, Written.text, Written.text, map_take]
    rw [front, same, source]
    simp
  · obtain ⟨before, i, after, isWritten, size, trimmed⟩ :=
      (follows_moves split).comma offset pending
    refine ⟨before, i, after, isWritten, size, ?_⟩
    rw [Draft.run_append, ← trimmed]
    rfl

-- The comma was written at byte 5, and the blank and the line feed behind it move up.
example : strict "['é', // x\n]".toList = "[\"é\" \n]".toList := by decide

end PatternLowering.Json

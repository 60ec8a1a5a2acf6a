import PatternLowering.Proofs.Scanning

/-!
# Scanning by bytes

Strings and regular expressions end where a scanner of bytes ends them that knows nothing of
characters and passes over an escape by a fixed number of bytes. It may step into a character that
way, but it cannot stop there: only the bytes of ASCII characters stop it.
-/

namespace PatternLowering

open List

/-- The bytes of the UTF-8 form. -/
def Text.bytes (text : Text) : List UInt8 := text.flatMap String.utf8EncodeChar

namespace Bytes

/-- What to do at a byte: stop, stop behind it, or pass over it and `more` bytes. -/
inductive Move (σ : Type) where
  | stop
  | close
  | on (more : Nat) (state : σ)

/-- Where a scanner stops that has come to `pos`, with the bytes from there on, and whether it met
what it was looking for. Passing over bytes may lead beyond the last one. -/
def run {σ : Type} (step : σ → UInt8 → List UInt8 → Move σ) (state : σ) (pos : Nat) :
    List UInt8 → Nat × Bool
  | [] => (pos, false)
  | byte :: rest =>
    match step state byte rest with
    | .stop => (pos, false)
    | .close => (pos + 1, true)
    | .on more state => run step state (pos + 1 + more) (rest.drop more)
termination_by bytes => bytes.length
decreasing_by
  rw [length_drop, length_cons]
  omega

def stringStep (quote : UInt8) (_ : Unit) (byte : UInt8) (rest : List UInt8) : Move Unit :=
  if byte = '\\'.toUInt8 then .on (if ['\r'.toUInt8, '\n'.toUInt8] <+: rest then 2 else 1) ()
  else if byte = '\n'.toUInt8 ∨ byte = '\r'.toUInt8 then .stop
  else if byte = quote then .close
  else .on 0 ()

def regexStep (inClass : Bool) (byte : UInt8) (rest : List UInt8) : Move Bool :=
  if byte = '\n'.toUInt8 ∨ byte = '\r'.toUInt8 then .stop
  else if byte = '\\'.toUInt8 ∧ rest.head?.any fun next =>
      next ≠ '\n'.toUInt8 ∧ next ≠ '\r'.toUInt8 then .on 1 inClass
  else if byte = '['.toUInt8 then .on 0 true
  else if byte = ']'.toUInt8 then .on 0 false
  else if byte = '/'.toUInt8 ∧ ¬ inClass then .close
  else .on 0 inClass

/-- A byte that no character starts with. -/
def isContinuation (byte : UInt8) : Bool := 128 ≤ byte.toNat && byte.toNat < 192

/-- The end of a string whose first byte behind the quote is at `pos`, and whether it is closed. If
it is not, it ends with the file at the latest, and before a character. -/
def stringEnd (bytes : List UInt8) (quote : UInt8) (pos : Nat) : Nat × Bool :=
  match run (stringStep quote) () pos (bytes.drop pos) with
  | (stop, true) => (stop, true)
  | (stop, false) =>
    let stop := min stop bytes.length
    (stop + ((bytes.drop stop).takeWhile isContinuation).length, false)

/-- The end of the body of a regular expression, and whether it is closed. -/
def regexEnd (bytes : List UInt8) (inClass : Bool) (pos : Nat) : Nat × Bool :=
  run regexStep inClass pos (bytes.drop pos)

/-! ### The bytes of characters -/

variable {c d : Char} {byte first : UInt8} {text : Text} {rest later : List UInt8} {pos : Nat}

lemma toUInt8_toNat (ascii : c.toNat < 128) : c.toUInt8.toNat = c.toNat := by
  change c.val.toNat % 256 = c.val.toNat
  exact Nat.mod_eq_of_lt (ascii.trans (by decide))

lemma ne_toUInt8 (high : 128 ≤ byte.toNat) (ascii : c.toNat < 128) : byte ≠ c.toUInt8 := by
  rintro rfl
  rw [toUInt8_toNat ascii] at high
  omega

lemma toUInt8_inj (ascii : c.toNat < 128) (ascii' : d.toNat < 128) :
    c.toUInt8 = d.toUInt8 ↔ c = d := by
  constructor
  · intro same
    have same := congrArg UInt8.toNat same
    rw [toUInt8_toNat ascii, toUInt8_toNat ascii'] at same
    exact Char.toNat_inj.mp same
  · rintro rfl
    rfl

/-- The bytes of a character. The first one tells ASCII characters apart, and the others are those
of no ASCII character. -/
structure Encodes (c : Char) (first : UInt8) (later : List UInt8) : Prop where
  bytes : String.utf8EncodeChar c = first :: later
  starts : isContinuation first = false
  first_iff : ∀ {d : Char}, d.toNat < 128 → (first = d.toUInt8 ↔ c = d)
  high : ∀ byte ∈ later, 128 ≤ byte.toNat

lemma encode_ascii (ascii : c.toNat < 128) : String.utf8EncodeChar c = [c.toUInt8] := by
  have small : c.val.toNat ≤ 127 := Nat.le_of_lt_succ ascii
  rw [String.utf8EncodeChar, if_pos small]
  rfl

lemma exists_encodes (c : Char) : ∃ first later, Encodes c first later := by
  by_cases ascii : c.toNat < 128
  · refine ⟨c.toUInt8, [], encode_ascii ascii, ?_, toUInt8_inj ascii, by simp⟩
    rw [isContinuation, toUInt8_toNat ascii]
    simp [ascii]
  · have wide : ¬ c.val.toNat ≤ 127 := Nat.not_le_of_lt (Nat.le_of_not_lt ascii)
    obtain ⟨first, later, isBytes, starts, high⟩ : ∃ first later,
        String.utf8EncodeChar c = first :: later ∧ 192 ≤ first.toNat ∧
          ∀ byte ∈ later, 128 ≤ byte.toNat := by
      rw [String.utf8EncodeChar, if_neg wide]
      split
      · refine ⟨_, _, rfl, ?_, ?_⟩ <;> simp <;> omega
      · split <;> refine ⟨_, _, rfl, ?_, ?_⟩ <;> simp <;> omega
    refine ⟨first, later, isBytes, by simp [isContinuation, starts], fun ascii' => ?_, high⟩
    exact iff_of_false (ne_toUInt8 (by omega) ascii') fun same => ascii (same ▸ ascii')

lemma Encodes.length (encodes : Encodes c first later) : later.length + 1 = c.utf8Size := by
  rw [← String.length_utf8EncodeChar, encodes.bytes, length_cons]

lemma Encodes.alone (encodes : Encodes c first later) (ascii : c.toNat < 128) : later = [] :=
  (List.cons.inj (encodes.bytes.symm.trans (encode_ascii ascii))).2

lemma length_bytes (text : Text) : text.bytes.length = text.size := by
  induction text with
  | nil => rfl
  | cons c text ih =>
    change (String.utf8EncodeChar c ++ Text.bytes text).length = _
    rw [length_append, String.length_utf8EncodeChar, ih]
    rfl

lemma Encodes.bytes_cons (encodes : Encodes c first later) :
    Text.bytes (c :: text) = first :: (later ++ text.bytes) := by
  change String.utf8EncodeChar c ++ text.bytes = _
  rw [encodes.bytes, cons_append]

/-! ### Passing over characters -/

section

variable {σ : Type} {step : σ → UInt8 → List UInt8 → Move σ} {state state' : σ}

lemma run_nil : run step state pos [] = (pos, false) := by
  rw [run]

lemma run_cons : run step state pos (byte :: rest) =
    match step state byte rest with
    | .stop => (pos, false)
    | .close => (pos + 1, true)
    | .on more state => run step state (pos + 1 + more) (rest.drop more) := by
  rw [run]

variable (idle : ∀ state byte rest, 128 ≤ byte.toNat → step state byte rest = .on 0 state)

include idle

lemma run_high {high : List UInt8} (isHigh : ∀ byte ∈ high, 128 ≤ byte.toNat) :
    run step state pos (high ++ rest) = run step state (pos + high.length) rest := by
  induction high generalizing pos with
  | nil => rfl
  | cons byte high ih =>
    obtain ⟨now, later⟩ := forall_mem_cons.mp isHigh
    rw [cons_append, run_cons, idle _ _ _ now]
    exact (ih later).trans (by rw [length_cons, Nat.add_zero, Nat.add_assoc, Nat.add_comm 1])

/-- A character whose first byte is passed over is passed over. -/
lemma run_char (moves : ∀ {first later}, Encodes c first later →
      step state first (later ++ text.bytes) = .on 0 state') :
    run step state pos (Text.bytes (c :: text)) = run step state' (pos + c.utf8Size)
      text.bytes := by
  obtain ⟨first, later, encodes⟩ := exists_encodes c
  rw [encodes.bytes_cons, run_cons, moves encodes, ← encodes.length, Nat.add_comm later.length,
    ← Nat.add_assoc]
  exact run_high idle encodes.high

/-- An escape of two bytes leads into the escaped character, and so over it. -/
lemma run_escape (moves : step state '\\'.toUInt8 (Text.bytes (c :: text)) = .on 1 state) :
    run step state pos (Text.bytes ('\\' :: c :: text)) =
      run step state (pos + 1 + c.utf8Size) text.bytes := by
  obtain ⟨first, later, encodes⟩ := exists_encodes c
  change run step state pos ('\\'.toUInt8 :: Text.bytes (c :: text)) = _
  rw [run_cons, moves, encodes.bytes_cons, ← encodes.length, Nat.add_comm later.length,
    ← Nat.add_assoc]
  exact run_high idle encodes.high

end

/-! ### Strings -/

variable {quote : Char}

lemma stringStep_high (ascii : quote.toNat < 128) (state : Unit) (byte : UInt8)
    (rest : List UInt8) (high : 128 ≤ byte.toNat) :
    stringStep quote.toUInt8 state byte rest = .on 0 state := by
  have other {c : Char} (ascii : c.toNat < 128) : byte ≠ c.toUInt8 := ne_toUInt8 high ascii
  rw [stringStep, if_neg (other (by decide)),
    if_neg (not_or.mpr ⟨other (by decide), other (by decide)⟩), if_neg (other ascii)]

/-- At the first byte of a character the scanner does what the character asks for. -/
lemma stringStep_char (ascii : quote.toNat < 128) (plain : c ≠ '\\')
    (encodes : Encodes c first later) :
    stringStep quote.toUInt8 () first rest =
      if isLineEnd c then .stop else if c = quote then .close else .on 0 () := by
  simp [stringStep, encodes.first_iff (d := '\\') (by decide),
    encodes.first_iff (d := '\n') (by decide), encodes.first_iff (d := '\r') (by decide),
    encodes.first_iff ascii, isLineEnd, plain]

/-- Only a line break of two characters is passed over as a whole. -/
lemma stringStep_escape {quote : UInt8} (single : ∀ rest, c = '\r' → text = '\n' :: rest → False) :
    stringStep quote () '\\'.toUInt8 (Text.bytes (c :: text)) = .on 1 () := by
  obtain ⟨first, later, encodes⟩ := exists_encodes c
  rw [stringStep, if_pos rfl, if_neg]
  rw [encodes.bytes_cons, cons_prefix_cons, eq_comm, encodes.first_iff (by decide)]
  rintro ⟨rfl, feed⟩
  obtain rfl := encodes.alone (by decide)
  cases text with
  | nil => simp [Text.bytes] at feed
  | cons d text =>
    obtain ⟨first, later, encodes⟩ := exists_encodes d
    rw [nil_append, encodes.bytes_cons, cons_prefix_cons, eq_comm,
      encodes.first_iff (by decide)] at feed
    exact single text rfl (by rw [feed.1])

/-- The scanner ended as `ends` tells, with a file of `limit` bytes. Unless it met what it was
looking for it may be beyond the end. -/
def Agrees (outcome : Nat × Bool) (limit : Nat) (ends : Cursor × Bool) : Prop :=
  min outcome.1 limit = ends.1.offset ∧ outcome.2 = ends.2 ∧ (outcome.2 → outcome.1 ≤ limit)

/-- Only a backslash at the end of the file leads beyond the end. -/
lemma run_string (ascii : quote.toNat < 128) (plain : quote ≠ '\\') {limit : Nat}
    (whole : pos + text.size = limit) :
    Agrees (run (stringStep quote.toUInt8) () pos text.bytes) limit
      (Lexeme.stringEnd quote pos text) := by
  have inside : pos ≤ limit := Nat.le_of_add_right_le whole.le
  fun_induction Lexeme.stringEnd quote pos text with
  | case1 pos =>
    rw [Text.bytes, flatMap_nil, run_nil]
    exact ⟨min_eq_left inside, rfl, by simp⟩
  | case2 pos text ih =>
    have whole : pos + (1 + (1 + (1 + Text.size text))) = limit := whole
    change Agrees
      (run _ () pos ('\\'.toUInt8 :: '\r'.toUInt8 :: '\n'.toUInt8 :: Text.bytes text)) _ _
    rw [run_cons, stringStep, if_pos rfl, if_pos (by simp)]
    exact ih (by omega) (by omega)
  | case3 pos c text single ih =>
    have whole : pos + (1 + (c.utf8Size + Text.size text)) = limit := whole
    rw [run_escape (stringStep_high ascii) (stringStep_escape single)]
    exact ih (by omega) (by omega)
  | case4 pos c text _ _ ends =>
    have notEscape : c ≠ '\\' := by
      rintro rfl
      cases ends
    obtain ⟨first, later, encodes⟩ := exists_encodes c
    rw [encodes.bytes_cons, run_cons, stringStep_char ascii notEscape encodes, if_pos ends]
    exact ⟨min_eq_left inside, rfl, by simp⟩
  | case5 pos text _ _ goesOn =>
    have whole : pos + (quote.utf8Size + Text.size text) = limit := whole
    obtain ⟨first, later, encodes⟩ := exists_encodes quote
    rw [← encodes.length, encodes.alone ascii, length_nil] at whole ⊢
    rw [encodes.bytes_cons, run_cons, stringStep_char ascii plain encodes,
      if_neg goesOn, if_pos rfl]
    have next : pos + 1 ≤ limit := by omega
    exact ⟨min_eq_left next, rfl, fun _ => next⟩
  | case6 pos c text _ noEscape goesOn other ih =>
    have whole : pos + (c.utf8Size + Text.size text) = limit := whole
    by_cases escape : c = '\\'
    · subst escape
      cases text with
      | nil =>
        have whole : pos + 1 = limit := whole
        change Agrees (run _ () pos ['\\'.toUInt8]) _ _
        rw [run_cons, stringStep, if_pos rfl, if_neg (by simp)]
        change Agrees (run _ () (pos + 2) []) _ _
        rw [run_nil]
        exact ⟨(min_eq_right (by omega)).trans whole.symm, rfl, by simp⟩
      | cons d text => exact (noEscape d text rfl rfl).elim
    · rw [run_char (stringStep_high ascii) fun encodes =>
        (stringStep_char ascii escape encodes).trans (by rw [if_neg goesOn, if_neg other])]
      exact ih (by omega) (by omega)

/-! ### Regular expressions -/

variable {inClass : Bool}

lemma regexStep_high (inClass : Bool) (byte : UInt8) (rest : List UInt8)
    (high : 128 ≤ byte.toNat) : regexStep inClass byte rest = .on 0 inClass := by
  have other {c : Char} (ascii : c.toNat < 128) : byte ≠ c.toUInt8 := ne_toUInt8 high ascii
  rw [regexStep, if_neg (not_or.mpr ⟨other (by decide), other (by decide)⟩),
    if_neg fun both => other (by decide) both.1, if_neg (other (by decide)),
    if_neg (other (by decide)), if_neg fun both => other (by decide) both.1]

/-- A backslash at the end of the file is a character like any other. -/
lemma regexStep_char (noEscape : ∀ d rest, c = '\\' → text = d :: rest → False)
    (encodes : Encodes c first later) :
    regexStep inClass first (later ++ text.bytes) =
      if isLineEnd c then .stop
      else if c = '[' then .on 0 true
      else if c = ']' then .on 0 false
      else if c = '/' ∧ ¬ inClass then .close
      else .on 0 inClass := by
  have last : ¬ (c = '\\' ∧ (later ++ text.bytes).head?.any fun next =>
      next ≠ '\n'.toUInt8 ∧ next ≠ '\r'.toUInt8) := by
    rintro ⟨rfl, more⟩
    obtain rfl := encodes.alone (by decide)
    cases text with
    | nil => cases more
    | cons d text => exact noEscape d text rfl rfl
  simp only [regexStep, encodes.first_iff (d := '\\') (by decide),
    encodes.first_iff (d := '\n') (by decide), encodes.first_iff (d := '\r') (by decide),
    encodes.first_iff (d := '[') (by decide), encodes.first_iff (d := ']') (by decide),
    encodes.first_iff (d := '/') (by decide), if_neg last, isLineEnd, Bool.or_eq_true,
    decide_eq_true_eq]

/-- A backslash takes the next character with it unless the line ends there. -/
lemma regexStep_escape :
    regexStep inClass '\\'.toUInt8 (Text.bytes (c :: text)) =
      if isLineEnd c then .on 0 inClass else .on 1 inClass := by
  obtain ⟨first, later, encodes⟩ := exists_encodes c
  have notEnd : (first ≠ '\n'.toUInt8 ∧ first ≠ '\r'.toUInt8) ↔ ¬ isLineEnd c := by
    rw [ne_eq, ne_eq, encodes.first_iff (by decide), encodes.first_iff (by decide)]
    simp [isLineEnd]
  rw [regexStep, encodes.bytes_cons, head?_cons, if_neg (by decide)]
  by_cases ends : isLineEnd c
  · rw [if_neg (by simpa [notEnd] using ends), if_pos ends]
    rfl
  · rw [if_pos (by simpa [notEnd] using ends), if_neg ends]

lemma run_regex : run regexStep inClass pos text.bytes =
    ((Lexeme.regexEnd inClass pos text).1.offset, (Lexeme.regexEnd inClass pos text).2) := by
  fun_induction Lexeme.regexEnd inClass pos text with
  | case1 inClass pos => rw [Text.bytes, flatMap_nil, run_nil]
  | case2 inClass pos c text ends =>
    have notEscape : c ≠ '\\' := by
      rintro rfl
      cases ends
    obtain ⟨first, later, encodes⟩ := exists_encodes c
    change run _ inClass pos ('\\'.toUInt8 :: Text.bytes (c :: text)) = _
    rw [run_cons, regexStep_escape, if_pos ends]
    change run _ inClass (pos + 1) (Text.bytes (c :: text)) = _
    rw [encodes.bytes_cons, run_cons, regexStep_char
      (fun _ _ same => absurd same notEscape) encodes, if_pos ends]
  | case3 inClass pos c text goesOn ih =>
    rw [run_escape regexStep_high (regexStep_escape.trans (if_neg goesOn)), ih]
  | case4 inClass pos c text noEscape ends =>
    obtain ⟨first, later, encodes⟩ := exists_encodes c
    rw [encodes.bytes_cons, run_cons, regexStep_char noEscape encodes, if_pos ends]
  | case5 inClass pos text noEscape goesOn ih =>
    rw [run_char regexStep_high fun encodes =>
      (regexStep_char noEscape encodes).trans ((if_neg goesOn).trans (if_pos rfl))]
    exact ih
  | case6 inClass pos text noEscape goesOn notOpen ih =>
    rw [run_char regexStep_high fun encodes => (regexStep_char noEscape encodes).trans
      ((if_neg goesOn).trans ((if_neg notOpen).trans (if_pos rfl)))]
    exact ih
  | case7 inClass pos c text noEscape goesOn notOpen notClose closes =>
    obtain ⟨first, later, encodes⟩ := exists_encodes c
    rw [encodes.bytes_cons, run_cons, regexStep_char noEscape encodes, if_neg goesOn,
      if_neg notOpen, if_neg notClose, if_pos closes]
  | case8 inClass pos c text noEscape goesOn notOpen notClose inside ih =>
    rw [run_char regexStep_high fun encodes => (regexStep_char noEscape encodes).trans
      (by rw [if_neg goesOn, if_neg notOpen, if_neg notClose, if_neg inside])]
    exact ih

/-! ### Both scanners -/

/-- Where the rest of a text starts, a character starts. -/
lemma takeWhile_bytes (text : Text) : text.bytes.takeWhile isContinuation = [] := by
  cases text with
  | nil => rfl
  | cons c text =>
    obtain ⟨first, later, encodes⟩ := exists_encodes c
    rw [encodes.bytes_cons, takeWhile_cons_of_neg (by simp [encodes.starts])]

lemma drop_bytes (before rest : Text) :
    (Text.bytes (before ++ rest)).drop before.size = rest.bytes := by
  rw [Text.bytes, flatMap_append, ← length_bytes]
  exact drop_left

end Bytes

/-- The scanner of bytes and the scanner of characters end a string at the same place. -/
theorem Lexeme.stringEnd_bytes {quote : Char} (isQuote : quote = '"' ∨ quote = '\'')
    (before rest : Text) :
    Bytes.stringEnd (Text.bytes (before ++ rest)) quote.toUInt8 before.size =
      ((stringEnd quote before.size rest).1.offset, (stringEnd quote before.size rest).2) := by
  have ascii : quote.toNat < 128 := by rcases isQuote with rfl | rfl <;> decide
  have plain : quote ≠ '\\' := by rcases isQuote with rfl | rfl <;> decide
  have size : before.size + rest.size = (Text.bytes (before ++ rest)).length := by
    rw [Bytes.length_bytes, Text.size_append]
  have ends : Bytes.Agrees (Bytes.run _ () before.size rest.bytes) _ _ :=
    Bytes.run_string ascii plain size
  obtain ⟨stops, closes, inside⟩ := ends
  obtain ⟨taken, split, moved⟩ := reaches_stringEnd quote before.size rest
  have boundary : ((Text.bytes (before ++ rest)).drop
      (stringEnd quote before.size rest).1.offset).takeWhile Bytes.isContinuation = [] := by
    have split : rest = taken ++ (stringEnd quote before.size rest).1.rest := split
    have moved : (stringEnd quote before.size rest).1.offset = (before ++ taken).size :=
      moved.trans (Text.size_append ..).symm
    generalize (stringEnd quote before.size rest).1 = stop at split moved
    rw [split, ← append_assoc, moved, Bytes.drop_bytes, Bytes.takeWhile_bytes]
  rw [Bytes.stringEnd, Bytes.drop_bytes]
  split
  · rename_i stop loop
    rw [loop] at stops closes inside
    rw [← stops, ← closes, min_eq_left (inside rfl)]
  · rename_i stop loop
    rw [loop] at stops closes
    rw [← closes]
    simp only [stops, boundary, length_nil, Nat.add_zero]

/-- The same for a regular expression. -/
theorem Lexeme.regexEnd_bytes (inClass : Bool) (before rest : Text) :
    Bytes.regexEnd (Text.bytes (before ++ rest)) inClass before.size =
      ((regexEnd inClass before.size rest).1.offset, (regexEnd inClass before.size rest).2) := by
  rw [Bytes.regexEnd, Bytes.drop_bytes, Bytes.run_regex]

end PatternLowering

import PatternLowering.Proofs.Escapes

/-!
# Decoding in 32 bits

The decoder of string bodies once more, with every sum, product and difference in numbers of 32 bits
that refuse to overflow. Digits between braces are counted too, in a number of 32 bits with a sign.
Only this counter can overflow, in a body with more digits than it can count.
-/

namespace PatternLowering.Cooked

open List

/-- An arithmetic step has no room for its result. -/
inductive Overflow where
  | overflow
deriving DecidableEq, Repr

abbrev Checked := Except Overflow

namespace Checked

/-- A number below `limit`. -/
def below (limit n : Nat) : Checked Nat := if n < limit then .ok n else .error .overflow

/-- A number of 32 bits. -/
def word (n : Nat) : Checked Nat := below (2 ^ 32) n

/-- A difference that is not negative. -/
def minus (a b : Nat) : Checked Nat := if b ≤ a then .ok (a - b) else .error .overflow

/-- The number written by the next `count` digits, behind what was read so far. -/
def digits (value : Nat) : (count : Nat) → Text → Checked (Option (Nat × Text))
  | 0, text => return some (value, text)
  | count + 1, text => do
    let shifted ← word (value * 16)
    match text with
    | [] => return none
    | c :: rest =>
      match Letters.hexValue? c with
      | none => return none
      | some digit => digits (← word (shifted + digit)) count rest

/-- One digit more than `count`, in a number of 32 bits with a sign. -/
def counted (count : Nat) : Checked Nat := below (2 ^ 31) (count + 1)

/-- The number written by the digits up to a closing brace. -/
def braced (value count : Nat) : Text → Checked (Option (Nat × Text))
  | [] => return none
  | c :: rest =>
    if c = '}' then return if 0 < count then some (value, rest) else none
    else do
      let shifted ← word (value * 16)
      match Letters.hexValue? c with
      | none => return none
      | some digit =>
        let value ← word (shifted + digit)
        if 0x10ffff < value then return none
        else braced value (← counted count) rest

def codeUnit : Text → Checked (Option (Nat × Text))
  | '{' :: rest => braced 0 0 rest
  | text => digits 0 4 text

def joinSurrogates (high low : Nat) : Checked Nat := do
  let upper ← word ((← minus high 0xd800) * 0x400)
  word ((← word (0x10000 + upper)) + (← minus low 0xdc00))

def unicode (text : Text) : Checked (Option (Char × Text)) := do
  match ← codeUnit text with
  | none => return none
  | some (code, rest) =>
    if isHighSurrogate code then
      match rest with
      | '\\' :: 'u' :: rest =>
        match ← codeUnit rest with
        | none => return none
        | some (low, rest) =>
          if isLowSurrogate low then
            return some (Char.ofNat (← joinSurrogates code low), rest)
          else return none
      | _ => return none
    else if isLowSurrogate code then return none
    else return some (Char.ofNat code, rest)

/-- Only the escapes that write numbers compute. -/
def escape : Text → Checked (Option (Text × Text))
  | 'x' :: rest => do return (← digits 0 2 rest).map fun (value, rest) => ([Char.ofNat value], rest)
  | 'u' :: rest => do return (← unicode rest).map fun (c, rest) => ([c], rest)
  | text => return escape? text

variable {α β : Type}

/-- The computation gives the answer, unless it overflows; that takes `tight`. -/
def Settles (checked : Checked α) (answer : α) (tight : Prop) : Prop :=
  checked = .ok answer ∨ checked = .error .overflow ∧ tight

namespace Settles

variable {checked : Checked α} {answer : α} {tight tight' : Prop}

lemma eq_of_ok {found : α} (settles : Settles checked answer tight) (isOk : checked = .ok found) :
    found = answer := by
  rcases settles with same | ⟨failed, _⟩
  · exact Except.ok.inj (isOk.symm.trans same)
  · cases isOk.symm.trans failed

lemma mono (settles : Settles checked answer tight) (wider : tight → tight') :
    Settles checked answer tight' :=
  settles.imp_right fun ⟨failed, isTight⟩ => ⟨failed, wider isTight⟩

lemma bind {f : α → Checked β} {result : β} (settles : Settles checked answer tight)
    (later : Settles (f answer) result tight) : Settles (checked >>= f) result tight := by
  rcases settles with same | ⟨failed, isTight⟩
  · rw [same]
    exact later
  · rw [failed]
    exact .inr ⟨rfl, isTight⟩

end Settles

lemma word_eq_ok {n : Nat} (small : n < 2 ^ 32) : word n = .ok n := if_pos small

/-- The number written by the next `count` digits, whatever its size. -/
def row? (value : Nat) : (count : Nat) → Text → Option (Nat × Text)
  | 0, text => some (value, text)
  | _ + 1, [] => none
  | count + 1, c :: rest =>
    (Letters.hexValue? c).bind fun digit => row? (value * 16 + digit) count rest

variable {text : Text}

/-- Reading a row of digits does not overflow if 32 bits hold every number that it can write. -/
lemma digits_eq_ok {value count : Nat} (small : (value + 1) * 16 ^ count ≤ 2 ^ 32) :
    digits value count text = .ok (row? value count text) := by
  induction count generalizing value text with
  | zero => rfl
  | succ count ih =>
    have shifts : (value + 1) * 16 * 16 ^ count ≤ 2 ^ 32 := by rwa [Nat.mul_assoc, ← pow_succ']
    have room :
        (value + 1) * 16 ≤ 2 ^ 32 := (Nat.le_mul_of_pos_right _ (by positivity)).trans shifts
    rw [digits, word_eq_ok (by omega)]
    cases text with
    | nil => rfl
    | cons c text =>
      cases isDigit : Letters.hexValue? c with
      | none => simp [row?, isDigit, bind, Except.bind, pure, Except.pure]
      | some digit =>
        have fits : digit < 16 := (hexValue?_eq_some.mp isDigit).1
        have grown : (value * 16 + digit + 1) * 16 ^ count ≤ 2 ^ 32 :=
          (Nat.mul_le_mul_right _ (by omega)).trans shifts
        simp [row?, isDigit, bind, Except.bind, word_eq_ok (by omega : value * 16 + digit < 2 ^ 32),
          ih grown]

lemma row?_two (a b : Char) (rest : Text) :
    row? 0 2 (a :: b :: rest) = (hex2? a b).map fun value => (value, rest) := by
  cases isA : Letters.hexValue? a <;> cases isB : Letters.hexValue? b <;>
    simp [row?, hex2?, isA, isB]

lemma row?_four (a b c d : Char) (rest : Text) :
    row? 0 4 (a :: b :: c :: d :: rest) = (hex4? a b c d).map fun value => (value, rest) := by
  cases isA : Letters.hexValue? a <;> cases isB : Letters.hexValue? b <;> cases isC :
    Letters.hexValue? c <;>
    cases isD : Letters.hexValue? d <;> simp [row?, hex4?, hex2?, isA, isB, isC, isD]
  omega

lemma row?_short {value count : Nat} (short : text.length < count) :
    row? value count text = none := by
  induction text generalizing value count with
  | nil => cases count <;> [simp at short; rfl]
  | cons c text ih =>
    cases count with
    | zero => simp at short
    | succ count =>
      have later (digit : Nat) : row? (value * 16 + digit) count text = none :=
        ih (by simpa using short)
      simp [row?, later]

lemma braced_settles {value count : Nat} (small : value ≤ 0x10ffff) :
    Settles (braced value count text) (braced? value count text)
      (2 ^ 31 ≤ count + text.length) := by
  induction text generalizing value count with
  | nil => exact .inl rfl
  | cons c text ih =>
    by_cases brace : c = '}'
    · subst brace
      exact .inl (by rw [braced, if_pos rfl, braced?]; rfl)
    · rw [braced, if_neg brace, word_eq_ok (by omega), braced?_cons brace]
      cases isDigit : Letters.hexValue? c with
      | none => exact .inl rfl
      | some digit =>
        have fits : digit < 16 := (hexValue?_eq_some.mp isDigit).1
        refine .bind (.inl rfl) (.bind (.inl (word_eq_ok (by omega))) ?_)
        rw [Option.bind_some, length_cons]
        by_cases large : 0x10ffff < value * 16 + digit
        · rw [if_pos large, if_neg (by omega)]
          exact .inl rfl
        · rw [if_neg large, if_pos (by omega)]
          by_cases counts : count + 1 < 2 ^ 31
          · refine .bind (.inl (if_pos counts)) ((ih (by omega)).mono fun tight => ?_)
            omega
          · rw [counted, below, if_neg counts]
            exact .inr ⟨rfl, by omega⟩

lemma codeUnit?_eq_row? {text : Text} (noBrace : ∀ rest, text ≠ '{' :: rest) :
    codeUnit? text = row? 0 4 text := by
  unfold codeUnit?
  split
  · exact absurd rfl (noBrace _)
  · exact (row?_four ..).symm
  · rename_i noFour
    refine (row?_short ?_).symm
    by_contra long
    rcases text with _ | ⟨a, _ | ⟨b, _ | ⟨c, _ | ⟨d, rest⟩⟩⟩⟩ <;> simp at long
    exact noFour a b c d rest rfl

lemma codeUnit_settles (text : Text) :
    Settles (codeUnit text) (codeUnit? text) (2 ^ 31 < text.length) := by
  unfold codeUnit
  split
  · refine (braced_settles (Nat.zero_le _)).mono fun tight => ?_
    rw [length_cons]
    omega
  · rename_i noBrace
    rw [codeUnit?_eq_row? noBrace]
    exact .inl (digits_eq_ok (by decide))

lemma joinSurrogates_eq_ok {high low : Nat} (isHigh : isHighSurrogate high)
    (isLow : isLowSurrogate low) :
    joinSurrogates high low = .ok (Cooked.joinSurrogates high low) := by
  simp only [isHighSurrogate, isLowSurrogate, Bool.and_eq_true, decide_eq_true_eq] at isHigh isLow
  obtain ⟨high, rfl⟩ := Nat.exists_eq_add_of_le isHigh.1
  obtain ⟨low, rfl⟩ := Nat.exists_eq_add_of_le isLow.1
  have upper : minus (0xd800 + high) 0xd800 = .ok high := by simp [minus]
  have lower : minus (0xdc00 + low) 0xdc00 = .ok low := by simp [minus]
  have shifted : word (high * 0x400) = .ok (high * 0x400) := word_eq_ok (by omega)
  have based : word (0x10000 + high * 0x400) = .ok (0x10000 + high * 0x400) := word_eq_ok (by omega)
  have whole : word (0x10000 + high * 0x400 + low) = .ok (0x10000 + high * 0x400 + low) :=
    word_eq_ok (by omega)
  simp only [joinSurrogates, upper, lower, shifted, based, whole, joinSurrogates_add, bind,
    Except.bind]

lemma unicode_settles (text : Text) :
    Settles (unicode text) (unicode? text) (2 ^ 31 < text.length) := by
  unfold unicode unicode?
  refine .bind (codeUnit_settles text) ?_
  cases first : codeUnit? text with
  | none => exact .inl rfl
  | some found =>
    obtain ⟨code, rest⟩ := found
    have shorter := length_codeUnit? first
    simp only
    by_cases isHigh : isHighSurrogate code
    · rw [if_pos isHigh, if_pos isHigh]
      by_cases paired : ∃ rest', rest = '\\' :: 'u' :: rest'
      · obtain ⟨rest', rfl⟩ := paired
        simp only [length_cons] at shorter ⊢
        refine .bind ((codeUnit_settles rest').mono fun tight => by omega) ?_
        cases second : codeUnit? rest' with
        | none => exact .inl rfl
        | some found =>
          obtain ⟨low, rest''⟩ := found
          simp only
          by_cases isLow : isLowSurrogate low
          · rw [if_pos isLow, if_pos isLow]
            exact .bind (.inl (joinSurrogates_eq_ok isHigh isLow)) (.inl rfl)
          · rw [if_neg isLow, if_neg isLow]
            exact .inl rfl
      · -- both decoders look for the other half, and neither finds it
        split
        all_goals try split
        all_goals first | exact absurd ⟨_, rfl⟩ paired | exact .inl rfl
    · rw [if_neg isHigh, if_neg isHigh]
      by_cases isLow : isLowSurrogate code
      · rw [if_pos isLow, if_pos isLow]
        exact .inl rfl
      · rw [if_neg isLow, if_neg isLow]
        exact .inl rfl

lemma escape_settles (text : Text) :
    Settles (escape text) (escape? text) (2 ^ 31 < text.length) := by
  unfold escape
  split
  · rename_i rest
    refine .bind (.inl (digits_eq_ok (by decide))) (.inl (congrArg _ ?_))
    rcases rest with _ | ⟨a, _ | ⟨b, rest⟩⟩
    · rfl
    · rw [row?_short (by simp)]
      rfl
    · rw [row?_two, escape?, Option.map_map]
      rfl
  · rename_i rest
    refine .bind ((unicode_settles rest).mono fun tight => ?_) (.inl ?_)
    · rw [length_cons]
      omega
    · rw [escape?]
      rfl
  · exact .inl rfl

end Checked

open Checked (Settles)

/-- The cooked form of a string body, computed in 32 bits. -/
def Checked.cook : Text → Checked (Option Text)
  | [] => return some []
  | '\\' :: rest =>
    match _h : escape rest with
    | .error failed => .error failed
    | .ok none => return none
    | .ok (some (value, rest')) => do return (← cook rest').map (value ++ ·)
  | c :: rest => do return (← cook rest).map (c :: ·)
termination_by text => text.length
decreasing_by
  · have shorter := length_escape? ((escape_settles rest).eq_of_ok _h).symm
    simp only [length_cons]; omega
  · simp

namespace Checked

variable {rest rest' value : Text}

lemma cook_of_error {failed : Overflow} (read : escape rest = .error failed) :
    cook ('\\' :: rest) = .error failed := by
  rw [cook]
  split <;> simp_all

lemma cook_of_none (read : escape rest = .ok none) : cook ('\\' :: rest) = .ok none := by
  rw [cook]
  split <;> simp_all [pure, Except.pure]

lemma cook_of_some (read : escape rest = .ok (some (value, rest'))) :
    cook ('\\' :: rest) = do return (← cook rest').map (value ++ ·) := by
  rw [cook]
  split <;> simp_all

lemma cook_settles (body : Text) :
    Settles (cook body) (cook? body) (2 ^ 31 < body.length) := by
  fun_induction cook? body with
  | case1 =>
    rw [cook]
    exact .inl rfl
  | case2 rest noEscape =>
    rcases escape_settles rest with read | ⟨failed, tight⟩
    · exact .inl (cook_of_none (read.trans (congrArg _ noEscape)))
    · exact .inr ⟨cook_of_error failed, tight.trans (Nat.lt_succ_self _)⟩
  | case3 rest value rest' isEscape ih =>
    have shorter := length_escape? isEscape
    rcases escape_settles rest with read | ⟨failed, tight⟩
    · rw [cook_of_some (read.trans (congrArg _ isEscape))]
      refine .bind (ih.mono fun tight => ?_) (.inl rfl)
      rw [length_cons]
      omega
    · exact .inr ⟨cook_of_error failed, tight.trans (Nat.lt_succ_self _)⟩
  | case4 c rest noBackslash ih =>
    rw [cook]
    · exact .bind (ih.mono fun tight => tight.trans (Nat.lt_succ_self _)) (.inl rfl)
    · exact noBackslash

/-- A row of zeros that the counter cannot count. -/
lemma braced_zeros {n count : Nat} (many : 2 ^ 31 ≤ count + n) (some : 0 < n) :
    braced 0 count (List.replicate n '0' ++ text) = .error .overflow := by
  induction n generalizing count with
  | zero => cases some
  | succ n ih =>
    have digit : Letters.hexValue? '0' = .some 0 := by decide
    have step : braced 0 count (List.replicate (n + 1) '0' ++ text) =
        counted count >>= fun count => braced 0 count (List.replicate n '0' ++ text) := by
      rw [replicate_succ, cons_append, braced, digit]
      rfl
    rw [step]
    by_cases counts : count + 1 < 2 ^ 31
    · rw [counted, below, if_pos counts]
      exact ih (by omega) (by omega)
    · rw [counted, below, if_neg counts]
      rfl

/-- Without a limit a row of zeros is the number zero. -/
lemma braced?_zeros (n count : Nat) :
    braced? 0 (count + 1) (List.replicate n '0' ++ '}' :: text) = some (0, text) := by
  induction n generalizing count with
  | zero => simp [braced?]
  | succ n ih =>
    have digit : Letters.hexValue? '0' = .some 0 := by decide
    rw [replicate_succ, cons_append, braced?_cons (by decide), digit, Option.bind_some,
      if_pos (by decide)]
    exact ih (count + 1)

/-- The escape with `n` zeros in braces. -/
def zeros (n : Nat) : Text := '\\' :: 'u' :: '{' :: (List.replicate n '0' ++ ['}'])

lemma cook_zeros {n : Nat} (many : 2 ^ 31 ≤ n) : cook (zeros n) = .error .overflow := by
  refine cook_of_error ?_
  rw [escape, unicode, codeUnit, braced_zeros (by omega) (by omega)]
  rfl

lemma cook?_zeros (n : Nat) : cook? (zeros (n + 1)) = some ['\x00'] := by
  have number : codeUnit? ('{' :: (List.replicate (n + 1) '0' ++ ['}'])) = some (0, []) := by
    rw [codeUnit?, replicate_succ, cons_append, braced?_cons (by decide)]
    exact braced?_zeros n 0
  have read :
      escape? ('u' :: '{' :: (List.replicate (n + 1) '0' ++ ['}'])) = some (['\x00'], []) := by
    rw [escape?, unicode?, number]
    rfl
  rw [zeros, cook?]
  split <;> simp_all [cook?]

end Checked

end PatternLowering.Cooked

namespace PatternLowering

open Cooked

end PatternLowering

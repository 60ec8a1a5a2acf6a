import PatternLowering.Text.Letters
import PatternLowering.Text

/-!
# String literals

The body of a string literal is a sequence of units, each a plain character or an escape; its
cooked form is the concatenation of their values. A body with a malformed escape has none.
-/

namespace PatternLowering.Cooked

/-- The number written by the digits up to a closing brace: at least one digit, at most U+10FFFF. -/
def braced? (value digits : Nat) : Text → Option (Nat × Text)
  | [] => none
  | '}' :: rest => if 0 < digits then some (value, rest) else none
  | c :: rest =>
    match Letters.hexValue? c with
    | none => none
    | some d =>
      if value * 16 + d ≤ 0x10ffff then braced? (value * 16 + d) (digits + 1) rest else none

def hex2? (a b : Char) : Option Nat := do
  return (← Letters.hexValue? a) * 16 + (← Letters.hexValue? b)

def hex4? (a b c d : Char) : Option Nat := do
  return (← hex2? a b) * 256 + (← hex2? c d)

/-- The number after `\u`: four digits, or any number of them in braces. -/
def codeUnit? : Text → Option (Nat × Text)
  | '{' :: rest => braced? 0 0 rest
  | a :: b :: c :: d :: rest => (hex4? a b c d).map fun value => (value, rest)
  | _ => none

def isHighSurrogate (code : Nat) : Bool := 0xd800 ≤ code && code < 0xdc00

def isLowSurrogate (code : Nat) : Bool := 0xdc00 ≤ code && code < 0xe000

def joinSurrogates (high low : Nat) : Nat := 0x10000 + (high - 0xd800) * 0x400 + (low - 0xdc00)

/-- The character after `\u`. A high surrogate is joined with the low one that must follow it as
another `\u` escape; a low surrogate alone is no character. -/
def unicode? (text : Text) : Option (Char × Text) :=
  match codeUnit? text with
  | none => none
  | some (code, rest) =>
    if isHighSurrogate code then
      match rest with
      | '\\' :: 'u' :: rest =>
        match codeUnit? rest with
        | none => none
        | some (low, rest) =>
          if isLowSurrogate low then some (Char.ofNat (joinSurrogates code low), rest) else none
      | _ => none
    else if isLowSurrogate code then none
    else some (Char.ofNat code, rest)

/-- The characters that stand for another one after a backslash. -/
def simpleEscape? : Char → Option Char
  | 'n' => some '\n'
  | 't' => some '\t'
  | 'r' => some '\r'
  | 'b' => some '\x08'
  | 'v' => some '\x0b'
  | 'f' => some '\x0c'
  | _ => none

/-- The value of the escape whose text follows a backslash, and what comes after it. A line break is
dropped; a digit stands for itself only as a zero that no digit follows. -/
def escape? : Text → Option (Text × Text)
  | [] => none
  | 'x' :: a :: b :: rest => (hex2? a b).map fun value => ([Char.ofNat value], rest)
  | 'u' :: rest => (unicode? rest).map fun (c, rest) => ([c], rest)
  | '\r' :: '\n' :: rest => some ([], rest)
  | c :: rest =>
    match simpleEscape? c with
    | some value => some ([value], rest)
    | none =>
      if c = '0' ∧ ¬ (rest.head?.any Char.isDigit) then some (['\x00'], rest)
      else if c.isDigit ∨ c = 'x' then none
      else if c = '\r' ∨ c = '\n' ∨ c = '\u2028' ∨ c = '\u2029' then some ([], rest)
      else some ([c], rest)

theorem length_braced? {value digits code : Nat} {text rest : Text}
    (h : braced? value digits text = some (code, rest)) : rest.length < text.length := by
  induction text generalizing value digits with
  | nil => simp [braced?] at h
  | cons c text ih =>
    unfold braced? at h
    split at h
    · simp at h
    · rename_i heq
      obtain ⟨rfl, rfl⟩ := List.cons.inj heq
      split at h <;> simp at h
      obtain ⟨_, rfl⟩ := h
      simp
    · rename_i heq
      obtain ⟨rfl, rfl⟩ := List.cons.inj heq
      split at h
      · simp at h
      · split at h
        · have := ih h
          simp only [List.length_cons]; omega
        · simp at h

theorem length_codeUnit? {text rest : Text} {code : Nat}
    (h : codeUnit? text = some (code, rest)) : rest.length < text.length := by
  unfold codeUnit? at h
  split at h
  · have := length_braced? h
    simp only [List.length_cons]; omega
  · simp only [Option.map_eq_some_iff, Prod.mk.injEq] at h
    obtain ⟨_, _, _, rfl⟩ := h
    simp only [List.length_cons]; omega
  · simp at h

theorem length_unicode? {text rest : Text} {c : Char}
    (h : unicode? text = some (c, rest)) : rest.length < text.length := by
  unfold unicode? at h
  split at h
  · simp at h
  · rename_i code tail first
    have shorter := length_codeUnit? first
    split at h
    · split at h
      · rename_i after
        split at h
        · simp at h
        · rename_i second
          have := length_codeUnit? second
          split at h <;> simp at h
          obtain ⟨_, rfl⟩ := h
          simp only [List.length_cons] at shorter; omega
      · simp at h
    · split at h <;> simp at h
      obtain ⟨_, rfl⟩ := h
      exact shorter

theorem length_escape? {text value rest : Text}
    (h : escape? text = some (value, rest)) : rest.length < text.length := by
  unfold escape? at h
  split at h
  · simp at h
  · simp only [Option.map_eq_some_iff, Prod.mk.injEq] at h
    obtain ⟨_, _, _, rfl⟩ := h
    simp only [List.length_cons]; omega
  · simp only [Option.map_eq_some_iff, Prod.exists, Prod.mk.injEq] at h
    obtain ⟨_, _, found, _, rfl⟩ := h
    have := length_unicode? found
    simp only [List.length_cons]; omega
  · simp at h
    obtain ⟨_, rfl⟩ := h
    simp only [List.length_cons]; omega
  · repeat' split at h
    all_goals
      simp at h
      try (obtain ⟨_, rfl⟩ := h; simp)

/-- The cooked form of a string body. -/
def cook? : Text → Option Text
  | [] => some []
  | '\\' :: rest =>
    match _h : escape? rest with
    | none => none
    | some (value, rest') => (cook? rest').map (value ++ ·)
  | c :: rest => (cook? rest).map (c :: ·)
termination_by text => text.length
decreasing_by
  · have := length_escape? _h
    simp only [List.length_cons]; omega
  · simp

end PatternLowering.Cooked

import PatternLowering.Proofs.Tokens

/-!
# Reading the same stretch in two texts

A stretch of text that is followed by a blank is read the same wherever it stands. Whatever the
scanner finds there it finds before it looks behind the blank, unless a token or a gap goes on past
the blank.
-/

namespace PatternLowering

open List

/-- Two texts share a stretch, which stands `shift` bytes later in the first of them and starts at
`base` in the second. Both have a blank behind it. -/
structure Twin where
  shift : Nat
  base : Nat
  after : Text
  after' : Text

namespace Cursor

/-- The blank behind the stretch is still ahead. -/
def Before (w : Twin) (c : Cursor) : Prop := ' ' :: w.after <:+ c.rest

/-- The same place of the stretch in the two texts. -/
def Alike (w : Twin) (c c' : Cursor) : Prop :=
  ∃ ahead, c.rest = ahead ++ ' ' :: w.after ∧ c'.rest = ahead ++ ' ' :: w.after' ∧
    c.offset = c'.offset + w.shift

variable {w : Twin} {c c' later later' : Cursor}

lemma Reaches.rest_suffix (reaches : c.Reaches later) : later.rest <:+ c.rest := by
  obtain ⟨taken, rest, _⟩ := reaches
  exact ⟨taken, rest.symm⟩

lemma Before.of_reaches (before : later.Before w) (reaches : c.Reaches later) : c.Before w :=
  List.IsSuffix.trans before reaches.rest_suffix

/-- Whoever is behind the blank does not get back. -/
lemma not_before {offset : Nat} (reaches : Reaches ⟨offset, w.after⟩ later) : ¬ later.Before w := by
  intro before
  have := before.length_le
  have := reaches.rest_suffix.length_le
  simp only [length_cons] at *
  omega

lemma Alike.mk {offset offset' : Nat} (ahead : Text) (shifted : offset = offset' + w.shift) :
    Alike w ⟨offset, ahead ++ ' ' :: w.after⟩ ⟨offset', ahead ++ ' ' :: w.after'⟩ :=
  ⟨ahead, rfl, rfl, shifted⟩

/-- The text between two places is the same. -/
lemma Alike.textUpTo (alike : c.Alike w c') (alike' : later.Alike w later')
    (reaches : c.Reaches later) : c'.Reaches later' ∧ c'.textUpTo later' = c.textUpTo later := by
  obtain ⟨ahead, rest, rest', shifted⟩ := alike
  obtain ⟨ahead', restLater, restLater', shifted'⟩ := alike'
  obtain ⟨taken, cut, offset⟩ := reaches
  have split : ahead = taken ++ ahead' := by
    rw [rest, restLater, ← append_assoc] at cut
    exact append_cancel_right cut
  have cut' : c'.rest = taken ++ later'.rest := by rw [rest', restLater', split, append_assoc]
  have offset' : later'.offset = c'.offset + Text.size taken := by omega
  refine ⟨⟨taken, cut', offset'⟩, ?_⟩
  have width : later.offset - c.offset = Text.size taken := by omega
  have width' : later'.offset - c'.offset = Text.size taken := by omega
  rw [Cursor.textUpTo, Cursor.textUpTo, width, width', cut, cut', Text.take?_append,
    Text.take?_append]

lemma Alike.advance (alike : c.Alike w c') (before : c.advance.Before w) :
    c.advance.Alike w c'.advance := by
  obtain ⟨offset, rest⟩ := c
  obtain ⟨offset', rest'⟩ := c'
  obtain ⟨ahead, rfl, rfl, shifted⟩ := alike
  cases ahead with
  | nil => exact absurd before (not_before (.refl _))
  | cons x ahead => exact .mk ahead (by dsimp only at shifted; omega)

lemma Alike.skip {count : Nat} (alike : c.Alike w c') (before : (c.skip count).Before w) :
    (c.skip count).Alike w (c'.skip count) := by
  induction count generalizing c c' with
  | zero => exact alike
  | succ count ih =>
    have step : c.advance.Before w := before.of_reaches (c.advance.reaches_skip count)
    exact ih (alike.advance step) before

lemma Alike.skipWhile {p : Char → Bool} (alike : c.Alike w c') (before : (c.skipWhile p).Before w) :
    (c.skipWhile p).Alike w (c'.skipWhile p) := by
  obtain ⟨offset, rest⟩ := c
  obtain ⟨offset', rest'⟩ := c'
  obtain ⟨ahead, rfl, rfl, shifted⟩ := alike
  unfold Cursor.skipWhile at before ⊢
  dsimp only at shifted before ⊢
  induction ahead generalizing offset offset' with
  | nil =>
    simp only [nil_append, skipWhileFrom] at before ⊢
    split
    · rw [if_pos ‹_›] at before
      exact absurd before (not_before (reaches_skipWhile ⟨_, w.after⟩ p))
    · exact .mk [] shifted
  | cons x ahead ih =>
    simp only [cons_append, skipWhileFrom] at before ⊢
    split
    · rw [if_pos ‹_›] at before
      exact ih _ _ before (by omega)
    · exact .mk (x :: ahead) shifted

lemma Alike.head? (alike : c.Alike w c') : c'.head? = c.head? := by
  obtain ⟨ahead, rest, rest', _⟩ := alike
  rw [Cursor.head?, Cursor.head?, rest, rest']
  cases ahead <;> rfl

end Cursor

open Cursor (Alike Before)

/-- What stands before the blank decides how the text goes on. -/
lemma Text.cons_of_append_blank {ahead after rest : Text} {x : Char} (other : x ≠ ' ')
    (same : ahead ++ ' ' :: after = x :: rest) : ∃ rest', ahead = x :: rest' := by
  cases ahead with
  | nil => exact absurd (List.cons.inj same).1.symm other
  | cons y rest' => exact ⟨rest', by rw [(List.cons.inj same).1]⟩

/-- The outcome of skipping the same gap. -/
structure Gap.Alike (w : Twin) (gap gap' : Gap) : Prop where
  stop : gap.stop.Alike w gap'.stop
  lineBreak : gap'.lineBreak = gap.lineBreak
  closed : gap.openComment = none
  closed' : gap'.openComment = none

namespace Gap

variable {w : Twin}

/-- Where in a gap one is: a comment may start elsewhere in the other text. -/
inductive Inside.Alike : Inside → Inside → Prop where
  | spaces : Alike .spaces .spaces
  | lineComment : Alike .lineComment .lineComment
  | blockComment {start start' : Nat} {breaks : Bool} :
    Alike (.blockComment start breaks) (.blockComment start' breaks)

/-- A character that opens no comment before the blank opens none with it. -/
lemma skipFrom_spaces {c : Char} {rest : Text}
    (noLine : ∀ rest', c = '/' → rest = '/' :: rest' → False)
    (noBlock : ∀ rest', c = '/' → rest = '*' :: rest' → False) (seen : Bool) (offset : Nat)
    (after : Text) :
    skipFrom .spaces seen offset (c :: rest ++ ' ' :: after) =
      if isLineTerminator c then skipFrom .spaces true (offset + c.utf8Size) (rest ++ ' ' :: after)
      else if isSpacing c then skipFrom .spaces seen (offset + c.utf8Size) (rest ++ ' ' :: after)
      else ⟨⟨offset, c :: rest ++ ' ' :: after⟩, seen, none⟩ := by
  rw [cons_append, skipFrom]
  · intro rest' slash same
    obtain ⟨rest', again⟩ := Text.cons_of_append_blank (by decide) same
    exact noLine rest' slash again
  · intro rest' slash same
    obtain ⟨rest', again⟩ := Text.cons_of_append_blank (by decide) same
    exact noBlock rest' slash again

lemma skipFrom_blockComment {c : Char} {rest : Text}
    (goesOn : ∀ rest', c = '*' → rest = '/' :: rest' → False) (start : Nat) (breaks seen : Bool)
    (offset : Nat) (after : Text) :
    skipFrom (.blockComment start breaks) seen offset (c :: rest ++ ' ' :: after) =
      skipFrom (.blockComment start (breaks || isLineEnd c)) seen (offset + c.utf8Size)
        (rest ++ ' ' :: after) := by
  rw [cons_append, skipFrom]
  intro rest' star same
  obtain ⟨rest', again⟩ := Text.cons_of_append_blank (by decide) same
  exact goesOn rest' star again

lemma skipFrom_alike {inside inside' : Inside} (same : inside.Alike inside') (seen : Bool)
    {offset offset' : Nat} (shifted : offset = offset' + w.shift) (ahead : Text)
    (before : (skipFrom inside seen offset (ahead ++ ' ' :: w.after)).stop.Before w) :
    (skipFrom inside seen offset (ahead ++ ' ' :: w.after)).Alike w
      (skipFrom inside' seen offset' (ahead ++ ' ' :: w.after')) := by
  fun_induction skipFrom inside seen offset ahead generalizing inside' offset' with
  | case1 inside seen offset =>
    -- Wherever one is, the blank is passed.
    have past (inside : Inside) (seen : Bool) (offset : Nat) :
        ¬ (skipFrom inside seen offset w.after).stop.Before w :=
      Cursor.not_before (reaches_skipFrom inside seen offset w.after)
    have blank : isLineTerminator ' ' = false ∧ isSpacing ' ' = true ∧ isLineEnd ' ' = false := by
      decide
    cases inside <;> simp [skipFrom, blank, past] at before
  | case2 seen offset rest ih =>
    cases same
    simp only [cons_append, skipFrom] at before ⊢
    exact ih .lineComment (by omega) before
  | case3 seen offset rest ih =>
    cases same
    simp only [cons_append, skipFrom] at before ⊢
    exact ih .blockComment (by omega) before
  | case4 seen offset c rest noLine noBlock ends ih =>
    cases same
    simp only [skipFrom_spaces noLine noBlock, if_pos ends] at before ⊢
    exact ih .spaces (by omega) before
  | case5 seen offset c rest noLine noBlock goesOn blank ih =>
    cases same
    simp only [skipFrom_spaces noLine noBlock, if_neg goesOn, if_pos blank] at before ⊢
    exact ih .spaces (by omega) before
  | case6 seen offset c rest noLine noBlock goesOn full =>
    cases same
    rw [skipFrom_spaces noLine noBlock, skipFrom_spaces noLine noBlock, if_neg goesOn, if_neg full,
      if_neg goesOn, if_neg full]
    exact ⟨.mk (c :: rest) shifted, rfl, rfl, rfl⟩
  | case7 seen offset c rest ends ih =>
    cases same
    simp only [cons_append, skipFrom, ends, if_true] at before ⊢
    exact ih .spaces (by omega) before
  | case8 seen offset c rest goesOn ih =>
    cases same
    simp only [cons_append, skipFrom, goesOn] at before ⊢
    exact ih .lineComment (by omega) before
  | case9 start breaks seen offset rest ih =>
    cases same
    simp only [cons_append, skipFrom] at before ⊢
    exact ih .spaces (by omega) before
  | case10 start breaks seen offset c rest goesOn ih =>
    cases same
    simp only [skipFrom_blockComment goesOn] at before ⊢
    exact ih .blockComment (by omega) before

lemma skip_alike {c c' : Cursor} (alike : c.Alike w c') (before : (skip c).stop.Before w) :
    (skip c).Alike w (skip c') := by
  obtain ⟨offset, rest⟩ := c
  obtain ⟨offset', rest'⟩ := c'
  obtain ⟨ahead, rfl, rfl, shifted⟩ := alike
  exact skipFrom_alike .spaces false shifted ahead before

end Gap

/-- The same lexeme. -/
structure Lexeme.Alike (w : Twin) (lexeme lexeme' : Lexeme) : Prop where
  kind : lexeme'.kind = lexeme.kind
  stop : lexeme.stop.Alike w lexeme'.stop
  error : lexeme'.error = lexeme.error

namespace Lexeme

variable {w : Twin} {c c' : Cursor}

lemma word_alike (alike : c.Alike w c') (before : (word c).stop.Before w) :
    (word c).Alike w (word c') := by
  have reaches : c.Reaches (c.skipWhile isNamePart) := c.reaches_skipWhile isNamePart
  rw [word_stop] at before
  have stop := alike.skipWhile before
  have text := (alike.textUpTo stop reaches).2
  unfold word
  dsimp only
  rw [text]
  split
  · exact ⟨rfl, stop, rfl⟩
  · exact ⟨rfl, stop, rfl⟩

lemma fraction_alike (alike : c.Alike w c') (before : (fraction c).Before w) :
    (fraction c).Alike w (fraction c') := by
  unfold fraction at before ⊢
  rw [alike.head?]
  split
  · rw [if_pos ‹_›] at before
    have step : c.advance.Before w := before.of_reaches (c.advance.reaches_skipWhile _)
    exact (alike.advance step).skipWhile before
  · exact alike

/-- A blank takes part in no exponent. -/
lemma exponent_blank (offset : Nat) (after : Text) :
    exponent ⟨offset, ' ' :: after⟩ = ⟨offset, ' ' :: after⟩ := by
  rcases after with _ | ⟨x, _ | ⟨y, after⟩⟩ <;> simp [exponent]

lemma exponent_letter_blank (offset : Nat) (e : Char) (after : Text) :
    exponent ⟨offset, e :: ' ' :: after⟩ = ⟨offset, e :: ' ' :: after⟩ := by
  rcases after with _ | ⟨x, after⟩ <;> simp [exponent]

lemma exponent_alike (alike : c.Alike w c') (before : (exponent c).Before w) :
    (exponent c).Alike w (exponent c') := by
  have same := alike
  obtain ⟨offset, rest⟩ := c
  obtain ⟨offset', rest'⟩ := c'
  obtain ⟨ahead, rfl, rfl, shifted⟩ := alike
  rcases ahead with _ | ⟨e, _ | ⟨sign, ahead⟩⟩
  · rw [nil_append, nil_append, exponent_blank, exponent_blank]
    exact same
  · rw [cons_append, cons_append, nil_append, nil_append, exponent_letter_blank,
      exponent_letter_blank]
    exact same
  · -- The third character is the same in both texts, too.
    obtain ⟨d, later, later', third, third'⟩ : ∃ d later later',
        ahead ++ ' ' :: w.after = d :: later ∧ ahead ++ ' ' :: w.after' = d :: later' := by
      cases ahead with
      | nil => exact ⟨' ', _, _, rfl, rfl⟩
      | cons d ahead => exact ⟨d, _, _, rfl, rfl⟩
    have skipped := @Cursor.Alike.skip w _ _ 2 same
    have stepped := same.advance
    simp only [cons_append, third, third', exponent] at before same skipped stepped ⊢
    split
    · rw [if_pos ‹_›] at before
      exact (skipped (before.of_reaches (Cursor.reaches_skipWhile _ _))).skipWhile before
    · rw [if_neg ‹_›] at before
      split
      · rw [if_pos ‹_›] at before
        exact (stepped (before.of_reaches (Cursor.reaches_skipWhile _ _))).skipWhile before
      · exact same

/-- The text starts a hexadecimal number. -/
def StartsHex (text : Text) : Prop := ∃ x tail, (x = 'x' ∨ x = 'X') ∧ text = '0' :: x :: tail

lemma startsHex_blank (ahead after : Text) :
    StartsHex (ahead ++ ' ' :: after) ↔ StartsHex ahead := by
  constructor
  · rintro ⟨x, tail, isX, same⟩
    obtain ⟨rest, rfl⟩ := Text.cons_of_append_blank (by decide) same
    have other : x ≠ ' ' := by rcases isX with rfl | rfl <;> decide
    obtain ⟨rest', rfl⟩ := Text.cons_of_append_blank other (List.cons.inj same).2
    exact ⟨x, rest', isX, rfl⟩
  · rintro ⟨x, tail, isX, rfl⟩
    exact ⟨x, tail ++ ' ' :: after, isX, rfl⟩

lemma number_stop_hex (hex : StartsHex c.rest) :
    (number c).stop = (c.skip 2).skipWhile Letters.isHexDigit := by
  obtain ⟨x, tail, rfl | rfl, rest⟩ := hex <;> simp [number, rest]

lemma number_stop_decimal (decimal : ¬ StartsHex c.rest) :
    (number c).stop = exponent (fraction (c.skipWhile Char.isDigit)) := by
  unfold number
  split
  · rename_i tail rest
    exact absurd ⟨'x', tail, .inl rfl, rest⟩ decimal
  · rename_i tail rest
    exact absurd ⟨'X', tail, .inr rfl, rest⟩ decimal
  · rfl

lemma number_alike (alike : c.Alike w c') (before : (number c).stop.Before w) :
    (number c).Alike w (number c') := by
  refine ⟨rfl, ?_, rfl⟩
  have same : StartsHex c'.rest ↔ StartsHex c.rest := by
    obtain ⟨ahead, rest, rest', _⟩ := alike
    rw [rest, rest', startsHex_blank, startsHex_blank]
  by_cases hex : StartsHex c.rest
  · rw [number_stop_hex hex] at before ⊢
    rw [number_stop_hex (same.mpr hex)]
    exact (alike.skip (before.of_reaches (Cursor.reaches_skipWhile _ _))).skipWhile before
  · rw [number_stop_decimal hex] at before ⊢
    rw [number_stop_decimal fun hex' => hex (same.mp hex')]
    have point := before.of_reaches (reaches_exponent _)
    have digits := alike.skipWhile (point.of_reaches (reaches_fraction _))
    exact exponent_alike (fraction_alike digits point) before

/-- A character that is no backslash stands for itself. -/
lemma stringEnd_plain {quote c : Char} (plain : c ≠ '\\') (offset : Nat) (rest : Text) :
    stringEnd quote offset (c :: rest) =
      if isLineEnd c then (⟨offset, c :: rest⟩, false)
      else if c = quote then (⟨offset + c.utf8Size, rest⟩, true)
      else stringEnd quote (offset + c.utf8Size) rest := by
  rw [stringEnd]
  · exact fun _ same _ => plain same
  · exact fun _ _ same _ => plain same

/-- A backslash takes the character behind it along. -/
lemma stringEnd_escape {quote c : Char} {rest : Text}
    (single : ∀ rest', c = '\r' → rest = '\n' :: rest' → False) (offset : Nat) (after : Text) :
    stringEnd quote offset ('\\' :: c :: (rest ++ ' ' :: after)) =
      stringEnd quote (offset + 1 + c.utf8Size) (rest ++ ' ' :: after) := by
  rw [stringEnd]
  intro rest' isReturn same
  obtain ⟨rest', again⟩ := Text.cons_of_append_blank (by decide) same
  exact single rest' isReturn again

lemma stringEnd_alike (quote : Char) {offset offset' : Nat} (shifted : offset = offset' + w.shift)
    (ahead : Text) (before : (stringEnd quote offset (ahead ++ ' ' :: w.after)).1.Before w) :
    (stringEnd quote offset (ahead ++ ' ' :: w.after)).1.Alike w
        (stringEnd quote offset' (ahead ++ ' ' :: w.after')).1 ∧
      (stringEnd quote offset' (ahead ++ ' ' :: w.after')).2 =
        (stringEnd quote offset (ahead ++ ' ' :: w.after)).2 := by
  have past (offset : Nat) : ¬ (stringEnd quote offset w.after).1.Before w :=
    Cursor.not_before (reaches_stringEnd quote offset w.after)
  -- A backslash right before the blank takes the blank along.
  have escaped {offset : Nat} {c : Char} {rest : Text}
      (last : ∀ c' rest', c = '\\' → rest = c' :: rest' → False)
      (before : (stringEnd quote offset (c :: rest ++ ' ' :: w.after)).1.Before w) : c ≠ '\\' := by
    rintro rfl
    cases rest with
    | nil =>
      rw [cons_append, nil_append, stringEnd] at before
      · exact past _ before
      · exact fun _ isReturn => absurd isReturn (by decide)
    | cons c' rest' => exact last c' rest' rfl rfl
  fun_induction stringEnd quote offset ahead generalizing offset' with
  | case1 offset =>
    rw [nil_append, stringEnd_plain (by decide), if_neg (by decide)] at before
    split at before
    · exact absurd before (Cursor.not_before (.refl _))
    · exact absurd before (past _)
  | case2 offset rest ih =>
    simp only [cons_append, stringEnd] at before ⊢
    exact ih (by omega) before
  | case3 offset c rest single ih =>
    simp only [cons_append, stringEnd_escape single] at before ⊢
    exact ih (by omega) before
  | case4 offset c rest _ last ends =>
    have plain := escaped last before
    simp only [cons_append, stringEnd_plain plain, if_pos ends]
    exact ⟨.mk (c :: rest) shifted, trivial⟩
  | case5 offset rest _ last goesOn =>
    have plain := escaped last before
    simp only [cons_append, stringEnd_plain plain, if_neg goesOn, if_true]
    exact ⟨.mk rest (by omega), trivial⟩
  | case6 offset c rest _ last goesOn inside ih =>
    have plain := escaped last before
    simp only [cons_append, stringEnd_plain plain, if_neg goesOn, if_neg inside] at before ⊢
    exact ih (by omega) before

lemma string_alike {quote : Char} (alike : c.Alike w c') (before : (string quote c).stop.Before w) :
    (string quote c).Alike w (string quote c') := by
  have step : c.advance.Before w := before.of_reaches (reaches_stringEnd quote _ _)
  obtain ⟨ahead, rest, rest', shifted⟩ := alike.advance step
  have before : (stringEnd quote c.advance.offset (ahead ++ ' ' :: w.after)).1.Before w :=
    rest ▸ before
  obtain ⟨stop, closed⟩ := stringEnd_alike quote shifted ahead before
  rw [← rest, ← rest'] at stop closed
  exact ⟨rfl, stop, by simp only [string, closed]⟩

/-- A character that is no backslash in a regular expression. -/
lemma regexEnd_plain {inClass : Bool} {c : Char} (plain : c ≠ '\\') (offset : Nat) (rest : Text) :
    regexEnd inClass offset (c :: rest) =
      if isLineEnd c then (⟨offset, c :: rest⟩, false)
      else if c = '[' then regexEnd true (offset + 1) rest
      else if c = ']' then regexEnd false (offset + 1) rest
      else if c = '/' ∧ ¬ inClass then (⟨offset + 1, rest⟩, true)
      else regexEnd inClass (offset + c.utf8Size) rest := by
  rw [regexEnd]
  exact fun _ _ same _ => plain same

lemma regexEnd_alike (inClass : Bool) {offset offset' : Nat} (shifted : offset = offset' + w.shift)
    (ahead : Text) (before : (regexEnd inClass offset (ahead ++ ' ' :: w.after)).1.Before w) :
    (regexEnd inClass offset (ahead ++ ' ' :: w.after)).1.Alike w
        (regexEnd inClass offset' (ahead ++ ' ' :: w.after')).1 ∧
      (regexEnd inClass offset' (ahead ++ ' ' :: w.after')).2 =
        (regexEnd inClass offset (ahead ++ ' ' :: w.after)).2 := by
  have past (inClass : Bool) (offset : Nat) : ¬ (regexEnd inClass offset w.after).1.Before w :=
    Cursor.not_before (reaches_regexEnd inClass offset w.after)
  have escaped {inClass : Bool} {offset : Nat} {c : Char} {rest : Text}
      (last : ∀ c' rest', c = '\\' → rest = c' :: rest' → False)
      (before : (regexEnd inClass offset (c :: rest ++ ' ' :: w.after)).1.Before w) : c ≠ '\\' := by
    rintro rfl
    cases rest with
    | nil =>
      rw [cons_append, nil_append, regexEnd, if_neg (by decide)] at before
      exact past _ _ before
    | cons c' rest' => exact last c' rest' rfl rfl
  fun_induction regexEnd inClass offset ahead generalizing offset' with
  | case1 inClass offset =>
    have blank : isLineEnd ' ' = false := by decide
    rw [nil_append, regexEnd_plain (by decide)] at before
    simp [blank, past] at before
  | case2 inClass offset c rest ends =>
    simp only [cons_append, regexEnd, if_pos ends]
    exact ⟨.mk (c :: rest) (by omega), trivial⟩
  | case3 inClass offset c rest goesOn ih =>
    simp only [cons_append, regexEnd, if_neg goesOn] at before ⊢
    exact ih (by omega) before
  | case4 inClass offset c rest last ends =>
    have plain := escaped last before
    simp only [cons_append, regexEnd_plain plain, if_pos ends]
    exact ⟨.mk (c :: rest) shifted, trivial⟩
  | case5 inClass offset rest last goesOn ih =>
    simp only [cons_append, regexEnd_plain (show '[' ≠ '\\' by decide), if_neg goesOn,
      if_pos] at before ⊢
    exact ih (by omega) before
  | case6 inClass offset rest last goesOn other ih =>
    simp only [cons_append, regexEnd_plain (show ']' ≠ '\\' by decide), if_neg goesOn, if_neg other,
      if_pos] at before ⊢
    exact ih (by omega) before
  | case7 inClass offset c rest last goesOn opens closes slash =>
    have plain := escaped last before
    simp only [cons_append, regexEnd_plain plain, if_neg goesOn, if_neg opens, if_neg closes,
      if_pos slash]
    exact ⟨.mk rest (by omega), trivial⟩
  | case8 inClass offset c rest last goesOn opens closes other ih =>
    have plain := escaped last before
    simp only [cons_append, regexEnd_plain plain, if_neg goesOn, if_neg opens, if_neg closes,
      if_neg other] at before ⊢
    exact ih (by omega) before

lemma regex_alike (alike : c.Alike w c') (before : (regex c).stop.Before w) :
    (regex c).Alike w (regex c') := by
  have step : c.advance.Before w := before.of_reaches (reaches_regex_advance c)
  obtain ⟨ahead, rest, rest', shifted⟩ := alike.advance step
  have body : (regexEnd false c.advance.offset c.advance.rest).1.Before w := by
    unfold regex at before
    dsimp only at before
    split at before
    · exact before.of_reaches (Cursor.reaches_skipWhile _ _)
    · exact before
  obtain ⟨stop, closed⟩ := regexEnd_alike false shifted ahead (rest ▸ body)
  rw [← rest, ← rest'] at stop closed
  unfold regex at before ⊢
  dsimp only at before ⊢
  rw [closed]
  split
  · rw [if_pos ‹_›] at before
    exact ⟨rfl, stop.skipWhile before, rfl⟩
  · exact ⟨rfl, stop, rfl⟩

lemma startsNumber_blank (c : Char) (ahead after after' : Text) :
    startsNumber (c :: ahead ++ ' ' :: after') = startsNumber (c :: ahead ++ ' ' :: after) := by
  cases ahead <;> rfl

end Lexeme

/-- No punctuator contains a blank. -/
lemma Punctuator.at?_blank (ahead after : Text) : at? (ahead ++ ' ' :: after) = at? ahead := by
  unfold at?
  have same (p : Punctuator) : p.spelling.toList.isPrefixOf (ahead ++ ' ' :: after) =
      p.spelling.toList.isPrefixOf ahead := by
    have none : ' ' ∉ p.spelling.toList := by cases p <;> decide
    rw [Bool.eq_iff_iff, isPrefixOf_iff_prefix, isPrefixOf_iff_prefix]
    constructor
    · intro isPrefix
      rcases prefix_or_prefix_of_prefix isPrefix (prefix_append ahead _) with inside | beyond
      · exact inside
      · obtain ⟨rest, spelled⟩ := beyond
        rw [← spelled, prefix_append_right_inj] at isPrefix
        cases rest with
        | nil => simp [← spelled]
        | cons x rest =>
          obtain ⟨rfl, _⟩ := cons_prefix_cons.mp isPrefix
          exact absurd (by simp [← spelled]) none
    · exact fun isPrefix => isPrefix.trans (prefix_append _ _)
  simp only [same]

namespace Lexeme

variable {w : Twin} {c c' : Cursor}

lemma read_alike (alike : c.Alike w c') (before : (read c).stop.Before w) :
    (read c).Alike w (read c') := by
  obtain ⟨ahead, rest, rest', _⟩ := id alike
  cases ahead with
  | nil =>
    -- A lexeme takes at least the blank.
    have further := lt_read (c := c) (by simp [rest])
    obtain ⟨taken, cut, offset⟩ := reaches_read c
    have short := before.length_le
    have whole := congrArg List.length cut
    simp only [rest, nil_append, length_cons, length_append] at short whole
    obtain rfl : taken = [] := length_eq_zero_iff.mp (by omega)
    simp [offset] at further
  | cons x ahead =>
    unfold read at before ⊢
    rw [rest] at before ⊢
    rw [rest', startsNumber_blank x ahead w.after w.after', Punctuator.at?_blank]
    rw [Punctuator.at?_blank] at before ⊢
    simp only [cons_append] at before ⊢
    split
    · rw [if_pos ‹_›] at before
      exact word_alike alike before
    · rw [if_neg ‹_›] at before
      split
      · rw [if_pos ‹_›] at before
        exact number_alike alike before
      · rw [if_neg ‹_›] at before
        split
        · rw [if_pos ‹_›] at before
          exact string_alike alike before
        · rw [if_neg ‹_›] at before
          cases found : Punctuator.at? (x :: ahead) with
          | some p =>
            rw [found] at before
            exact ⟨rfl, alike.skip before, rfl⟩
          | none =>
            rw [found] at before
            exact ⟨rfl, alike.advance before, rfl⟩

lemma Found.punctuator_spelled {lexeme : Lexeme} {p : Punctuator} (found : Found c lexeme)
    (isPunctuator : lexeme.kind = .punctuator p) :
    p.spelling.toList <+: c.rest ∧ lexeme.stop = c.skip p.spelling.length := by
  cases found with
  | punctuator found =>
    cases isPunctuator
    have spelled := find?_some found
    exact ⟨List.isPrefixOf_iff_prefix.mp spelled, rfl⟩
  | _ => cases isPunctuator

/-- As a regular expression, a token that starts with a slash is at least as long. -/
lemma reaches_regex_of_slash
    (slash : (read c).kind = .punctuator .slash ∨ (read c).kind = .punctuator .slashAssign) :
    (read c).stop.Reaches (regex c).stop := by
  rcases slash with slash | slash
  · obtain ⟨_, stop⟩ := (found_read c).punctuator_spelled slash
    rw [stop]
    exact reaches_regex_advance c
  · obtain ⟨spelled, stop⟩ := (found_read c).punctuator_spelled slash
    obtain ⟨offset, rest⟩ := c
    obtain ⟨rest, rfl⟩ := spelled
    have equals (offset : Nat) : regexEnd false offset ('=' :: rest) =
        regexEnd false (offset + '='.utf8Size) rest := by
      rw [regexEnd_plain (by decide), if_neg (by decide), if_neg (by decide), if_neg (by decide),
        if_neg (by decide)]
    have body := reaches_regexEnd false (offset + '/'.utf8Size + '='.utf8Size) rest
    rw [← equals] at body
    rw [stop]
    change Cursor.Reaches ⟨offset + '/'.utf8Size + '='.utf8Size, rest⟩ _
    unfold regex
    dsimp only
    split
    · exact body.trans (Cursor.reaches_skipWhile _ _)
    · exact body

end Lexeme

namespace Scanner

/-- The scanners stand on the same token of the stretch, and nothing was wrong with it. -/
structure Alike (w : Twin) (s s' : Scanner) : Prop where
  kind : s'.token.kind = s.token.kind
  known : s.token.kind ≠ .unknown
  lineBreak : s'.token.lineBreak = s.token.lineBreak
  start : s.token.start = s'.token.start + w.shift
  stop : s.token.stop = s'.token.stop + w.shift
  starts : s'.token.start = s'.opening.offset
  inside : w.base ≤ s'.opening.offset ∧ s'.opening.offset ≤ s'.closing.offset
  opening : s.opening.Alike w s'.opening
  closing : s.closing.Alike w s'.closing
  lexeme : s'.lexeme = s.lexeme
  clean : s.faults = []
  clean' : s'.faults = []

variable {w : Twin} {s s' : Scanner}

lemma settle_alike {c c' : Cursor} {lexeme lexeme' : Lexeme} {lineBreak : Bool}
    (opening : c.Alike w c') (same : lexeme.Alike w lexeme') (reaches : c.Reaches lexeme.stop)
    (inside : w.base ≤ c'.offset) (known : lexeme.kind ≠ .unknown)
    (clean : (settle c lexeme lineBreak []).faults = []) :
    (settle c lexeme lineBreak []).Alike w (settle c' lexeme' lineBreak []) := by
  obtain ⟨reaches', text⟩ := opening.textUpTo same.stop reaches
  have noError : lexeme.error = none := by
    cases found : lexeme.error with
    | none => rfl
    | some error => simp [settle, found] at clean
  obtain ⟨_, _, _, shifted⟩ := id opening
  obtain ⟨_, _, _, shifted'⟩ := id same.stop
  exact ⟨same.kind, known, rfl, shifted, shifted', rfl, ⟨inside, reaches'.le⟩, opening,
    same.stop, text, clean, by simp [settle, same.error, noError]⟩

lemma Alike.scan (alike : s.Alike w s') (before : s.scan.closing.Before w)
    (clean : s.scan.faults = []) : s.scan.Alike w s'.scan := by
  have known : s.scan.token.kind ≠ .unknown := fun unknown => faults_of_scan_unknown unknown clean
  have reaches := Lexeme.reaches_read (Gap.skip s.closing).stop
  have gap := Gap.skip_alike alike.closing (before.of_reaches reaches)
  have read := Lexeme.read_alike gap.stop before
  have later : w.base ≤ (Gap.skip s'.closing).stop.offset :=
    alike.inside.1.trans (alike.inside.2.trans (Gap.reaches_skip _).le)
  unfold Scanner.scan at known clean ⊢
  simp only [alike.clean, alike.clean', gap.closed, gap.closed', gap.lineBreak, Option.toList_none,
    map_nil, append_nil] at known clean ⊢
  exact settle_alike gap.stop read reaches later known clean

lemma Alike.rescanSlash (alike : s.Alike w s') (before : s.rescanSlash.closing.Before w)
    (clean : s.rescanSlash.faults = []) : s.rescanSlash.Alike w s'.rescanSlash := by
  unfold Scanner.rescanSlash at before clean ⊢
  rw [alike.kind]
  split
  · rw [if_pos ‹_›] at before clean
    have regex := Lexeme.regex_alike alike.opening before
    have known : (Lexeme.regex s.opening).kind ≠ .unknown := by
      simp only [Lexeme.regex]
      split <;> simp
    rw [alike.clean] at clean ⊢
    rw [alike.clean', alike.lineBreak]
    exact settle_alike alike.opening regex (Lexeme.reaches_regex _) alike.inside.1 known clean
  · exact alike

/-- Reading the current token as a regular expression only makes it longer. -/
def Steady (s : Scanner) : Prop := s.closing.Reaches s.rescanSlash.closing

lemma steady_scan (s : Scanner) : s.scan.Steady := by
  unfold Steady Scanner.rescanSlash
  split
  · rename_i slash
    exact Lexeme.reaches_regex_of_slash slash
  · exact .refl _

lemma Steady.takeFaults (steady : s.Steady) : s.takeFaults.2.Steady := by
  have same : s.takeFaults.2.rescanSlash.closing = s.rescanSlash.closing := by
    unfold Scanner.rescanSlash
    split
    · rw [if_pos ‹_›]
      rfl
    · rw [if_neg ‹_›]
      rfl
  unfold Steady
  rw [same]
  exact steady

lemma Steady.rescanSlash (steady : s.Steady) : s.rescanSlash.Steady := by
  rcases s.rescanSlash_cases with isRegex | same
  · have stays : s.rescanSlash.rescanSlash = s.rescanSlash := if_neg (by simp [isRegex])
    rw [Steady, stays]
    exact .refl _
  · rwa [same]

end Scanner

end PatternLowering

import PatternLowering.Proofs.Slices

/-!
# Tokens

The tokens of a text are those that a scanner passes on its way from the first one to the end of the
file. Between two of them it may read a slash again. The text of a token is a slice of the whole.
-/

namespace PatternLowering

lemma Keyword.spelling_of_ofSpelling? {word : String} {k : Keyword}
    (found : ofSpelling? word = some k) : k.spelling = word := by
  have isSpelling := List.find?_some found
  exact eq_of_beq isSpelling

namespace Cursor

/-- The text between two places can be cut out. -/
lemma slice?_of_reaches {text : Text} {c c' : Cursor} (inside : c.In text) (later : c.Reaches c') :
    text.slice? c.offset c'.offset = some (c.textUpTo c') := by
  have here : text.drop? c.offset = some c.rest := inside
  obtain ⟨taken, rest, offset⟩ := later
  have forward : c.offset ≤ c'.offset := by omega
  have width : c'.offset - c.offset = Text.size taken := by omega
  rw [Text.slice?, if_pos forward, here, Option.bind_some, textUpTo, width, rest, Text.take?_append]
  rfl

lemma textUpTo_eq_slice {text : Text} {c c' : Cursor} (inside : c.In text) (later : c.Reaches c') :
    c.textUpTo c' = text.slice c.offset c'.offset := by
  rw [Text.slice, slice?_of_reaches inside later]
  rfl

end Cursor

namespace Lexeme

lemma Found.spelling {c : Cursor} {lexeme : Lexeme} {k : Keyword} (found : Found c lexeme)
    (isKeyword : lexeme.kind = .keyword k) :
    k.spelling = String.ofList (c.textUpTo lexeme.stop) := by
  cases found with
  | keyword more starts spelled =>
    cases isKeyword
    exact Keyword.spelling_of_ofSpelling? spelled
  | _ => cases isKeyword

end Lexeme

namespace Scanner

variable {text : Text} {s s' s'' : Scanner} {tokens tokens' : List Token}

/-- The text of the current token is a slice. -/
lemma Stands.lexeme_eq (stands : s.Stands text) :
    s.lexeme = text.slice s.token.start s.token.stop := by
  rw [lexeme, stands.start, stands.stop]
  exact Cursor.textUpTo_eq_slice stands.opening stands.closing

lemma rescanSlash_cases (s : Scanner) : s.rescanSlash.token.kind = .regex ∨ s.rescanSlash = s := by
  unfold rescanSlash
  split
  · refine .inl ?_
    simp only [settle, Lexeme.regex]
    split <;> rfl
  · exact .inr rfl

/-- A keyword is spelled as it is called. -/
lemma Run.spelling_of_keyword (run : s.Run text) {k : Keyword}
    (isKeyword : s.token.kind = .keyword k) : k.spelling = String.ofList s.lexeme := by
  induction run with
  | first => exact (Lexeme.found_read _).spelling isKeyword
  | scan _ _ => exact (Lexeme.found_read _).spelling isKeyword
  | @rescanSlash s _ ih =>
    rcases s.rescanSlash_cases with isRegex | same
    · cases isKeyword.symm.trans isRegex
    · rw [same] at isKeyword ⊢
      exact ih isKeyword
  | takeFaults _ ih => exact ih isKeyword

/-- From `s` up to `s'` the scanner passed these tokens. -/
inductive Passes (s : Scanner) : List Token → Scanner → Prop where
  | refl : Passes s [] s
  | rescanSlash {tokens : List Token} {s' : Scanner} (before : Passes s tokens s') :
    Passes s tokens s'.rescanSlash
  | scan {tokens : List Token} {s' : Scanner} (before : Passes s tokens s') :
    Passes s (tokens ++ [s'.token]) s'.scan.takeFaults.2

lemma Passes.trans (first : s.Passes tokens s') (second : s'.Passes tokens' s'') :
    s.Passes (tokens ++ tokens') s'' := by
  induction second with
  | refl => rwa [List.append_nil]
  | rescanSlash _ ih => exact .rescanSlash ih
  | scan _ ih =>
    rw [← List.append_assoc]
    exact .scan ih

/-- The first token that is passed is the one the scanner stood on. -/
lemma Passes.start (passes : s.Passes tokens s') (run : s.Run text) : s'.Run text ∧
    if tokens = [] then s'.token.start = s.token.start
    else ∃ token ∈ tokens, token.start = s.token.start := by
  induction passes with
  | refl => exact ⟨run, rfl⟩
  | rescanSlash _ ih =>
    obtain ⟨run', starts⟩ := ih
    refine ⟨.rescanSlash run', ?_⟩
    rw [run'.stands.rescanSlash.2]
    exact starts
  | @scan tokens s' _ ih =>
    obtain ⟨run', starts⟩ := ih
    refine ⟨.takeFaults (.scan run'), ?_⟩
    rw [if_neg (by simp)]
    split at starts
    · exact ⟨s'.token, by simp, starts⟩
    · obtain ⟨token, mem, start⟩ := starts
      exact ⟨token, List.mem_append_left _ mem, start⟩

/-- The tokens that are passed follow one another between the first token and the last. -/
lemma Passes.ordered (passes : s.Passes tokens s') (run : s.Run text) :
    tokens.Pairwise (fun token later => token.stop ≤ later.start) ∧
      s.token.start ≤ s'.token.start ∧ ∀ token ∈ tokens, s.token.start ≤ token.start ∧
        token.start ≤ token.stop ∧ token.stop ≤ s'.token.start := by
  induction passes with
  | refl => exact ⟨.nil, le_rfl, by simp⟩
  | rescanSlash before ih =>
    rw [(before.start run).1.stands.rescanSlash.2]
    exact ih
  | @scan tokens s' before ih =>
    obtain ⟨ordered, forward, inside⟩ := ih
    have stands := (before.start run).1.stands
    have wide := stands.start_le_stop
    have next : s'.token.stop ≤ s'.scan.token.start := by
      rw [stands.stop]
      exact (stands_scan stands.closing_in).2
    refine ⟨?_, forward.trans (wide.trans next), fun token mem => ?_⟩
    · refine List.pairwise_append.mpr ⟨ordered, List.pairwise_singleton _ _, ?_⟩
      rintro token mem _ (_ | ⟨_, ⟨⟩⟩)
      exact (inside token mem).2.2
    · rcases List.mem_append.mp mem with mem | mem
      · obtain ⟨first, width, last⟩ := inside token mem
        exact ⟨first, width, last.trans (wide.trans next)⟩
      · obtain rfl : token = s'.token := List.mem_singleton.mp mem
        exact ⟨forward, wide, next⟩

end Scanner

/-- These are the tokens of the text, up to the end of the file. -/
def Text.Reads (text : Text) (tokens : List Token) : Prop :=
  ∃ s, (Scanner.ofText text).scan.takeFaults.2.Passes tokens s ∧ s.token.kind = .endOfFile

end PatternLowering

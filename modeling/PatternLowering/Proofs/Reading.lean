import PatternLowering.Proofs.Steps
import PatternLowering.Proofs.Walking

/-!
# Reading patterns

A pattern that plays its role in a program can always be read. What is read nests as deeply as the
pattern, and its texts are those of the expressions of the pattern, in order.
-/

namespace PatternLowering

/-- The text that an accessor takes over. -/
def Accessor.written : Accessor → List String
  | computed text => [text]
  | _ => []

/-- The text that a target takes over. -/
def Target.written : Target → List String
  | reference text => [text]
  | named _ => []

namespace Pattern

/-- The texts that a pattern takes over, in order. -/
def written : Pattern → List String
  | done => []
  | leaf accessor target later => accessor.written ++ target.written ++ later.written
  | nested accessor inner later => accessor.written ++ inner.written ++ later.written

/-- How many levels the pattern has. -/
def levels : Pattern → Nat
  | done => 1
  | leaf _ _ later => later.levels
  | nested _ inner later => max (inner.levels + 1) later.levels

lemma levels_pos (pattern : Pattern) : 0 < pattern.levels := by
  induction pattern with
  | done => exact Nat.one_pos
  | leaf _ _ _ ih => exact ih
  | nested _ _ _ _ ih => exact ih.trans_le (le_max_right _ _)

end Pattern

namespace Table

variable {t : Table} {opens closes : Nat → Prop} {buffer : EditBuffer} {n m : NodeId}

/-- The text of a node with the edits inside it applied. -/
def textOf (t : Table) (buffer : EditBuffer) (n : NodeId) : String :=
  ((t.get? n).map fun node => String.ofList (buffer.get node.start node.stop)).getD ""

lemma nodeText_eq_ok {form : Form} (found : t.form? n = some form) :
    Pattern.nodeText t buffer n = .ok (t.textOf buffer n) := by
  obtain ⟨node, isNode, _⟩ := form?_eq_some.mp found
  simp [Pattern.nodeText, textOf, isNode]

/-- The texts of the expressions of a pattern. -/
def expressionTexts (t : Table) (buffer : EditBuffer) (n : NodeId) : List String :=
  (t.patternExpressions n).map (t.textOf buffer)

/-- The part of a pattern that is read for its item or property `q`. -/
structure IsPart (t : Table) (buffer : EditBuffer) (part : Accessor × NodeId) (q : NodeId) :
    Prop where
  fits : ∃ declared, Fits t (.target declared) part.2
  below : part.2 ≤ q
  depth : t.patternDepth q = t.patternDepth part.2
  texts : t.expressionTexts buffer q = part.1.written ++ t.expressionTexts buffer part.2

/-- The pattern is what the node `n` stands for. -/
structure ReadAs (t : Table) (buffer : EditBuffer) (n : NodeId) (pattern : Pattern) : Prop where
  levels : pattern.levels = t.patternDepth n
  texts : pattern.written = t.expressionTexts buffer n

lemma expressionTexts_eq (tidy : t.Tidy opens closes) {form : Form}
    (found : t.form? n = some form) (buffer : EditBuffer) :
    t.expressionTexts buffer n = (form.ownExpressions n).map (t.textOf buffer) ++
      form.nestedParts.flatMap (t.expressionTexts buffer) := by
  rw [expressionTexts, patternExpressions_eq tidy found, List.map_append, List.map_flatMap]
  rfl

lemma keyAccessor_eq_ok {key : NodeId} (fits : Fits t .key key) (buffer : EditBuffer) :
    ∃ accessor, Pattern.keyAccessor t buffer key = .ok accessor ∧ accessor.written = [] := by
  obtain ⟨form, _, found, slots, _⟩ := fits.form
  have literal : ∃ accessor, Pattern.keyAccessor.literalKey t buffer key = .ok accessor ∧
      accessor.written = [] := by
    rw [Pattern.keyAccessor.literalKey, nodeText_eq_ok found]
    exact ⟨_, rfl, rfl⟩
  unfold Pattern.keyAccessor
  rw [found]
  cases form with
  | identifier name => exact ⟨_, rfl, rfl⟩
  | string value =>
    cases value with
    | none => exact literal
    | some word =>
      dsimp only
      split
      · exact ⟨_, rfl, rfl⟩
      · exact literal
  | number text => exact literal
  | _ => cases slots

section Parts

variable (tidy : t.Tidy opens closes)

include tidy

variable {declared : Bool} {q : NodeId}

/-- A node with one nested part and nothing else that is read. -/
lemma isPart_of_nested {form : Form} {accessor : Accessor} {target : NodeId}
    (found : t.form? q = some form) (nested : form.nestedParts = [target])
    (noPattern : form.isPattern = false) (fits : Fits t (.target declared) target)
    (own : (form.ownExpressions q).map (t.textOf buffer) = accessor.written) :
    t.IsPart buffer (accessor, target) q := by
  refine ⟨⟨declared, fits⟩, ?_, ?_, ?_⟩
  · exact (tidy.below (mem_children_of_form found
      (form.nestedParts_subset target (by simp [nested])))).le
  · simp [patternDepth_eq tidy found, nested, noPattern]
  · simp [expressionTexts_eq tidy found, nested, own]

/-- A property is read by its key, or by its name. -/
lemma propertyAccessor_eq_ok (fits : Fits t (.bindingProperty declared) q) (buffer : EditBuffer) :
    ∃ key computed target accessor, t.form? q = some (.bindingProperty key computed target) ∧
      Pattern.propertyAccessor t buffer key computed target = .ok accessor ∧
      t.IsPart buffer (accessor, target) q := by
  obtain ⟨form, parts, found, slots, inner⟩ := fits.form
  cases form with
  | bindingProperty key computed target =>
    refine ⟨key, computed, target, ?_⟩
    cases key with
    | none =>
      cases computed with
      | true => cases slots
      | false =>
        cases slots
        have word : Fits t .word target := (inner (.plainWord, target) (by simp)).word_of_plain
        obtain ⟨name, spelled⟩ := word.exists_name
        refine ⟨.member name, found, by simp [Pattern.propertyAccessor, spelled], ?_⟩
        exact isPart_of_nested tidy found rfl rfl word.word_target rfl
    | some key =>
      cases slots
      have isTarget : Fits t (.target declared) target := inner (.target declared, target) (by simp)
      have isKey := inner (.ofKey computed, key) (by simp)
      cases computed with
      | true =>
        obtain ⟨_, _, foundKey, _⟩ := isKey.form
        refine ⟨.computed (t.textOf buffer key), found, ?_, ?_⟩
        · simp [Pattern.propertyAccessor, nodeText_eq_ok foundKey, Except.map]
        · exact isPart_of_nested tidy found rfl rfl isTarget rfl
      | false =>
        obtain ⟨accessor, isAccessor, plain⟩ := keyAccessor_eq_ok isKey buffer
        refine ⟨accessor, found, by simpa [Pattern.propertyAccessor] using isAccessor, ?_⟩
        exact isPart_of_nested tidy found rfl rfl isTarget plain.symm
  | _ => cases slots

lemma propertyParts_eq_ok {properties : List NodeId}
    (fits : ∀ q ∈ properties, Fits t (.bindingProperty declared) q) (buffer : EditBuffer) :
    ∃ parts, Pattern.propertyParts t buffer properties = .ok parts ∧
      List.Forall₂ (t.IsPart buffer) parts properties := by
  induction properties with
  | nil => exact ⟨[], rfl, .nil⟩
  | cons q later ih =>
    obtain ⟨key, computed, target, accessor, found, isAccessor, part⟩ :=
      propertyAccessor_eq_ok tidy (fits q (by simp)) buffer
    obtain ⟨parts, rest, all⟩ := ih fun q mem => fits q (by simp [mem])
    refine ⟨(accessor, target) :: parts, ?_, .cons part all⟩
    simp [Pattern.propertyParts, found, isAccessor, rest, bind, Except.bind, pure, Except.pure]

/-- Only the last item can be a rest element. -/
lemma item_cases {declared isLast : Bool}
    (fits : Fits t (if isLast then .last declared else .target declared) q) (buffer : EditBuffer)
    (index : Nat) : (isLast ∧ ∃ target, t.form? q = some (.restElement target) ∧
      t.IsPart buffer (.rest index, target) q) ∨
    (∀ target, t.form? q ≠ some (.restElement target)) ∧ t.IsPart buffer (.item index, q) q := by
  obtain ⟨form, _, found, slots, inner⟩ := fits.form
  by_cases isRest : ∃ target, form = .restElement target
  · obtain ⟨target, rfl⟩ := isRest
    cases isLast with
    | true =>
      cases slots
      refine .inl ⟨rfl, target, found, ?_⟩
      exact isPart_of_nested tidy found rfl rfl (inner (.target declared, target) (by simp)) rfl
    | false => cases declared <;> cases slots
  · have isTarget : Fits t (.target declared) q := by
      refine .mk found ?_ inner
      cases isLast with
      | false => exact slots
      | true => cases form <;> first | exact slots | exact absurd ⟨_, rfl⟩ isRest
    refine .inr ⟨fun target same => ?_, ⟨declared, isTarget⟩, le_rfl, rfl, rfl⟩
    exact isRest ⟨target, Option.some.inj (found.symm.trans same)⟩

lemma itemParts_eq_ok {elements : List (Option NodeId)}
    (fits : ∀ part ∈ Role.items declared elements, Fits t part.1 part.2) (buffer : EditBuffer)
    (index : Nat) : ∃ parts, Pattern.itemParts t index elements = .ok parts ∧
      List.Forall₂ (t.IsPart buffer) parts (elements.filterMap id) := by
  induction elements generalizing index with
  | nil => exact ⟨[], rfl, .nil⟩
  | cons element later ih =>
    cases element with
    | none => exact ih fits (index + 1)
    | some q =>
      have first : Fits t (if later.isEmpty then .last declared else .target declared) q :=
        fits _ (List.mem_cons_self ..)
      rcases item_cases tidy first buffer index with ⟨isLast, target, found, part⟩ | ⟨other, part⟩
      · refine ⟨[(.rest index, target)], by simp [Pattern.itemParts, found, isLast], ?_⟩
        rw [List.isEmpty_iff.mp isLast]
        exact .cons part .nil
      · obtain ⟨parts, rest, all⟩ :=
          ih (fun part mem => fits part (List.mem_cons_of_mem _ mem)) (index + 1)
        refine ⟨(.item index, q) :: parts, ?_, .cons part all⟩
        rw [Pattern.itemParts]
        split
        · rename_i found
          exact absurd found (other _)
        · rw [rest]
          rfl

/-- A target that is no pattern is a variable or taken over as it is written. -/
lemma plain_target {target : NodeId} (fits : Fits t (.target declared) target)
    (noPattern : t.isPattern target = false) (buffer : EditBuffer) :
    t.patternDepth target = 0 ∧
      ((∃ name, t.name? target = some name ∧ t.expressionTexts buffer target = []) ∨
        (t.name? target = none ∧ t.expressionTexts buffer target = [t.textOf buffer target])) := by
  obtain ⟨form, _, found, _⟩ := fits.form
  have plain := (fits.walkable_of_target noPattern).plain found
  have isPattern := isPattern_of_form found
  rw [noPattern] at isPattern
  rw [patternDepth_eq tidy found, expressionTexts_eq tidy found buffer, name?, found, ← isPattern]
  cases fits.patternShape rfl found with
  | leaf name named =>
    subst named
    exact ⟨rfl, .inl ⟨name, rfl, rfl⟩⟩
  | reference own simple _ nested =>
    rw [own, nested]
    refine ⟨rfl, .inr ⟨?_, rfl⟩⟩
    cases form <;> first | rfl | cases own
  | compound isPart =>
    rw [plain] at isPart
    cases isPart

/-- The pattern is assembled from its parts. -/
lemma assemble_eq_ok {inner : NodeId → Except Fault Pattern} {parts : List (Accessor × NodeId)}
    {qs : List NodeId} (all : List.Forall₂ (t.IsPart buffer) parts qs)
    (deep : ∀ m declared, (∃ q ∈ qs, m ≤ q) → Fits t (.target declared) m → t.isPattern m →
      ∃ pattern, inner m = .ok pattern ∧ t.ReadAs buffer m pattern) :
    ∃ pattern, Pattern.assemble t buffer inner parts = .ok pattern ∧
      pattern.levels = (qs.map t.patternDepth).foldr max 0 + 1 ∧
      pattern.written = qs.flatMap (t.expressionTexts buffer) := by
  induction all with
  | nil => exact ⟨.done, rfl, rfl, rfl⟩
  | @cons part q parts qs isPart _ ih =>
    obtain ⟨accessor, target⟩ := part
    obtain ⟨⟨declared, fits⟩, below, depth, texts⟩ := isPart
    obtain ⟨later, rest, levels, written⟩ :=
      ih fun m declared ⟨q, mem, below⟩ => deep m declared ⟨q, by simp [mem], below⟩
    rw [List.map_cons, List.foldr_cons, List.flatMap_cons, depth, texts]
    unfold Pattern.assemble
    split
    · rename_i isPattern
      obtain ⟨pattern, read, readAs⟩ := deep target declared ⟨q, by simp, below⟩ fits isPattern
      refine ⟨.nested accessor pattern later, by rw [read, rest]; rfl, ?_, ?_⟩
      · simp only [Pattern.levels, readAs.levels, levels]
        omega
      · simp [Pattern.written, readAs.texts, written]
    · rename_i noPattern
      obtain ⟨flat, ⟨name, spelled, none⟩ | ⟨nameless, own⟩⟩ :=
        plain_target tidy fits (Bool.eq_false_iff.mpr noPattern) buffer
      · refine ⟨.leaf accessor (.named name) later, by rw [spelled, rest]; rfl, ?_, ?_⟩
        · simpa [Pattern.levels, flat] using levels
        · simp [Pattern.written, Target.written, none, written]
      · obtain ⟨_, _, found, _⟩ := fits.form
        refine ⟨.leaf accessor (.reference (t.textOf buffer target)) later, ?_, ?_, ?_⟩
        · rw [nameless, nodeText_eq_ok found, rest]
          rfl
        · simpa [Pattern.levels, flat] using levels
        · simp [Pattern.written, Target.written, own, written]

/-- Reading a pattern always succeeds. -/
lemma readWithin_eq_ok {bound : Nat} (fits : Fits t (.target declared) n)
    (isPattern : t.isPattern n) (enough : n < bound) :
    ∃ pattern, Pattern.readWithin t buffer bound n = .ok pattern ∧ t.ReadAs buffer n pattern := by
  induction bound generalizing n declared with
  | zero => exact absurd enough (Nat.not_lt_zero n)
  | succ bound ih =>
    obtain ⟨form, slots, found, known, inner⟩ := fits.form
    have deep {qs : List NodeId} (nested : form.nestedParts = qs) :
        ∀ m declared, (∃ q ∈ qs, m ≤ q) → Fits t (.target declared) m → t.isPattern m →
          ∃ pattern, Pattern.readWithin t buffer bound m = .ok pattern ∧
            t.ReadAs buffer m pattern := by
      rintro m declared ⟨q, mem, below⟩ fits isPattern
      have further : q < n :=
        tidy.below (mem_children_of_form found (form.nestedParts_subset q (nested ▸ mem)))
      exact ih fits isPattern (Nat.lt_of_le_of_lt below
        (Nat.lt_of_lt_of_le further (Nat.le_of_lt_succ enough)))
    have depth := patternDepth_eq tidy found
    have texts := expressionTexts_eq tidy found buffer
    rw [isPattern_of_form found] at isPattern
    rw [isPattern] at depth
    unfold Pattern.readWithin
    rw [found]
    cases form with
    | objectPattern properties =>
      cases known
      obtain ⟨parts, isParts, all⟩ := propertyParts_eq_ok tidy
        (fun q mem => inner (.bindingProperty declared, q) (List.mem_map_of_mem mem)) buffer
      obtain ⟨pattern, assembled, levels, written⟩ := assemble_eq_ok tidy all (deep rfl)
      exact ⟨pattern, Except.bind_eq_ok.mpr ⟨parts, isParts, assembled⟩, levels.trans depth.symm,
        written.trans texts.symm⟩
    | arrayPattern elements =>
      cases known
      obtain ⟨parts, isParts, all⟩ := itemParts_eq_ok tidy inner buffer 0
      obtain ⟨pattern, assembled, levels, written⟩ := assemble_eq_ok tidy all (deep rfl)
      exact ⟨pattern, Except.bind_eq_ok.mpr ⟨parts, isParts, assembled⟩, levels.trans depth.symm,
        written.trans texts.symm⟩
    | _ => cases isPattern

lemma read_eq_ok (fits : Fits t (.target declared) n) (isPattern : t.isPattern n)
    (buffer : EditBuffer) :
    ∃ pattern, Pattern.read t buffer n = .ok pattern ∧ t.ReadAs buffer n pattern :=
  readWithin_eq_ok tidy fits isPattern (Nat.lt_succ_of_lt fits.lt_size)

end Parts

end Table

end PatternLowering

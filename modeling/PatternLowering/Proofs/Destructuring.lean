import PatternLowering.Grammar.Program
import PatternLowering.Proofs.Simulation
import PatternLowering.Proofs.Tables

/-!
# Lowering a site preserves its meaning

The reading of a pattern is given here on the nodes themselves, as the language has it: an object
pattern reads the property that each key names, an array pattern the item at each position, holes
counted, and a rest element everything from its position on. Bindings of a lowered site that only
has variables do the same.
-/

namespace PatternLowering

open Table

variable {V : Type}

/-- What is to be done with a value: assign it to a target, or read its properties, or its items
from an index on. -/
inductive Demand (V : Type) where
  | target (n : NodeId) (value : V)
  | properties (ns : List NodeId) (object : V)
  | items (index : Nat) (elements : List (Option NodeId)) (object : V)

/-- The property that a key without brackets names; a shorthand is named by its target. A number,
or a string that cannot be decoded, stands for whatever the host takes it for. -/
def Table.propertyKey? (host : Host V) (t : Table) (buffer : EditBuffer) (key : Option NodeId)
    (target : NodeId) : Option PropertyKey :=
  match key with
  | none => (t.name? target).map .name
  | some key =>
    match t.form? key with
    | some (.identifier name) => some (.name name)
    | some (.string (some word)) => some (.name word)
    | some (.string none) => (Pattern.nodeText t buffer key).toOption.map host.key
    | some (.number _) => (Pattern.nodeText t buffer key).toOption.map host.key
    | _ => none

/-- Destructuring by the rules of the language: depth first and from left to right. -/
inductive Destructures (host : Host V) (t : Table) (buffer : EditBuffer) :
    Demand V → Progress V → Progress V → Prop where
  | named {n : NodeId} {name : String} {v : V} {p : Progress V} (spelled : t.name? n = some name) :
    Destructures host t buffer (.target n v) p (p.assign name v)
  | object {n : NodeId} {ns : List NodeId} {v : V} {p q : Progress V}
    (form : t.form? n = some (.objectPattern ns))
    (parts : Destructures host t buffer (.properties ns v) p q) :
    Destructures host t buffer (.target n v) p q
  | array {n : NodeId} {elements : List (Option NodeId)} {v : V} {p q : Progress V}
    (form : t.form? n = some (.arrayPattern elements))
    (parts : Destructures host t buffer (.items 0 elements v) p q) :
    Destructures host t buffer (.target n v) p q
  | noProperty {v : V} {p : Progress V} : Destructures host t buffer (.properties [] v) p p
  | property {n target : NodeId} {key : Option NodeId} {name : PropertyKey} {later : List NodeId}
    {v : V} {p q r : Progress V} (form : t.form? n = some (.bindingProperty key false target))
    (names : t.propertyKey? host buffer key target = some name)
    (first : Destructures host t buffer (.target target (p.ask host (.property v name)).1)
      (p.ask host (.property v name)).2 q)
    (rest : Destructures host t buffer (.properties later v) q r) :
    Destructures host t buffer (.properties (n :: later) v) p r
  | noItem {index : Nat} {v : V} {p : Progress V} :
    Destructures host t buffer (.items index [] v) p p
  | hole {index : Nat} {later : List (Option NodeId)} {v : V} {p q : Progress V}
    (rest : Destructures host t buffer (.items (index + 1) later v) p q) :
    Destructures host t buffer (.items index (none :: later) v) p q
  | item {n : NodeId} {index : Nat} {later : List (Option NodeId)} {v : V} {p q r : Progress V}
    (plain : ∀ target, t.form? n ≠ some (.restElement target))
    (first : Destructures host t buffer (.target n (p.ask host (.property v (.index index))).1)
      (p.ask host (.property v (.index index))).2 q)
    (rest : Destructures host t buffer (.items (index + 1) later v) q r) :
    Destructures host t buffer (.items index (some n :: later) v) p r
  | rest {n target : NodeId} {index : Nat} {v : V} {p q : Progress V}
    (form : t.form? n = some (.restElement target))
    (only : Destructures host t buffer (.target target (p.ask host (.slice v index)).1)
      (p.ask host (.slice v index)).2 q) :
    Destructures host t buffer (.items index [some n] v) p q

variable {host : Host V} {t : Table} {buffer : EditBuffer}

/-- The rules leave no choice. -/
lemma Destructures.unique {demand : Demand V} {p q r : Progress V}
    (first : Destructures host t buffer demand p q)
    (second : Destructures host t buffer demand p r) : q = r := by
  induction first generalizing r with
  | named spelled =>
    cases second with
    | named spelled' => rw [Option.some.inj (spelled.symm.trans spelled')]
    | object form _ => cases (form?_of_name? spelled).symm.trans form
    | array form _ => cases (form?_of_name? spelled).symm.trans form
  | object form _ ih =>
    cases second with
    | named spelled => cases (form?_of_name? spelled).symm.trans form
    | object form' parts =>
      cases form.symm.trans form'
      exact ih parts
    | array form' _ => cases form.symm.trans form'
  | array form _ ih =>
    cases second with
    | named spelled => cases (form?_of_name? spelled).symm.trans form
    | object form' _ => cases form.symm.trans form'
    | array form' parts =>
      cases form.symm.trans form'
      exact ih parts
  | noProperty => cases second; rfl
  | property form names _ _ ih_first ih_rest =>
    cases second with
    | property form' names' first rest =>
      cases form.symm.trans form'
      cases names.symm.trans names'
      cases ih_first first
      exact ih_rest rest
  | noItem => cases second; rfl
  | hole _ ih =>
    cases second with
    | hole rest => exact ih rest
  | item plain _ _ ih_first ih_rest =>
    cases second with
    | item _ first rest =>
      cases ih_first first
      exact ih_rest rest
    | rest form _ => exact absurd form (plain _)
  | rest form _ ih =>
    cases second with
    | item plain _ _ => exact absurd form (plain _)
    | rest form' only =>
      cases form.symm.trans form'
      exact ih only

namespace Table

/-- A property whose key is not an expression in brackets. -/
def IsPlainProperty (t : Table) (n : NodeId) : Prop :=
  ∃ key target, t.form? n = some (.bindingProperty key false target)

/-- A variable, or a pattern that has no computed key and only variables at its leaves. -/
inductive VariableOnly (t : Table) : NodeId → Prop where
  | named {n : NodeId} {name : String} (spelled : t.name? n = some name) : VariableOnly t n
  | object {n : NodeId} {properties : List NodeId}
    (form : t.form? n = some (.objectPattern properties))
    (plain : ∀ p ∈ properties, t.IsPlainProperty p)
    (inner : ∀ p ∈ properties, ∀ key target,
      t.form? p = some (.bindingProperty key false target) → VariableOnly t target) :
    VariableOnly t n
  | array {n : NodeId} {elements : List (Option NodeId)}
    (form : t.form? n = some (.arrayPattern elements))
    (items : ∀ e, some e ∈ elements → (∀ target, t.form? e ≠ some (.restElement target)) →
      VariableOnly t e)
    (rests : ∀ e target, some e ∈ elements → t.form? e = some (.restElement target) →
      VariableOnly t target) :
    VariableOnly t n

/-- The host takes the text of a string in brackets for the string. -/
def ReadsLiterals (t : Table) (host : Host V) (buffer : EditBuffer) : Prop :=
  ∀ n word text, t.form? n = some (.string (some word)) → Pattern.nodeText t buffer n = .ok text →
    host.key text = .name word

end Table

variable {inner : NodeId → Except Fault Pattern} {pattern : Pattern}
  {parts : List (Accessor × NodeId)} {accessor : Accessor} {target : NodeId} {n : NodeId}

/-- A key is read as the property that it names. -/
lemma access_of_propertyAccessor (literals : t.ReadsLiterals host buffer) {key : Option NodeId}
    (found : Pattern.propertyAccessor t buffer key false target = .ok accessor) :
    ∃ name, t.propertyKey? host buffer key target = some name ∧
      ∀ v : V, accessor.access host v = .property v name := by
  unfold Pattern.propertyAccessor at found
  unfold Table.propertyKey?
  cases key with
  | none =>
    cases spelled : t.name? target with
    | none => simp [spelled] at found
    | some name =>
      simp only [spelled, Except.ok.injEq] at found
      exact ⟨.name name, rfl, fun v => by rw [← found]; rfl⟩
  | some key =>
    simp only [Bool.false_eq_true, if_false, Pattern.keyAccessor] at found
    split at found
    · rename_i name form
      cases found
      exact ⟨.name name, by simp [form], fun v => rfl⟩
    · rename_i value form
      split at found
      · rename_i word
        split at found
        · cases found
          exact ⟨.name word, by simp [form], fun v => rfl⟩
        · obtain ⟨text, known, rfl⟩ := Except.map_eq_ok.mp found
          refine ⟨.name word, by simp [form], fun v => ?_⟩
          rw [Accessor.access, literals key word text form known]
      · obtain ⟨text, known, rfl⟩ := Except.map_eq_ok.mp found
        exact ⟨host.key text, by simp [form, known, Except.toOption], fun v => rfl⟩
    · rename_i form
      obtain ⟨text, known, rfl⟩ := Except.map_eq_ok.mp found
      exact ⟨host.key text, by simp [form, known, Except.toOption], fun v => rfl⟩
    · cases found

/-- What a part of a pattern adds to it. -/
lemma assemble_cons_eq_ok {later : List (Accessor × NodeId)}
    (ran : Pattern.assemble t buffer inner ((accessor, target) :: later) = .ok pattern) :
    ∃ rest, Pattern.assemble t buffer inner later = .ok rest ∧
      ((t.isPattern target ∧ ∃ deep, inner target = .ok deep ∧
          pattern = .nested accessor deep rest) ∨
        (¬ t.isPattern target ∧ ((∃ name, t.name? target = some name ∧
            pattern = .leaf accessor (.named name) rest) ∨
          (t.name? target = none ∧ ∃ text, Pattern.nodeText t buffer target = .ok text ∧
            pattern = .leaf accessor (.reference text) rest)))) := by
  rw [Pattern.assemble] at ran
  split at ran
  · rename_i nested
    obtain ⟨deep, found, more⟩ := Except.bind_eq_ok.mp ran
    obtain ⟨rest, assembled, made⟩ := Except.bind_eq_ok.mp more
    exact ⟨rest, assembled, .inl ⟨nested, deep, found, (Except.pure_eq_ok.mp made).symm⟩⟩
  · rename_i plain
    split at ran
    · rename_i name spelled
      obtain ⟨rest, assembled, made⟩ := Except.bind_eq_ok.mp ran
      exact ⟨rest, assembled,
        .inr ⟨plain, .inl ⟨name, spelled, (Except.pure_eq_ok.mp made).symm⟩⟩⟩
    · rename_i nameless
      obtain ⟨text, known, more⟩ := Except.bind_eq_ok.mp ran
      obtain ⟨rest, assembled, made⟩ := Except.bind_eq_ok.mp more
      exact ⟨rest, assembled,
        .inr ⟨plain, .inr ⟨nameless, text, known, (Except.pure_eq_ok.mp made).symm⟩⟩⟩

/-- A target is read as the pattern that `inner` gives for it. -/
def ReadBy (host : Host V) (t : Table) (buffer : EditBuffer)
    (inner : NodeId → Except Fault Pattern) (target : NodeId) : Prop :=
  ∀ pattern, inner target = .ok pattern →
    ∀ (v : V) p, Destructures host t buffer (.target target v) p (pattern.bind host v p)

/-- The first part of a pattern goes to its target, and the rest of the pattern goes on. -/
lemma destructures_part {later : List (Accessor × NodeId)} (only : t.VariableOnly target)
    (deep : ReadBy host t buffer inner target)
    (ran : Pattern.assemble t buffer inner ((accessor, target) :: later) = .ok pattern) :
    ∃ rest, Pattern.assemble t buffer inner later = .ok rest ∧ ∀ (v : V) p,
      ∃ q, Destructures host t buffer (.target target (p.ask host (accessor.access host v)).1)
          (p.ask host (accessor.access host v)).2 q ∧
        pattern.bind host v p = rest.bind host v q := by
  obtain ⟨rest, assembled, ⟨_, inside, found, rfl⟩ | ⟨flat, ⟨name, spelled, rfl⟩ |
    ⟨nameless, _, _, _⟩⟩⟩ := assemble_cons_eq_ok ran
  · exact ⟨rest, assembled, fun v p => ⟨_, deep inside found _ _, rfl⟩⟩
  · exact ⟨rest, assembled, fun v p => ⟨_, .named spelled, rfl⟩⟩
  · cases only with
    | named spelled => simp [nameless] at spelled
    | object form _ _ => simp [Table.isPattern, form, Form.isPattern, Form.isObjectPattern] at flat
    | array form _ =>
      simp [Table.isPattern, form, Form.isPattern, Form.isArrayPattern] at flat

lemma destructures_properties (literals : t.ReadsLiterals host buffer) {properties : List NodeId}
    (plain : ∀ p ∈ properties, t.IsPlainProperty p)
    (only : ∀ p ∈ properties, ∀ key target, t.form? p = some (.bindingProperty key false target) →
      t.VariableOnly target ∧ ReadBy host t buffer inner target)
    (found : Pattern.propertyParts t buffer properties = .ok parts)
    (ran : Pattern.assemble t buffer inner parts = .ok pattern) (v : V) (p : Progress V) :
    Destructures host t buffer (.properties properties v) p (pattern.bind host v p) := by
  induction properties generalizing parts pattern p with
  | nil =>
    cases found
    cases ran
    exact .noProperty
  | cons first later ih =>
    obtain ⟨key, target, form⟩ := plain first (by simp)
    obtain ⟨onlyFirst, readFirst⟩ := only first (by simp) key target form
    simp only [Pattern.propertyParts, form] at found
    obtain ⟨accessor, read, more⟩ := Except.bind_eq_ok.mp found
    obtain ⟨others, found', made⟩ := Except.bind_eq_ok.mp more
    cases Except.pure_eq_ok.mp made
    obtain ⟨name, names, access⟩ := access_of_propertyAccessor literals read
    obtain ⟨rest, assembled, step⟩ := destructures_part onlyFirst readFirst ran
    obtain ⟨q, inside, goes⟩ := step v p
    rw [access v] at inside
    rw [goes]
    exact .property form names inside (ih (fun p mem => plain p (by simp [mem]))
      (fun p mem => only p (by simp [mem])) found' assembled q)

lemma destructures_items {elements : List (Option NodeId)} {index : Nat}
    (items : ∀ e, some e ∈ elements → (∀ target, t.form? e ≠ some (.restElement target)) →
      t.VariableOnly e ∧ ReadBy host t buffer inner e)
    (rests : ∀ e target, some e ∈ elements → t.form? e = some (.restElement target) →
      t.VariableOnly target ∧ ReadBy host t buffer inner target)
    (found : Pattern.itemParts t index elements = .ok parts)
    (ran : Pattern.assemble t buffer inner parts = .ok pattern) (v : V) (p : Progress V) :
    Destructures host t buffer (.items index elements v) p (pattern.bind host v p) := by
  induction elements generalizing index parts pattern p with
  | nil =>
    cases found
    cases ran
    exact .noItem
  | cons first later ih =>
    have rest_of (index : Nat) (parts : List (Accessor × NodeId)) (pattern : Pattern)
        (found : Pattern.itemParts t index later = .ok parts)
        (ran : Pattern.assemble t buffer inner parts = .ok pattern) (q : Progress V) :=
      ih (fun e mem => items e (by simp [mem])) (fun e target mem => rests e target (by simp [mem]))
        found ran q
    cases first with
    | none => exact .hole (rest_of _ _ _ found ran p)
    | some e =>
      simp only [Pattern.itemParts] at found
      split at found
      · rename_i target form
        split at found
        · rename_i last
          obtain ⟨only, read⟩ := rests e target (by simp) form
          obtain rfl : later = [] := by simpa using last
          cases found
          obtain ⟨rest, assembled, step⟩ := destructures_part only read ran
          obtain ⟨q, inside, goes⟩ := step v p
          cases assembled
          rw [goes]
          exact .rest form inside
        · cases found
      · rename_i noRest
        obtain ⟨others, found', made⟩ := Except.bind_eq_ok.mp found
        cases Except.pure_eq_ok.mp made
        obtain ⟨only, read⟩ := items e (by simp) noRest
        obtain ⟨rest, assembled, step⟩ := destructures_part only read ran
        obtain ⟨q, inside, goes⟩ := step v p
        rw [goes]
        exact .item noRest inside (rest_of _ _ _ found' assembled q)

/-- A pattern that only has variables is destructured as it is read. -/
lemma Table.VariableOnly.destructures (only : t.VariableOnly n)
    (literals : t.ReadsLiterals host buffer) (bound : Nat) :
    ReadBy host t buffer (Pattern.readWithin t buffer bound) n := by
  intro pattern
  induction only generalizing bound pattern with
  | named spelled =>
    intro ran
    cases bound with
    | zero => cases ran
    | succ bound =>
      simp only [Pattern.readWithin, form?_of_name? spelled] at ran
      cases ran
  | object form plain inner ih =>
    intro ran v p
    cases bound with
    | zero => cases ran
    | succ bound =>
      simp only [Pattern.readWithin, form] at ran
      obtain ⟨parts, found, assembled⟩ := Except.bind_eq_ok.mp ran
      exact .object form (destructures_properties literals plain
        (fun p mem key target form => ⟨inner p mem key target form,
          ih p mem key target form bound⟩) found assembled v p)
  | array form items rests ih_items ih_rests =>
    intro ran v p
    cases bound with
    | zero => cases ran
    | succ bound =>
      simp only [Pattern.readWithin, form] at ran
      obtain ⟨parts, found, assembled⟩ := Except.bind_eq_ok.mp ran
      exact .array form (destructures_items
        (fun e mem noRest => ⟨items e mem noRest, ih_items e mem noRest bound⟩)
        (fun e target mem form => ⟨rests e target mem form, ih_rests e target mem form bound⟩)
        found assembled v p)

lemma Table.mem_spellings {name : String} (spelled : t.name? n = some name) :
    name ∈ Binding.spellings t := by
  have form := form?_of_name? spelled
  unfold Table.form? Table.get? at form
  obtain ⟨node, found, form⟩ := Option.map_eq_some_iff.mp form
  simp only [Binding.spellings, List.mem_eraseDups, List.mem_filterMap, Array.mem_toList_iff]
  exact ⟨node, Array.mem_of_getElem? found, by rw [form]; rfl⟩

lemma mem_spellings_of_assemble
    (deep : ∀ n pattern, inner n = .ok pattern → ∀ x ∈ pattern.names, x ∈ Binding.spellings t)
    (ran : Pattern.assemble t buffer inner parts = .ok pattern) :
    ∀ x ∈ pattern.names, x ∈ Binding.spellings t := by
  induction parts generalizing pattern with
  | nil =>
    cases ran
    simp [Pattern.names]
  | cons part later ih =>
    obtain ⟨rest, assembled, ⟨_, inside, found, rfl⟩ | ⟨_, ⟨name, spelled, rfl⟩ |
      ⟨_, text, _, rfl⟩⟩⟩ := assemble_cons_eq_ok ran
    all_goals
      intro x mem
      simp only [Pattern.names, List.mem_append, Target.name?, Option.toList_some,
        List.mem_singleton, Option.toList_none, List.not_mem_nil, false_or] at mem
    · rcases mem with mem | mem
      · exact deep _ inside found x mem
      · exact ih assembled x mem
    · rcases mem with rfl | mem
      · exact mem_spellings spelled
      · exact ih assembled x mem
    · exact ih assembled x mem

/-- The variables of a pattern are spelled in the file. -/
lemma mem_spellings_of_readWithin {bound : Nat}
    (ran : Pattern.readWithin t buffer bound n = .ok pattern) :
    ∀ x ∈ pattern.names, x ∈ Binding.spellings t := by
  induction bound generalizing n pattern with
  | zero => cases ran
  | succ bound ih =>
    rw [Pattern.readWithin] at ran
    split at ran
    · obtain ⟨parts, _, assembled⟩ := Except.bind_eq_ok.mp ran
      exact mem_spellings_of_assemble (fun n pattern => ih) assembled
    · obtain ⟨parts, _, assembled⟩ := Except.bind_eq_ok.mp ran
      exact mem_spellings_of_assemble (fun n pattern => ih) assembled
    · cases ran

/-- The variable that an effect assigns. -/
def Effect.assigned? : Effect V → Option String
  | assigned name _ => some name
  | _ => none

namespace Progress

/-- The variables assigned so far. -/
def assigned (p : Progress V) : List String := p.effects.filterMap Effect.assigned?

/-- All that happened to the variables of `store` was recorded. -/
def Recorded (store : String → V) (p : Progress V) : Prop :=
  ∀ x, x ∉ p.assigned → p.store x = store x

variable {store : String → V} {p : Progress V}

lemma Recorded.assign (recorded : Recorded store p) (name : String) (v : V) :
    Recorded store (p.assign name v) := by
  intro x absent
  simp only [assigned, Progress.assign, List.filterMap_append, List.mem_append, not_or] at absent
  have other : x ≠ name := by
    rintro rfl
    simp [Effect.assigned?] at absent
  exact (assign_store_of_ne other v).trans (recorded x absent.1)

lemma Recorded.note (recorded : Recorded store p) {effect : Effect V}
    (none : effect.assigned? = none) : Recorded store (p.note effect) := by
  intro x absent
  refine recorded x ?_
  simpa [assigned, Progress.note, none] using absent

lemma Recorded.eval (recorded : Recorded store p) (host : Host V) (value : V) (e : Expr) :
    Recorded store (e.eval host value p).2 := by
  induction e with
  | source text => exact recorded.note rfl
  | named name => exact recorded
  | parens inside ih => exact ih
  | assign name inside ih => exact ih.assign name _
  | access object accessor ih => exact ih.note rfl

lemma Recorded.exec (recorded : Recorded store p) (host : Host V) (value : V)
    (b : FlatBinding) : Recorded store (b.exec host value p).2 := by
  have evaluated := recorded.eval host value b.value
  unfold FlatBinding.exec
  split
  · rename_i target _
    cases target with
    | named name => exact evaluated.assign name _
    | reference text => exact evaluated
  · exact evaluated

lemma Recorded.execAll (host : Host V) (value : V) (bindings : List FlatBinding)
    {r : Option V × Progress V} (recorded : Recorded store r.2) :
    Recorded store (PatternLowering.execAll host value bindings r).2 := by
  induction bindings generalizing r with
  | nil => exact recorded
  | cons b later ih => exact ih (recorded.exec host value b)

end Progress

namespace Table

/-- The value of a site evaluates to what is in the variable, or to the value of the run, which is
then recorded. -/
lemma siteValue_eval {item : Value} (found : t.siteValue buffer n = .ok item)
    (host : Host V) (value : V) (store : String → V) :
    (∀ name, item = .named name → t.name? n = some name) ∧
      item.forItem.eval host value ⟨store, []⟩ = (((t.name? n).map store).getD value,
        ⟨store, if (t.name? n).isSome then [] else [.evaluated]⟩) := by
  unfold siteValue at found
  split at found
  · rename_i name spelled
    cases found
    simp [spelled, Value.forItem, Expr.eval]
  · rename_i nameless
    obtain ⟨text, _, made⟩ := Except.bind_eq_ok.mp found
    cases Except.pure_eq_ok.mp made
    refine ⟨fun name same => (by cases same), ?_⟩
    cases t.isSequence n <;> simp [Value.forItem, nameless, Expr.eval, Progress.note]

end Table

/-- How a run of the bindings of a site compares with the pattern read by the rules of the language,
which ended in `final`. -/
structure RunsAs (t : Table) (scopes : Scopes) (n value : NodeId) (context : SiteContext) (v : V)
    (final : Progress V) (r : Option V × Progress V) : Prop where
  evaluation : match t.name? value with
    | some _ => .evaluated ∉ r.2.effects
    | none => ∃ later, r.2.effects = .evaluated :: later ∧ .evaluated ∉ later
  accesses : r.2.accesses = final.accesses
  stores : ∃ temps : List String,
    (∀ x ∈ temps, x ∉ Binding.spellings t ∧ x ∉ scopes.held (scopes.closest t n)) ∧
      ∀ x, x ∉ temps → r.2.store x = final.store x
  result : context = .assignment → r.1 = some v

/-- Variables that are not bound by a pattern stay as they are. -/
lemma Pattern.bind_store {x : String} (absent : x ∉ pattern.names) (v : V)
    (p : Progress V) : (pattern.bind host v p).store x = p.store x := by
  induction pattern generalizing v p with
  | done => rfl
  | leaf accessor target later ih =>
    simp only [names, List.mem_append, not_or, Option.mem_toList] at absent
    exact (ih absent.2 _ _).trans (Progress.assignTo_store_of_ne absent.1 _)
  | nested accessor inner later ih_inner ih =>
    simp only [names, List.mem_append, not_or] at absent
    exact (ih absent.2 _ _).trans (ih_inner absent.1 _ _)

/-- The bindings of a site that only has variables evaluate its value once and first, ask the host
what the pattern asks it, in the same order, and leave in every variable what the pattern leaves
there. Only temporaries differ, which are spelled nowhere in the file and are not in use. -/
theorem lowerSite_runs_as_destructuring (host : Host V) (value : V) (store : String → V)
    {t : Table} {root n : NodeId} {buffer : EditBuffer} {retain : Bool} {scopes scopes' : Scopes}
    {log log' : Array Event} {site : LoweredSite} (reachable : Scopes.Reachable t root scopes)
    (only : t.VariableOnly n) (literals : t.ReadsLiterals host buffer)
    (lowered : t.lowerSite buffer n retain scopes log = (.ok site, scopes', log')) :
    ∃ place v final, t.lowerable n = .ok place ∧
      v = ((t.name? place.value).map store).getD value ∧
      (∀ q, Destructures host t buffer (.target n v) ⟨store, []⟩ q ↔ q = final) ∧
      RunsAs t scopes n place.value place.context v final
        (execAll host value site.bindings (none, ⟨store, []⟩)) := by
  obtain ⟨place, whole, pattern, item, w, isPlace, _, read, isValue, _, _, unwound⟩ :=
    lowerSite_eq_ok lowered
  obtain ⟨sound, identifiers⟩ := reachable.sound
  obtain ⟨isName, evaluates⟩ := siteValue_eval isValue host value store
  generalize given : ((t.name? place.value).map store).getD value = v at evaluates
  have agree : Progress.Agree (fun x => ¬ scopes.Protected (scopes.closest t n) x)
      ⟨store, if (t.name? place.value).isSome then [] else [.evaluated]⟩ ⟨store, []⟩ := by
    refine ⟨?_, fun _ _ => rfl⟩
    unfold Progress.accesses
    split <;> rfl
  obtain ⟨carried, result⟩ := Unwind.carried_level (r := (none, ⟨store, []⟩)) evaluates agree
    (Unwind.carries host value _ pattern) (by simp) unwound sound
    (fun x mem => identifiers ▸ mem_spellings_of_readWithin read x mem)
    (fun x same => identifiers ▸ mem_spellings (isName x same)) (fun _ free => free)
  have reads := only.destructures literals (t.size + 1) pattern read v ⟨store, []⟩
  refine ⟨place, v, pattern.bind host v ⟨store, []⟩, isPlace, given.symm,
    fun q => ⟨fun other => other.unique reads, fun same => same ▸ reads⟩, ?_, carried.agree.1, ?_,
    fun assigned => result (by simp [assigned])⟩
  · obtain ⟨later, effects, quiet⟩ := carried.quiet
    cases named : t.name? place.value with
    | some name => simpa [effects, named] using quiet
    | none => exact ⟨later, by simpa [named] using effects, quiet⟩
  · have recorded : Progress.Recorded store
        (execAll host value site.bindings (none, ⟨store, []⟩)).2 :=
      Progress.Recorded.execAll host value site.bindings fun _ _ => rfl
    generalize (execAll host value site.bindings (none, ⟨store, []⟩)).2 = p at carried recorded
    classical
    refine ⟨p.assigned.filter fun x => ¬ scopes.Protected (scopes.closest t n) x, ?_, ?_⟩
    · intro x mem
      have free :
          ¬ scopes.Protected (scopes.closest t n) x := by simpa using (List.mem_filter.mp mem).2
      exact ⟨fun known => free (.inl (identifiers ▸ known)), fun used => free (.inr used)⟩
    · intro x absent
      by_cases safe : scopes.Protected (scopes.closest t n) x
      · exact carried.agree.2 x fun free => free.1 safe
      · have unbound : x ∉ pattern.names := fun mem =>
          safe (.inl (identifiers ▸ mem_spellings_of_readWithin read x mem))
        rw [Pattern.bind_store unbound]
        exact recorded x fun mem => absent (List.mem_filter.mpr ⟨mem, by simpa using safe⟩)

attribute [local irreducible] Parsed.ofText

/-- The table of `[a, b] = [b, a]`. -/
def exchange : Table := (Parsed.ofText "[a, b] = [b, a]".toList).table

/-- Answers with the number of the question. -/
def counting : Host Nat := ⟨fun asked _ => asked.length, fun _ => .index 0⟩

lemma exchange_variableOnly : exchange.VariableOnly 2 := by
  obtain ⟨form, a, b⟩ : exchange.form? 2 = some (.arrayPattern [some 0, some 1]) ∧
      exchange.name? 0 = some "a" ∧ exchange.name? 1 = some "b" := by decide +kernel
  refine .array form (fun e mem _ => ?_) (fun e target mem rest => ?_)
  · obtain rfl | rfl : e = 0 ∨ e = 1 := by simpa using mem
    · exact .named a
    · exact .named b
  · obtain rfl | rfl : e = 0 ∨ e = 1 := by simpa using mem
    · cases (form?_of_name? a).symm.trans rest
    · cases (form?_of_name? b).symm.trans rest

lemma exchange_readsLiterals (host : Host V) (buffer : EditBuffer) :
    exchange.ReadsLiterals host buffer := by
  intro n word text form _
  obtain ⟨size, none⟩ : exchange.nodes.size = 9 ∧
      ∀ n < 9, ∀ form ∈ exchange.form? n, form.children = [] →
        form.name?.isSome := by decide +kernel
  have small : n < 9 := by
    by_contra large
    have : exchange.form? n = Option.none := by
      simp [Table.form?, Table.get?, size, Nat.le_of_not_lt large]
    cases form.symm.trans this
  exact absurd (none n small _ form rfl) (by simp [Form.name?])

theorem exchange_runs_as_destructuring :
    Scopes.Reachable exchange 8 (Binding.ofTable exchange 8).scopes ∧ exchange.VariableOnly 2 ∧
    exchange.ReadsLiterals counting (.ofText "[a, b] = [b, a]".toList) ∧
    ∃ site scopes' log',
      exchange.lowerSite (.ofText "[a, b] = [b, a]".toList) 2 false
        (Binding.ofTable exchange 8).scopes #[] = (.ok site, scopes', log') ∧
      ∃ place v final, exchange.lowerable 2 = .ok place ∧
        v = ((exchange.name? place.value).map fun _ => 1).getD 7 ∧
        (∀ q, Destructures counting exchange (.ofText "[a, b] = [b, a]".toList) (.target 2 v)
          ⟨fun _ => 1, []⟩ q ↔ q = final) ∧
        RunsAs exchange (Binding.ofTable exchange 8).scopes 2 place.value place.context v final
          (execAll counting 7 site.bindings (none, ⟨fun _ => 1, []⟩)) := by
  have literals := exchange_readsLiterals counting (.ofText "[a, b] = [b, a]".toList)
  have good : (exchange.lowerSite (.ofText "[a, b] = [b, a]".toList) 2 false
      (Binding.ofTable exchange 8).scopes #[]).1.toOption.isSome := by decide +kernel
  refine ⟨.bound, exchange_variableOnly, literals, ?_⟩
  generalize lowered : exchange.lowerSite _ 2 false _ #[] = outcome at good ⊢
  obtain ⟨site | site, scopes', log'⟩ := outcome
  · cases good
  · exact ⟨site, scopes', log', rfl, lowerSite_runs_as_destructuring counting 7 (fun _ => 1)
      .bound exchange_variableOnly literals lowered⟩

end PatternLowering

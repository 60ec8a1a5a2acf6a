import PatternLowering.Grammar.Program
import PatternLowering.Proofs.Coupling
import PatternLowering.Proofs.PatternParts

/-!
# Drafts of patterns

On the left of an equals sign a pattern is read as a literal first. Such a draft has the nodes of
the pattern under the same numbers. Turning it into a target makes every one of them what it is in
the pattern, and touches nothing else.

The nodes of a part lie behind those of the part before it, and the part is the last of them. So
turning one part does not get in the way of turning the next.
-/

namespace PatternLowering

namespace Table

variable {t t' u u' : Table} {n m : NodeId} {lo hi depth : Nat}

/-- `m` belongs to the pattern `n`. The keys do not. -/
inductive Draws (t : Table) : NodeId → NodeId → Prop
  | self (n : NodeId) : Draws t n n
  | part {n p m : NodeId} {form : Form} : t.form? n = some form → p ∈ form.nestedParts →
      Draws t p m → Draws t n m

lemma Draws.mono (keeps : t.Preserves u) (draws : t.Draws n m) : u.Draws n m := by
  induction draws with
  | self n => exact .self n
  | part found nested _ ih => exact .part (keeps.form? found) nested ih

lemma draws_iff {form : Form} (found : t.form? n = some form) :
    t.Draws n m ↔ (∃ p ∈ form.nestedParts, t.Draws p m) ∨ m = n := by
  constructor
  · intro draws
    cases draws with
    | self => exact .inr rfl
    | part found' nested inner =>
      cases found.symm.trans found'
      exact .inl ⟨_, nested, inner⟩
  · rintro (⟨p, nested, inner⟩ | rfl)
    · exact .part found nested inner
    · exact .self m

/-- From `lo` on, nodes stay what they are. -/
def Stays (lo : Nat) (t u : Table) : Prop :=
  ∀ m form, lo ≤ m → t.form? m = some form → u.form? m = some form

lemma Stays.refl (t : Table) : Stays lo t t := fun _ _ _ found => found

lemma Stays.raise {lo' : Nat} (stays : Stays lo t u) (higher : lo ≤ lo') : Stays lo' t u :=
  fun m form above found => stays m form (higher.trans above) found

lemma Preserves.stays (keeps : t.Preserves u) : Stays lo t u := fun _ _ _ found => keeps.form? found

/-! ### Patterns and their drafts -/

/-- What may be said about a node of a pattern in one table and its draft in another one. What
belongs to the node begins at `lo`. -/
abbrev DraftRel := (t t' : Table) → (lo : Nat) → NodeId → Prop

/-- Such a thing is about the nodes between `lo` and the node, and stays true as long as these and
the later ones stay what they are. More nodes before them do no harm. -/
structure Lasting (P : DraftRel) : Prop where
  bounds : ∀ {t t' lo n m}, P t t' lo n → t.Draws n m → lo ≤ m ∧ m ≤ n
  stay : ∀ {t t' u u' lo n}, P t t' lo n → Stays lo t u → Stays lo t' u' → P u u' lo n
  lower : ∀ {t t' lo lo' n}, P t t' lo n → lo' ≤ lo → P t t' lo' n

lemma Lasting.le {P : DraftRel} (lasting : Lasting P) (holds : P t t' lo n) : lo ≤ n :=
  (lasting.bounds holds (.self n)).1

/-- Nodes between `lo` and `hi`, one after the other. `P` tells about each of them, and is told
whether it is the last one. -/
def Row (P : Bool → DraftRel) (t t' : Table) (hi : Nat) : (lo : Nat) → List (Option NodeId) → Prop
  | lo, [] => lo ≤ hi
  | lo, none :: later => Row P t t' hi lo later
  | lo, some n :: later => P later.isEmpty t t' lo n ∧ Row P t t' hi (n + 1) later

namespace Row

variable {P : Bool → DraftRel} {found : List (Option NodeId)}

lemma imp {Q : Bool → DraftRel} (row : Row P t t' hi lo found)
    (weaker : ∀ isLast lo n, P isLast t t' lo n → Q isLast t t' lo n) : Row Q t t' hi lo found := by
  induction found generalizing lo with
  | nil => exact row
  | cons first later ih =>
    cases first with
    | none => exact ih row
    | some n => exact ⟨weaker _ lo n row.1, ih row.2⟩

/-- One more node. -/
lemma append {Q : DraftRel} {hi' : Nat} {next : Option NodeId}
    (row : Row (fun _ => Q) t t' hi lo found) (weaker : ∀ lo n, Q t t' lo n → P false t t' lo n)
    (last : ∀ lo, lo ≤ hi → Row P t t' hi' lo [next]) : Row P t t' hi' lo (found ++ [next]) := by
  induction found generalizing lo with
  | nil => exact last lo row
  | cons first later ih =>
    cases first with
    | none => exact ih row
    | some n =>
      have more : (later ++ [next]).isEmpty = false := by simp
      refine ⟨?_, ih row.2⟩
      change P (later ++ [next]).isEmpty t t' lo n
      rw [more]
      exact weaker lo n row.1

variable (row : Row P t t' hi lo found) (lasting : ∀ isLast, Lasting (P isLast))

include row lasting

lemma lower {lo' : Nat} (less : lo' ≤ lo) : Row P t t' hi lo' found := by
  induction found generalizing lo with
  | nil => exact less.trans row
  | cons first later ih =>
    cases first with
    | none => exact ih row less
    | some n => exact ⟨(lasting _).lower row.1 less, row.2⟩

lemma le : lo ≤ hi := by
  induction found generalizing lo with
  | nil => exact row
  | cons first later ih =>
    cases first with
    | none => exact ih row
    | some n => exact (((lasting _).le row.1).trans (Nat.le_succ n)).trans (ih row.2)

lemma stay {hi' : Nat} (stays : Stays lo t u) (stays' : Stays lo t' u') (higher : hi ≤ hi') :
    Row P u u' hi' lo found := by
  induction found generalizing lo with
  | nil => exact Nat.le_trans row higher
  | cons first later ih =>
    cases first with
    | none => exact ih row stays stays'
    | some n =>
      have above : lo ≤ n + 1 := ((lasting _).le row.1).trans (Nat.le_succ n)
      exact ⟨(lasting _).stay row.1 stays stays', ih row.2 (stays.raise above) (stays'.raise above)⟩

lemma bounds {p : NodeId} (mem : some p ∈ found) (draws : t.Draws p m) : lo ≤ m ∧ m < hi := by
  induction found generalizing lo with
  | nil => cases mem
  | cons first later ih =>
    cases first with
    | none => exact ih row (by simpa using mem)
    | some n =>
      rcases List.mem_cons.mp mem with same | mem
      · cases same
        obtain ⟨above, below⟩ := (lasting _).bounds row.1 draws
        exact ⟨above, Nat.lt_of_le_of_lt below (row.2.le lasting)⟩
      · obtain ⟨above, below⟩ := ih row.2 mem
        exact ⟨(((lasting _).le row.1).trans (Nat.le_succ n)).trans above, below⟩

end Row

/-- A variable, which is the same in the draft. -/
def NamedDraft : DraftRel := fun t t' lo n =>
  lo ≤ n ∧ ∃ text, t.form? n = some (.identifier text) ∧ t'.form? n = some (.identifier text)

/-- A property whose target `P` tells about. Without a key it is a name that is its own target. -/
def PropertyDraft (P : DraftRel) : DraftRel := fun t t' lo n =>
  ∃ key computed value, t.form? n = some (.bindingProperty key computed value) ∧
    t'.form? n = some (Form.bindingProperty key computed value).draft ∧
    (key = none → computed = false ∧ NamedDraft t t' lo value) ∧
    value < n ∧ ∃ floor, lo ≤ floor ∧ P t t' floor value

def RestDraft (P : DraftRel) : DraftRel := fun t t' lo n =>
  ∃ value, t.form? n = some (.restElement value) ∧ t'.form? n = some (.spread value) ∧
    value < n ∧ P t t' lo value

/-- An element of an array, which may be a rest element if it is the last one. -/
def ElementDraft (P : DraftRel) (isLast : Bool) : DraftRel := fun t t' lo n =>
  P t t' lo n ∨ isLast = true ∧ RestDraft P t t' lo n

def ObjectDraft (P : DraftRel) : DraftRel := fun t t' lo n =>
  ∃ properties, t.form? n = some (.objectPattern properties) ∧
    t'.form? n = some (.objectLiteral properties) ∧
    Row (fun _ => PropertyDraft P) t t' n lo (properties.map some)

def ArrayDraft (P : DraftRel) : DraftRel := fun t t' lo n =>
  ∃ elements, t.form? n = some (.arrayPattern elements) ∧
    t'.form? n = some (.arrayLiteral elements) ∧ Row (ElementDraft P) t t' n lo elements

/-- A declared pattern, at most `depth` levels deep, and its draft. -/
def Drafted : (depth : Nat) → DraftRel
  | 0 => NamedDraft
  | depth + 1 => fun t t' lo n => NamedDraft t t' lo n ∨ ObjectDraft (Drafted depth) t t' lo n ∨
      ArrayDraft (Drafted depth) t t' lo n

section Lasting

variable {P : DraftRel}

lemma lasting_named : Lasting NamedDraft where
  bounds := by
    rintro t t' lo n m ⟨above, _, found, _⟩ draws
    rcases (draws_iff found).mp draws with ⟨_, nested, _⟩ | rfl
    · cases nested
    · exact ⟨above, le_rfl⟩
  stay := by
    rintro t t' u u' lo n ⟨above, text, found, found'⟩ stays stays'
    exact ⟨above, text, stays n _ above found, stays' n _ above found'⟩
  lower := by
    rintro t t' lo lo' n ⟨above, text⟩ less
    exact ⟨less.trans above, text⟩

lemma Lasting.or {Q : DraftRel} (first : Lasting P) (second : Lasting Q) :
    Lasting fun t t' lo n => P t t' lo n ∨ Q t t' lo n where
  bounds holds draws := holds.elim (first.bounds · draws) (second.bounds · draws)
  stay holds stays stays' := holds.imp (first.stay · stays stays') (second.stay · stays stays')
  lower holds less := holds.imp (first.lower · less) (second.lower · less)

/-- A node that has one part. -/
lemma Lasting.bounds_single (lasting : Lasting P) {floor : Nat} {value : NodeId} {form : Form}
    (found : t.form? n = some form) (parts : form.nestedParts = [value]) (before : value < n)
    (higher : lo ≤ floor) (inner : P t t' floor value) (draws : t.Draws n m) : lo ≤ m ∧ m ≤ n := by
  rcases (draws_iff found).mp draws with ⟨p, nested, draws⟩ | rfl
  · obtain rfl : p = value := by simpa [parts] using nested
    obtain ⟨above, below⟩ := lasting.bounds inner draws
    exact ⟨higher.trans above, below.trans before.le⟩
  · exact ⟨higher.trans ((lasting.le inner).trans before.le), le_rfl⟩

lemma Lasting.property (lasting : Lasting P) : Lasting (PropertyDraft P) where
  bounds := by
    rintro t t' lo n m ⟨key, computed, value, found, _, _, before, floor, higher, inner⟩ draws
    exact lasting.bounds_single found rfl before higher inner draws
  stay := by
    rintro t t' u u' lo n ⟨key, computed, value, found, found', short, before, floor, higher, inner⟩
      stays stays'
    have above : lo ≤ n := higher.trans ((lasting.le inner).trans before.le)
    exact ⟨key, computed, value, stays n _ above found, stays' n _ above found',
      fun none => (short none).imp_right fun named => lasting_named.stay named stays stays',
      before, floor, higher, lasting.stay inner (stays.raise higher) (stays'.raise higher)⟩
  lower := by
    rintro t t' lo lo' n ⟨key, computed, value, found, found', short, before, floor,
      higher, inner⟩ less
    exact ⟨key, computed, value, found, found',
      fun none => (short none).imp_right fun named => lasting_named.lower named less, before, floor,
      less.trans higher, inner⟩

lemma Lasting.rest (lasting : Lasting P) (isLast : Bool) :
    Lasting fun t t' lo n => isLast = true ∧ RestDraft P t t' lo n where
  bounds := by
    rintro t t' lo n m ⟨_, value, found, _, before, inner⟩ draws
    exact lasting.bounds_single found rfl before le_rfl inner draws
  stay := by
    rintro t t' u u' lo n ⟨last, value, found, found', before, inner⟩ stays stays'
    have above : lo ≤ n := (lasting.le inner).trans before.le
    exact ⟨last, value, stays n _ above found, stays' n _ above found', before,
      lasting.stay inner stays stays'⟩
  lower := by
    rintro t t' lo lo' n ⟨last, value, found, found', before, inner⟩ less
    exact ⟨last, value, found, found', before, lasting.lower inner less⟩

lemma Lasting.element (lasting : Lasting P) (isLast : Bool) : Lasting (ElementDraft P isLast) :=
  lasting.or (lasting.rest isLast)

/-- A node with a row of parts before it. -/
lemma Lasting.row {P : Bool → DraftRel} (lasting : ∀ isLast, Lasting (P isLast)) {α : Type}
    (whole draft : List α → Form) (items : List α → List (Option NodeId))
    (nested : ∀ parts, ∀ p ∈ (whole parts).nestedParts, some p ∈ items parts) :
    Lasting fun t t' lo n => ∃ parts, t.form? n = some (whole parts) ∧
      t'.form? n = some (draft parts) ∧
      Row P t t' n lo (items parts) where
  bounds := by
    rintro t t' lo n m ⟨parts, found, _, row⟩ draws
    rcases (draws_iff found).mp draws with ⟨p, isPart, draws⟩ | rfl
    · obtain ⟨above, below⟩ := row.bounds lasting (nested parts p isPart) draws
      exact ⟨above, below.le⟩
    · exact ⟨row.le lasting, le_rfl⟩
  stay := by
    rintro t t' u u' lo n ⟨parts, found, found', row⟩ stays stays'
    have above := row.le lasting
    exact ⟨parts, stays n _ above found, stays' n _ above found',
      row.stay lasting stays stays' le_rfl⟩
  lower := by
    rintro t t' lo lo' n ⟨parts, found, found', row⟩ less
    exact ⟨parts, found, found', row.lower lasting less⟩

lemma Lasting.object (lasting : Lasting P) : Lasting (ObjectDraft P) :=
  .row (fun _ => lasting.property) .objectPattern .objectLiteral (List.map some)
    (by simp [Form.nestedParts])

lemma Lasting.array (lasting : Lasting P) : Lasting (ArrayDraft P) :=
  .row lasting.element .arrayPattern .arrayLiteral id (by simp [Form.nestedParts])

lemma lasting_drafted (depth : Nat) : Lasting (Drafted depth) := by
  induction depth with
  | zero => exact lasting_named
  | succ depth ih => exact lasting_named.or (ih.object.or ih.array)

end Lasting

lemma NamedDraft.drafted (named : NamedDraft t t' lo n) : Drafted depth t t' lo n := by
  cases depth with
  | zero => exact named
  | succ depth => exact .inl named

lemma lt_size_of_form? {form : Form} (found : t.form? n = some form) : n < t.size := by
  obtain ⟨_, _, at_⟩ := exists_at_of_form? found
  exact at_.lt_size

lemma PropertyDraft.lt_size {P : DraftRel} (property : PropertyDraft P t t' lo n) : n < t.size := by
  obtain ⟨_, _, _, found, _⟩ := property
  exact lt_size_of_form? found

lemma RestDraft.lt_size {P : DraftRel} (rest : RestDraft P t t' lo n) : n < t.size := by
  obtain ⟨_, found, _⟩ := rest
  exact lt_size_of_form? found

lemma Drafted.lt_size (drafted : Drafted depth t t' lo n) : n < t.size := by
  cases depth with
  | zero =>
    obtain ⟨_, _, found, _⟩ := drafted
    exact lt_size_of_form? found
  | succ depth =>
    rcases drafted with ⟨_, _, found, _⟩ | ⟨_, found, _⟩ | ⟨_, found, _⟩
    · exact lt_size_of_form? found
    · exact lt_size_of_form? found
    · exact lt_size_of_form? found

/-- The draft of a target is no rest element. -/
lemma Drafted.not_spread (drafted : Drafted depth t t' lo n) (value : NodeId) :
    t'.form? n ≠ some (.spread value) := by
  cases depth with
  | zero =>
    obtain ⟨_, _, _, found⟩ := drafted
    simp [found]
  | succ depth =>
    rcases drafted with ⟨_, _, _, found⟩ | ⟨_, _, found, _⟩ | ⟨_, _, found, _⟩ <;> simp [found]

/-! ### Turning drafts -/

/-- From `t'` to `u'` the nodes in `drafts` became what they are in `t`. Nothing else changed. -/
structure Turned (t : Table) (drafts : NodeId → Prop) (t' u' : Table) : Prop where
  size : u'.size = t'.size
  turned : ∀ {m start stop form form'}, drafts m → t.form? m = some form →
    t'.At m start stop form' → u'.At m start stop form
  kept : ∀ {m start stop form'}, ¬ drafts m → t'.At m start stop form' → u'.At m start stop form'

namespace Turned

variable {drafts drafts' : NodeId → Prop} {v' : Table}

lemma trans (first : Turned t drafts t' u') (second : Turned t drafts' u' v') :
    Turned t (fun m => drafts m ∨ drafts' m) t' v' where
  size := second.size.trans first.size
  turned {m _ _ _ _} either found at_ := by
    by_cases early : drafts m
    · have done := first.turned early found at_
      by_cases late : drafts' m
      · exact second.turned late found done
      · exact second.kept late done
    · exact second.turned (either.resolve_left early) found (first.kept early at_)
  kept neither at_ :=
    second.kept (fun late => neither (.inr late))
      (first.kept (fun early => neither (.inl early)) at_)

lemma congr (turned : Turned t drafts t' u') (same : ∀ m, drafts' m ↔ drafts m) :
    Turned t drafts' t' u' where
  size := turned.size
  turned isDraft := turned.turned ((same _).mp isDraft)
  kept other := turned.kept fun isDraft => other ((same _).mpr isDraft)

/-- Where there is nothing to turn. -/
lemma refl (same : ∀ {m form form'}, drafts m → t.form? m = some form → t'.form? m = some form' →
    form' = form) : Turned t drafts t' t' where
  size := rfl
  turned isDraft found at_ := same isDraft found at_.form? ▸ at_
  kept _ at_ := at_

lemma reinterpret {form : Form} (found : t.form? n = some form) :
    Turned t (· = n) t' (t'.reinterpret n form) where
  size := size_reinterpret form
  turned isNode found' at_ := by
    subst isNode
    cases found.symm.trans found'
    exact at_reinterpret.mpr (.inl ⟨rfl, rfl, _, at_⟩)
  kept other at_ := at_reinterpret.mpr (.inr ⟨other, at_⟩)

/-- Behind the drafts nothing changes. -/
lemma stays (turned : Turned t drafts t' u') (before : ∀ m, drafts m → m < lo) :
    Stays lo t' u' := by
  intro m form above found
  obtain ⟨_, _, at_⟩ := exists_at_of_form? found
  exact (turned.kept (fun isDraft => Nat.not_lt.mpr above (before m isDraft)) at_).form?

end Turned

/-- Once the drafts have turned, the two tables have the same nodes. -/
lemma Twins.turn {w : Twin} {old old' : Table} {drafts : NodeId → Prop}
    (twins : Twins w old old' drafts t t') (turned : Turned t drafts t' u')
    (new : ∀ m, drafts m → old.size ≤ m) : Twins w old old' (fun _ => False) t u' where
  size := turned.size.trans twins.size
  oldSize := twins.oldSize
  grown := twins.grown
  kept := twins.kept
  kept' := by
    refine ⟨fun {m _ _ _} at_ => turned.kept (fun isDraft => ?_) (twins.kept'.node at_)⟩
    exact absurd at_.lt_size (Nat.not_lt.mpr (twins.oldSize ▸ new m isDraft))
  nodes {m start stop form} later at_ := by
    obtain ⟨start', stop', form', at', moved, moved', same⟩ := twins.nodes later at_
    refine ⟨start', stop', form, ?_, moved, moved', .inl rfl⟩
    by_cases isDraft : drafts m
    · exact turned.turned isDraft at_.form? at'
    · obtain rfl : form' = form := same.resolve_right fun draft => isDraft draft.1
      exact turned.kept isDraft at'

end Table

namespace Grammar

open Parse Table

/-- Only the table changed, and in it only the drafts turned. -/
def Turns (t : Table) (drafts : NodeId → Prop) (s s1 : ParseState) : Prop :=
  ∃ table, s1 = { s with table := table } ∧ Turned t drafts s.table table

/-- Nothing was wrong so far. -/
structure Fine (s : ParseState) : Prop where
  clean : s.faults = []
  known : s.scanner.token.kind ≠ .unknown

variable {t : Table} {limit : Prop} {inner : Productions} {s s1 s2 : ParseState} {n : NodeId}
  {lo hi depth : Nat} {drafts drafts' : NodeId → Prop}

lemma Turns.fine (turns : Turns t drafts s s1) (fine : Fine s) : Fine s1 := by
  obtain ⟨table, rfl, _⟩ := turns
  exact ⟨fine.clean, fine.known⟩

lemma Turns.trans (first : Turns t drafts s s1) (second : Turns t drafts' s1 s2) :
    Turns t (fun m => drafts m ∨ drafts' m) s s2 := by
  obtain ⟨table, rfl, turned⟩ := first
  obtain ⟨table', rfl, turned'⟩ := second
  exact ⟨table', rfl, turned.trans turned'⟩

lemma Turns.congr (turns : Turns t drafts s s1) (same : ∀ m, drafts' m ↔ drafts m) :
    Turns t drafts' s s1 := by
  obtain ⟨table, rfl, turned⟩ := turns
  exact ⟨table, rfl, turned.congr same⟩

/-- At last the node itself turns. -/
lemma Turns.reinterpret {form : Form} (turns : Turns t drafts s s1) (found : t.form? n = some form)
    (parts : ∀ m, drafts m ↔ ∃ p ∈ form.nestedParts, t.Draws p m) :
    ∃ s2, Parse.reinterpret n form s1 = .ok () s2 ∧ Turns t (t.Draws n) s s2 := by
  have own : Turns t (· = n) s1 { s1 with table := s1.table.reinterpret n form } :=
    ⟨_, rfl, .reinterpret found⟩
  refine ⟨_, rfl, (turns.trans own).congr fun m => ?_⟩
  rw [draws_iff found, parts m]

/-- A variable is its own draft. -/
lemma Turns.named (named : NamedDraft t s.table lo n) : Turns t (t.Draws n) s s := by
  obtain ⟨_, text, found, found'⟩ := named
  refine ⟨s.table, rfl, .refl fun {m form form'} draws isForm isForm' => ?_⟩
  rcases (draws_iff found).mp draws with ⟨_, nested, _⟩ | rfl
  · cases nested
  · cases found.symm.trans isForm
    cases found'.symm.trans isForm'
    rfl

/-- Turning one node after the other. -/
def eachTarget (step : Bool → NodeId → Parse Unit) : List (Option NodeId) → Parse Unit
  | [] => return ()
  | none :: later => eachTarget step later
  | some n :: later => do
    step later.isEmpty n
    eachTarget step later

lemma elementTargets_eq (elements : List (Option NodeId)) :
    elementTargets inner elements = eachTarget (elementTarget inner) elements := by
  induction elements with
  | nil => rfl
  | cons element later ih =>
    cases element with
    | none => exact ih
    | some n => rw [elementTargets, eachTarget, ih]

lemma propertyTargets_eq (properties : List NodeId) :
    propertyTargets inner properties = eachTarget (fun _ => propertyTarget inner)
      (properties.map some) := by
  induction properties with
  | nil => rfl
  | cons property later ih => rw [propertyTargets, List.map_cons, eachTarget, ih]

/-- Every node of a row turns if each one does, since no later node of the row is touched then. -/
lemma eachTarget_turns {P : Bool → DraftRel} {step : Bool → NodeId → Parse Unit}
    (lasting : ∀ isLast, Lasting (P isLast))
    (turn : ∀ isLast lo n s, Fine s → P isLast t s.table lo n →
      Follows limit (fun _ s1 => Turns t (t.Draws n) s s1) (step isLast n s))
    {found : List (Option NodeId)} (fine : Fine s) (row : Row P t s.table hi lo found) :
    Follows limit (fun _ s1 => Turns t (fun m => ∃ p, some p ∈ found ∧ t.Draws p m) s s1)
      (eachTarget step found s) := by
  induction found generalizing lo s with
  | nil => exact ⟨s.table, rfl, .refl (by simp)⟩
  | cons first later ih =>
    cases first with
    | none => exact (ih fine row).imp fun _ s1 turns => turns.congr (by simp)
    | some n =>
      refine (turn _ lo n s fine row.1).bind fun _ s1 turns => ?_
      have stays : Stays (n + 1) s.table s1.table := by
        obtain ⟨table, rfl, turned⟩ := turns
        exact turned.stays fun m draws => Nat.lt_succ_of_le ((lasting _).bounds row.1 draws).2
      have later := ih (turns.fine fine) (row.2.stay lasting (.refl t) stays le_rfl)
      refine later.imp fun _ s2 turns' => (turns.trans turns').congr fun m => ?_
      simp [or_and_right, exists_or]

/-- Declared patterns of at most `depth` levels turn where nested literals are turned by `inner`. -/
def TurnsDrafts (t : Table) (limit : Prop) (inner : Productions) (depth : Nat) : Prop :=
  ∀ {lo n s}, Fine s → Drafted depth t s.table lo n →
    Follows limit (fun n' s1 => n' = n ∧ Turns t (t.Draws n) s s1) (target inner n s)

lemma target_named (named : NamedDraft t s.table lo n) : target inner n s = .ok n s := by
  obtain ⟨_, text, _, found⟩ := named
  have simple : s.table.isSimpleTarget n = true := by
    rw [isSimpleTarget, isSimpleTargetWithin, found]
  unfold target
  rw [form?_bind, found]
  change (if s.table.isSimpleTarget n then pure n else failAtNode n .patternTarget : Parse NodeId)
    s = _
  rw [if_pos simple]
  rfl

lemma propertyTarget_turns (turns : TurnsDrafts t limit inner depth) (fine : Fine s)
    (property : PropertyDraft (Drafted depth) t s.table lo n) :
    Follows limit (fun _ s1 => Turns t (t.Draws n) s s1) (propertyTarget inner n s) := by
  obtain ⟨key, computed, value, found, found', short, _, floor, _, drafted⟩ := property
  unfold propertyTarget
  rw [form?_bind, found']
  cases key with
  | some key =>
    refine (turns fine drafted).bind ?_
    rintro _ s1 ⟨rfl, turned⟩
    obtain ⟨s2, ran, turned⟩ := turned.reinterpret found (by simp [Form.nestedParts])
    rw [ran]
    exact turned
  | none =>
    obtain ⟨rfl, named⟩ := short rfl
    obtain ⟨s2, ran, turned⟩ := (Turns.named named).reinterpret found (by simp [Form.nestedParts])
    change Follows limit _ (Parse.reinterpret n (.bindingProperty none false value) s)
    rw [ran]
    exact turned

lemma elementTarget_plain (isLast : Bool)
    (plain : ∀ value, s.table.form? n ≠ some (.spread value)) :
    elementTarget inner isLast n s = discard (target inner n) s := by
  unfold elementTarget
  rw [form?_bind]
  cases found : s.table.form? n with
  | none => rfl
  | some form => cases form <;> first | rfl | exact absurd found (plain _)

lemma elementTarget_turns (turns : TurnsDrafts t limit inner depth) {isLast : Bool} (fine : Fine s)
    (element : ElementDraft (Drafted depth) isLast t s.table lo n) :
    Follows limit (fun _ s1 => Turns t (t.Draws n) s s1) (elementTarget inner isLast n s) := by
  rcases element with drafted | ⟨rfl, value, found, found', _, drafted⟩
  · rw [elementTarget_plain isLast drafted.not_spread]
    refine (turns fine drafted).bind ?_
    rintro _ s1 ⟨rfl, turned⟩
    exact turned
  · unfold elementTarget
    rw [form?_bind, found']
    refine (turns fine drafted).bind ?_
    rintro _ s1 ⟨rfl, turned⟩
    obtain ⟨s2, ran, turned⟩ := turned.reinterpret found (by simp [Form.nestedParts])
    rw [ran]
    exact turned

/-- A literal turns if its parts do. -/
lemma literal_turnsDrafts (turns : TurnsDrafts t limit inner depth) (fine : Fine s)
    (drafted : ObjectDraft (Drafted depth) t s.table lo n ∨
      ArrayDraft (Drafted depth) t s.table lo n) :
    Follows limit (fun n' s1 => n' = n ∧ Turns t (t.Draws n) s s1) (literal inner n s) := by
  have lasting := lasting_drafted depth
  unfold literal
  rw [form?_bind]
  rcases drafted with ⟨properties, found, found', row⟩ | ⟨elements, found, found', row⟩
  · rw [found']
    dsimp only
    rw [propertyTargets_eq]
    refine (eachTarget_turns (fun _ => lasting.property)
      (fun _ lo n s => propertyTarget_turns turns) fine row).bind fun _ s1 turned => ?_
    obtain ⟨s2, ran, turned⟩ := turned.reinterpret found (by simp [Form.nestedParts])
    rw [EStateM.bind_of_ok ran]
    exact ⟨rfl, turned⟩
  · rw [found']
    dsimp only
    rw [elementTargets_eq]
    refine (eachTarget_turns lasting.element
      (fun _ lo n s => elementTarget_turns turns) fine row).bind fun _ s1 turned => ?_
    obtain ⟨s2, ran, turned⟩ := turned.reinterpret found (by simp [Form.nestedParts])
    rw [EStateM.bind_of_ok ran]
    exact ⟨rfl, turned⟩

/-- Turning the draft of a declared pattern makes it the pattern, unless it nests too deeply. -/
lemma turnsDrafts_within {depth' : Nat} (enough : depth ≤ depth' ∨ limit) :
    TurnsDrafts t limit (.within depth') depth := by
  induction depth generalizing depth' with
  | zero =>
    intro lo n s _ named
    rw [target_named named]
    exact ⟨rfl, .named named⟩
  | succ depth ih =>
    intro lo n s fine drafted
    rcases drafted with named | drafted
    · rw [target_named named]
      exact ⟨rfl, .named named⟩
    · have nested : target (.within depth') n s = (Productions.within depth').literal n s := by
        unfold target
        rw [form?_bind]
        rcases drafted with ⟨_, _, found, _⟩ | ⟨_, _, found, _⟩ <;> rw [found]
      rw [nested]
      cases depth' with
      | zero =>
        have deep : limit := enough.resolve_left (Nat.not_succ_le_zero depth)
        exact follows_tooDeep deep fine.clean fine.known
      | succ depth' =>
        exact literal_turnsDrafts (ih (enough.imp_left Nat.le_of_succ_le_succ)) fine drafted

end Grammar

end PatternLowering

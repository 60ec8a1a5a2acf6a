import PatternLowering.Proofs.Bindings
import PatternLowering.Proofs.Sites

/-!
# What a replacement takes over

The text that replaces a site quotes the value, the computed keys and the targets that are no
variables, as the buffer has them at that time. The edits that the replacement drops are those in
the quoted nodes: each of them lives on in the replacement, once.
-/

namespace PatternLowering

open List

/-- A piece of a replacement: made by unwinding, or quoted from the buffer. -/
inductive Fragment where
  | made (text : String)
  | quoted (text : String)
deriving DecidableEq, Repr

namespace Fragment

def text : Fragment → Text
  | made text => text.toList
  | quoted text => text.toList

def quoted? : Fragment → Option String
  | made _ => none
  | quoted text => some text

@[simp] lemma quoted_cons_made (text : String) (later : List Fragment) :
    (made text :: later).filterMap quoted? = later.filterMap quoted? := rfl

@[simp] lemma quoted_cons_quoted (text : String) (later : List Fragment) :
    (quoted text :: later).filterMap quoted? = text :: later.filterMap quoted? := rfl

/-- What is done piece by piece is done to the parts and to what stands between them. -/
lemma map_intercalate {α : Type} {f : List Fragment → List α} (nil : f [] = [])
    (append : ∀ first later, f (first ++ later) = f first ++ f later) (between : List Fragment)
    (parts : List (List Fragment)) :
    f (between.intercalate parts) = (f between).intercalate (parts.map f) := by
  induction parts with
  | nil => exact nil
  | cons first later ih =>
    cases later with
    | nil => simp
    | cons second later =>
      rw [intercalate_cons_cons, append, append, ih]
      exact intercalate_cons_cons.symm

lemma quoted_intercalate (parts : List (List Fragment)) :
    ([made ", "].intercalate parts).filterMap quoted? = parts.flatMap (·.filterMap quoted?) := by
  induction parts with
  | nil => rfl
  | cons first later ih =>
    cases later with
    | nil => simp
    | cons second later =>
      rw [intercalate_cons_cons, filterMap_append, filterMap_append, ih,
        flatMap_cons]
      simp

end Fragment

open Fragment

def Accessor.fragments : Accessor → List Fragment
  | computed text => [.made "[", .quoted text, .made "]"]
  | accessor => [.made accessor.text]

def Target.fragments : Target → List Fragment
  | named name => [.made name]
  | reference text => [.quoted text]

def Expr.fragments : Expr → List Fragment
  | source text => [.quoted text]
  | named name => [.made name]
  | parens inside => .made "(" :: inside.fragments ++ [.made ")"]
  | assign name value => .made "(" :: .made name :: .made " = " :: value.fragments ++ [.made ")"]
  | access object accessor => object.fragments ++ accessor.fragments

def FlatBinding.fragments (b : FlatBinding) : List Fragment :=
  match b.target with
  | some target => target.fragments ++ .made " = " :: b.value.fragments
  | none => b.value.fragments

/-- The replacement of a site in pieces. -/
def LoweredSite.fragments (site : LoweredSite) : List Fragment :=
  let items := [.made ", "].intercalate (site.bindings.map FlatBinding.fragments)
  if site.parenthesize then .made "(" :: items ++ [.made ")"] else items

namespace Accessor

variable (accessor : Accessor)

lemma text_fragments : accessor.fragments.flatMap Fragment.text = accessor.text.toList := by
  cases accessor <;> simp [fragments, Fragment.text, text]

lemma quoted_fragments : accessor.fragments.filterMap quoted? = accessor.written := by
  cases accessor <;> rfl

end Accessor

namespace Target

variable (target : Target)

lemma text_fragments : target.fragments.flatMap Fragment.text = target.text.toList := by
  cases target <;> simp [fragments, Fragment.text, text]

lemma quoted_fragments : target.fragments.filterMap quoted? = target.written := by
  cases target <;> rfl

end Target

namespace Expr

variable (e : Expr)

lemma text_fragments : e.fragments.flatMap Fragment.text = e.text.toList := by
  induction e with
  | source written => simp [fragments, Fragment.text, text]
  | named name => simp [fragments, Fragment.text, text]
  | parens inside ih => simp [fragments, Fragment.text, text, ih]
  | assign name value ih => simp [fragments, Fragment.text, text, ih]
  | access object accessor ih =>
    simp [fragments, text, ih, accessor.text_fragments]

lemma quoted_fragments : e.fragments.filterMap quoted? = e.written := by
  induction e with
  | source text => rfl
  | named name => rfl
  | parens inside ih => simp [fragments, written, ih]
  | assign name value ih => simp [fragments, written, ih]
  | access object accessor ih =>
    rw [fragments, filterMap_append, ih, accessor.quoted_fragments, written]

end Expr

namespace FlatBinding

variable (b : FlatBinding)

lemma text_fragments : b.fragments.flatMap Fragment.text = b.text.toList := by
  obtain ⟨target, value, trailing⟩ := b
  cases target with
  | none => exact value.text_fragments
  | some target =>
    simp [fragments, Fragment.text, text, target.text_fragments, value.text_fragments]

lemma quoted_fragments : b.fragments.filterMap quoted? = b.written := by
  obtain ⟨target, value, trailing⟩ := b
  cases target with
  | none => exact value.quoted_fragments
  | some target =>
    simp [fragments, written, target.quoted_fragments, value.quoted_fragments]

end FlatBinding

namespace LoweredSite

variable (site : LoweredSite)

lemma text_fragments : site.fragments.flatMap Fragment.text = site.replacement.toList := by
  have items : ([.made ", "].intercalate (site.bindings.map FlatBinding.fragments)).flatMap
      Fragment.text = site.joined.toList := by
    rw [map_intercalate rfl fun _ _ => flatMap_append, joined, String.toList_intercalate]
    simp [FlatBinding.text_fragments, Function.comp_def, Fragment.text]
  unfold fragments replacement
  cases site.parenthesize with
  | false => simpa using items
  | true => simp [items, Fragment.text]

lemma quoted_fragments :
    site.fragments.filterMap quoted? = site.bindings.flatMap FlatBinding.written := by
  have items : ([.made ", "].intercalate (site.bindings.map FlatBinding.fragments)).filterMap
      quoted? = site.bindings.flatMap FlatBinding.written := by
    rw [quoted_intercalate]
    simp [flatMap_map, FlatBinding.quoted_fragments]
  unfold fragments
  cases site.parenthesize with
  | false => simpa using items
  | true => simpa using items

end LoweredSite

/-- A stretch of what is read from a buffer: bytes of the source, or an edit. -/
inductive Stretch where
  | kept (start stop : Nat)
  | edited (e : Edit)
deriving DecidableEq, Repr

namespace Stretch

def text (source : Text) : Stretch → Text
  | kept start stop => source.slice start stop
  | edited e => e.text

def edit? : Stretch → Option Edit
  | kept _ _ => none
  | edited e => some e

end Stretch

namespace EditBuffer

/-- What `render` puts together, in order. -/
def stretches (stop : Nat) : Nat → List Edit → List Stretch
  | cursor, [] => [.kept cursor stop]
  | cursor, e :: later =>
    .kept cursor e.start :: .edited e :: stretches stop (max cursor e.stop) later

lemma text_stretches (source : Text) (stop cursor : Nat) (edits : List Edit) :
    (stretches stop cursor edits).flatMap (Stretch.text source) =
      render source stop cursor edits := by
  induction edits generalizing cursor with
  | nil => simp [stretches, render, Stretch.text]
  | cons e later ih => simp [stretches, render, Stretch.text, ih]

lemma edits_stretches (stop cursor : Nat) (edits : List Edit) :
    (stretches stop cursor edits).filterMap Stretch.edit? = edits := by
  induction edits generalizing cursor with
  | nil => rfl
  | cons e later ih => exact congrArg (e :: ·) (ih _)

/-- The edits that have their effect in a range. -/
def editsIn (b : EditBuffer) (r : Nat × Nat) : List Edit :=
  b.edits.filter fun e => e.isWithin r.1 r.2

variable {b : EditBuffer}

/-- Reading a range of the text applies the edits in it, in order and each once. -/
lemma get_eq {start stop : Nat} (forward : start ≤ stop) (inside : stop ≤ b.length) :
    b.get start stop =
      (stretches stop start (b.editsIn (start, stop))).flatMap (Stretch.text b.source) := by
  rw [text_stretches, get, min_eq_left inside, min_eq_left forward, editsIn]

/-- What is sorted by properties that exclude each other is each in one place. -/
lemma flatMap_filter_perm {α β : Type} (has : β → α → Bool) {xs : List α} {ys : List β}
    (apart : ys.Pairwise fun y y' => ∀ x ∈ xs, has y' x → ¬ has y x) :
    (ys.flatMap fun y => xs.filter (has y)).Perm (xs.filter fun x => ys.any (has · x)) := by
  induction ys with
  | nil => simp
  | cons y later ih =>
    obtain ⟨first, rest⟩ := pairwise_cons.mp apart
    let both (x : α) : Bool := (y :: later).any (has · x)
    have here : (xs.filter both).filter (has y) = xs.filter (has y) := by
      rw [filter_filter]
      refine filter_congr fun x _ => ?_
      cases inside : has y x <;> simp [both, inside]
    have there : (xs.filter both).filter (fun x => !has y x) = xs.filter fun x => later.any
        (has · x) := by
      rw [filter_filter]
      refine filter_congr fun x mem => ?_
      cases elsewhere : later.any (has · x) with
      | false => cases inside : has y x <;> simp [both, inside, elsewhere]
      | true =>
        obtain ⟨y', isLater, inside⟩ := any_eq_true.mp elsewhere
        simp [both, elsewhere, first y' isLater x mem inside]
    have split := filter_append_perm (has y) (xs.filter both)
    rw [here, there] at split
    exact ((ih rest).append_left _).trans split

lemma not_isWithin_of_beside {e : Edit} {r r' : Nat × Nat} (forward : e.start ≤ e.stop)
    (beside : Pass.Beside r r') (inside : e.isWithin r'.1 r'.2) : ¬ e.isWithin r.1 r.2 :=
  (Edit.Inside.outside ⟨forward, inside⟩ beside.symm).not_isWithin

/-- Edits in several ranges that lie side by side. -/
lemma editsIn_perm {ranges : List (Nat × Nat)} (forward : ∀ e ∈ b.edits, e.start ≤ e.stop)
    (beside : ranges.Pairwise Pass.Beside) :
    (ranges.flatMap b.editsIn).Perm
      (b.edits.filter fun e => ranges.any fun r => e.isWithin r.1 r.2) :=
  flatMap_filter_perm (fun (r : Nat × Nat) (e : Edit) => e.isWithin r.1 r.2)
    (beside.imp fun apart e mem inside => not_isWithin_of_beside (forward e mem) apart inside)

end EditBuffer

lemma Form.mem_ownExpressions {form : Form} {n m : NodeId} : m ∈ form.ownExpressions n ↔
    (∃ target, form = .bindingProperty (some m) true target) ∨
      (form.isPatternPart = false ∧ form.name? = none ∧ m = n) := by
  cases form with
  | bindingProperty key computed target =>
    cases key <;> cases computed <;> simp [ownExpressions, isPatternPart, eq_comm]
  | _ => simp [ownExpressions, isPatternPart, name?]

/-- The expressions in a pattern: its computed keys, and its targets that are neither variables nor
patterns. -/
inductive Table.HasExpression (t : Table) : NodeId → NodeId → Prop where
  | key {n key target : NodeId} (found : t.form? n =
      some (.bindingProperty (some key) true target)) :
    HasExpression t n key
  | target {n : NodeId} {form : Form} (found : t.form? n = some form)
    (plain : form.isPatternPart = false) (unnamed : t.name? n = none) : HasExpression t n n
  | inner {n part m : NodeId} {form : Form} (found : t.form? n = some form)
    (nested : part ∈ form.nestedParts) (inside : HasExpression t part m) : HasExpression t n m

namespace Table

variable {t : Table} {opens closes : Nat → Prop} {text : Text} {root n m : NodeId}
  {place : Lowerable}

lemma mem_patternExpressions (tidy : t.Tidy opens closes) :
    m ∈ t.patternExpressions n ↔ t.HasExpression n m := by
  constructor
  · intro mem
    induction n using Nat.strongRecOn with
    | _ n ih =>
      cases found : t.form? n with
      | none => simp [patternExpressions, patternParts, patternPartsWithin, found] at mem
      | some form =>
        rw [patternExpressions_eq tidy found, mem_append, mem_flatMap,
          Form.mem_ownExpressions] at mem
        rcases mem with (⟨target, rfl⟩ | ⟨plain, unnamed, rfl⟩) | ⟨part, nested, mem⟩
        · exact .key found
        · exact .target found plain (by simp [name?, found, unnamed])
        · have isChild := mem_children_of_form found (form.nestedParts_subset part nested)
          exact .inner found nested (ih part (tidy.below isChild) mem)
  · intro has
    induction has with
    | key found =>
      rw [patternExpressions_eq tidy found]
      exact mem_append_left _ (Form.mem_ownExpressions.mpr (.inl ⟨_, rfl⟩))
    | @target n form found plain unnamed =>
      rw [patternExpressions_eq tidy found]
      have unnamed' : form.name? = none := by simpa [name?, found] using unnamed
      exact mem_append_left _ (Form.mem_ownExpressions.mpr (.inr ⟨plain, unnamed', rfl⟩))
    | inner found nested _ ih =>
      rw [patternExpressions_eq tidy found]
      exact mem_append_right _ (mem_flatMap.mpr ⟨_, nested, ih⟩)

lemma mem_embedded (tidy : t.Tidy opens closes) : m ∈ t.embedded place n ↔
    (m = place.value ∧ t.name? m = none) ∨ t.HasExpression n m := by
  rw [embedded, mem_append, mem_patternExpressions tidy]
  refine or_congr_left ?_
  cases named : t.name? place.value with
  | none =>
    simp only [Option.isSome_none, Bool.false_eq_true, if_false, mem_singleton]
    exact ⟨fun same => ⟨same, same ▸ named⟩, And.left⟩
  | some name =>
    simp only [Option.isSome_some, if_true, not_mem_nil, false_iff]
    rintro ⟨rfl, unnamed⟩
    cases named.symm.trans unnamed

/-- What a site takes over stands side by side in the text, the value last. -/
lemma Tree.embedded_laid (tree : t.Tree text root) (ok : t.lowerable n = .ok place) :
    ∃ lo hi ns, t.Laid lo ns hi ∧ (t.embedded place n).Perm ns := by
  obtain ⟨form, found, children⟩ := tree.lowerable_parts ok
  obtain ⟨node, isWhole, rfl⟩ := form?_eq_some.mp found
  obtain ⟨declared, fits⟩ := tree.fits_target (isPattern_of_lowerable ok)
  have laid : t.Laid node.start ([n] ++ [place.value]) node.stop := by
    rw [singleton_append, ← children]
    exact tree.tidy.laid isWhole
  obtain ⟨middle, pattern, value⟩ := laid.split
  have expressions := fits.expressions_laid tree.tidy rfl pattern
  have values : t.Laid middle (if (t.name? place.value).isSome then [] else [place.value])
      node.stop := by
    split
    · exact value.sublist (nil_sublist _)
    · exact value
  exact ⟨_, _, _, expressions.append values le_rfl, perm_append_comm⟩

end Table

namespace Pass

variable {t : Table} {text : Text} {root n : NodeId} {place : Lowerable} {retain : Bool} {p : Pass}

lemma embedded_beside (tree : t.Tree text root) (ok : t.lowerable n = .ok place) :
    ((t.embedded place n).map (range t)).Pairwise Beside := by
  obtain ⟨lo, hi, ns, laid, perm⟩ := tree.embedded_laid ok
  exact pairwise_map.mpr ((perm.pairwise_iff Beside.symm).mpr (beside_of_laid laid))

/-- The quoted texts are those of the nodes that the site takes over. -/
lemma quoted_perm (tree : t.Tree text root) {b : EditBuffer} {scopes scopes' : Scopes}
    {log log' : Array Event} {site : LoweredSite}
    (lowered : t.lowerSite b n retain scopes log = (.ok site, scopes', log'))
    (ok : t.lowerable n = .ok place) :
    (site.fragments.filterMap quoted?).Perm ((t.embedded place n).map (t.textOf b)) := by
  obtain ⟨place', whole, pattern, value, w, isPlace, isWhole, read, isValue, _, _, unwound⟩ :=
    Table.lowerSite_eq_ok lowered
  cases ok.symm.trans isPlace
  have isPattern := Table.isPattern_of_lowerable ok
  obtain ⟨declared, fits⟩ := tree.fits_target isPattern
  obtain ⟨pattern', read', readAs⟩ := Table.read_eq_ok tree.tidy fits isPattern b
  cases read.symm.trans read'
  have takes : Unwind.Takes site.bindings (value.forItem.written ++ pattern.written) :=
    Unwind.level_takes (fun plain needed ran => Unwind.parts_takes _ _ plain needed ran) unwound
  have values : value.forItem.written =
      (if (t.name? place.value).isSome then [] else [place.value]).map (t.textOf b) := by
    obtain ⟨form, found, children⟩ := tree.lowerable_parts ok
    obtain ⟨node, isNode, rfl⟩ := Table.form?_eq_some.mp found
    obtain ⟨inner, isInner, _⟩ := (tree.tidy.laid isNode).within
      (show place.value ∈ node.form.children by simp [children])
    unfold Table.siteValue at isValue
    cases named : t.name? place.value with
    | some name =>
      simp only [named] at isValue
      cases isValue
      rfl
    | none =>
      simp only [named, Table.nodeText_eq_ok (Table.form?_eq_some.mpr ⟨inner, isInner, rfl⟩)]
        at isValue
      cases isValue
      cases t.isSequence place.value <;> rfl
  rw [site.quoted_fragments, Table.embedded, map_append, ← values]
  rwa [Unwind.Takes, readAs.texts] at takes

/-- A site takes over what stood in its range. It quotes its value, unless that is a variable, and
the expressions of its pattern, each once and with the edits in them; these are the edits that it
drops. -/
structure TakesOver (t : Table) (n : NodeId) (place : Lowerable) (site : LoweredSite)
    (b b' : EditBuffer) : Prop where
  nodes : ∀ m, m ∈ t.embedded place n ↔
    (m = place.value ∧ t.name? m = none) ∨ t.HasExpression n m
  nodup : (t.embedded place n).Nodup
  pieces : site.fragments.flatMap Fragment.text = site.replacement.toList
  quotes : (site.fragments.filterMap quoted?).Perm ((t.embedded place n).map (t.textOf b))
  texts : ∀ m ∈ t.embedded place n, ∃ stretches : List Stretch,
    (t.textOf b m).toList = stretches.flatMap (Stretch.text b.source) ∧
      stretches.filterMap Stretch.edit? = b.editsIn (range t m)
  drops : ∀ e ∈ b.edits, e.isWithin site.start site.stop ↔
    ∃ m ∈ t.embedded place n, e.isWithin (range t m).1 (range t m).2
  once : ((t.embedded place n).flatMap fun m => b.editsIn (range t m)).Perm
    (b.editsIn (site.start, site.stop))
  replaced : b' = { b with
    edits := Edit.insertInto ⟨site.start, site.stop, site.replacement.toList⟩
      (b.edits.filter fun e => !e.isWithin site.start site.stop) }

lemma takesOver_of_prepared {input : PassInput} (tree : input.table.Tree text root)
    (prepared : Prepared input.table text (.lower retain n) p) {site : LoweredSite}
    {scopes : Scopes} {log : Array Event}
    (lowered : input.table.lowerSite p.buffer n retain p.scopes p.log = (.ok site, scopes, log)) :
    ∃ place, input.table.lowerable n = .ok place ∧
      TakesOver input.table n place site p.buffer (p.lower input retain n).buffer := by
  obtain ⟨place, whole, _, _, _, ok, isWhole, _, _, start, stop, _⟩ := Table.lowerSite_eq_ok lowered
  have edits := prepared.2 place ok
  have forward (e : Edit) (isEdit : e ∈ p.buffer.edits) : e.start ≤ e.stop := by
    rcases edits e isEdit with outside | ⟨_, _, inside⟩
    · exact outside.1
    · exact inside.1
  have drops (e : Edit) (isEdit : e ∈ p.buffer.edits) : e.isWithin site.start site.stop ↔
      ∃ m ∈ input.table.embedded place n,
        e.isWithin (range input.table m).1 (range input.table m).2 := by
    rw [start, stop]
    constructor
    · intro within
      rcases edits e isEdit with outside | ⟨m, isEmbedded, inside⟩
      · rw [range_of_get? isWhole] at outside
        exact absurd within outside.not_isWithin
      · exact ⟨m, isEmbedded, inside.2⟩
    · rintro ⟨m, isEmbedded, within⟩
      have inside : e.Inside (range input.table m) := ⟨forward e isEdit, within⟩
      have around := embedded_within tree ok isEmbedded
      have inside' := inside.mono around.1 around.2
      rw [range_of_get? isWhole] at inside'
      exact inside'.2
  obtain ⟨lo, hi, ns, laid, perm⟩ := tree.embedded_laid ok
  refine ⟨place, ok, fun m => Table.mem_embedded tree.tidy, perm.nodup_iff.mpr laid.nodup,
    site.text_fragments, quoted_perm tree lowered ok, fun m isEmbedded => ?_, drops, ?_, ?_⟩
  · obtain ⟨node, found, _, wide, _⟩ := laid.within (perm.subset isEmbedded)
    have inside : node.stop ≤ p.buffer.length := by
      rw [EditBuffer.length_of_base prepared.1]
      exact Text.le_size_of_isBoundary (tree.tidy.closed found)
    refine ⟨_, ?_, EditBuffer.edits_stretches node.stop node.start _⟩
    rw [range_of_get? found, ← EditBuffer.get_eq wide.le inside]
    simp [Table.textOf, found]
  · have once := EditBuffer.editsIn_perm forward (embedded_beside tree ok)
    rw [flatMap_map] at once
    refine once.trans (.of_eq (filter_congr fun e isEdit => ?_))
    rw [Bool.eq_iff_iff, drops e isEdit]
    simp
  · have replaced := prepared.replace tree ok isWhole site.replacement.toList
    rw [← start, ← stop] at replaced
    unfold lower
    simp only [lowered, replaced]

/-- What an action takes over, if it is a site that is lowered. -/
def TakenOver (input : PassInput) (action : Action) (p : Pass) : Prop :=
  match action with
  | .lower retain n => ∀ site scopes log,
      input.table.lowerSite p.buffer n retain p.scopes p.log = (.ok site, scopes, log) →
        ∃ place, input.table.lowerable n = .ok place ∧
          TakesOver input.table n place site p.buffer (p.lower input retain n).buffer
  | _ => True

lemma takenOver_of_prepared {input : PassInput} (tree : input.table.Tree text root)
    {action : Action} (prepared : Prepared input.table text action p) :
    TakenOver input action p := by
  cases action with
  | lower retain n =>
    exact fun site scopes log lowered => takesOver_of_prepared tree prepared lowered
  | declareTemps n statements => trivial
  | tooDeep n => trivial

end Pass

attribute [local irreducible] Parsed.ofText

end PatternLowering

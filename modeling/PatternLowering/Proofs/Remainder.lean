import PatternLowering.Proofs.FixedPoints
import PatternLowering.Proofs.ShortTexts
import PatternLowering.Proofs.SiteRanges

/-!
# What stays of the text

The output is the source with two kinds of edits: the outermost of the sites that are lowered are
replaced, and temporaries are declared. All other bytes stay, in their order. A replacement quotes
the expressions of its site, and these are written in the same way, so that the text of a site that
is not lowered is found in the output, with changes in its expressions only, however deep it lies in
others. -/

namespace PatternLowering

open List EditBuffer

open Pass (range Within)

namespace EditBuffer

/-- The source from `cursor` on and the text that is written for it, cut where edits start and
stop. -/
def sides (source : Text) : Nat → List Edit → List (Text × Text)
  | cursor, [] => [(source.slice cursor source.size, source.slice cursor source.size)]
  | cursor, e :: later =>
    (source.slice cursor e.start, source.slice cursor e.start) ::
      (source.slice e.start e.stop, e.text) :: sides source e.stop later

end EditBuffer

namespace Table

/-- The pattern is one of the `sites` and is lowered. -/
def Lowers (t : Table) (sites : List NodeId) (n : NodeId) : Prop := n ∈ sites ∧ t.Ends n none

/-- The range of a declarator or an assignment that is lowered. -/
def IsReplaced (t : Table) (sites : List NodeId) (r : Nat × Nat) : Prop :=
  ∃ n place, t.Lowers sites n ∧ t.lowerable n = .ok place ∧ range t place.whole = r

/-- No other one of these ranges lies around it. -/
def IsOutermost (t : Table) (sites : List NodeId) (r : Nat × Nat) : Prop :=
  t.IsReplaced sites r ∧ ∀ r', t.IsReplaced sites r' → Within r r' → r' = r

/-- What an edit can be: the declaration of temporaries, or the replacement of a site. Each
expression of the site is quoted once, as it is written with edits inside of it. -/
inductive Derives (t : Table) (root : NodeId) (sites : List NodeId) (source : Text) :
    Edit → Prop where
  | declaration {f : NodeId} {statements : List NodeId} {names : List String}
    (hoists : t.Hoists root f statements) (some : names ≠ []) :
    Derives t root sites source
      ⟨(TempDeclaration.place t source statements (TempDeclaration.text names)).1,
        (TempDeclaration.place t source statements (TempDeclaration.text names)).1,
        (TempDeclaration.place t source statements (TempDeclaration.text names)).2⟩
  | site {n : NodeId} {place : Lowerable} {fragments : List Fragment} {nodes : List NodeId}
    {inner : NodeId → List Edit} (lowers : t.Lowers sites n) (ok : t.lowerable n = .ok place)
    (perm : nodes.Perm (t.embedded place n))
    (quotes : fragments.filterMap Fragment.quoted? = nodes.map fun m =>
      String.ofList (EditBuffer.render source (range t m).2 (range t m).1 (inner m)))
    (ordered : ∀ m ∈ nodes, EditsFrom source (range t m).1 (inner m))
    (inside : ∀ m ∈ nodes, ∀ e ∈ inner m, e.Inside (range t m))
    (derived : ∀ m ∈ nodes, ∀ e ∈ inner m, Derives t root sites source e) :
    Derives t root sites source ⟨(range t place.whole).1, (range t place.whole).2,
      fragments.flatMap Fragment.text⟩

/-- The text of a site occurs in what is written, with changes in its expressions only. -/
def Keeps (t : Table) (root : NodeId) (sites : List NodeId) (source : Text) (n : NodeId)
    (written : Text) : Prop :=
  ∃ inner, EditsFrom source (range t (t.siteNode n)).1 inner ∧
    (∀ e ∈ inner, t.Derives root sites source e ∧ ∃ m ∈ t.siteExpressions n, e.Inside (range t m)) ∧
    EditBuffer.render source (range t (t.siteNode n)).2 (range t (t.siteNode n)).1 inner
      <:+: written

/-- How the output comes about. The edits follow one another in the text. They replace the outermost
sites and declare temporaries; between them the two sides are the same. A site that is not lowered
is spared, or it is quoted by another one. -/
structure Remains (t : Table) (root : NodeId) (sites : List NodeId) (source output : Text)
    (edits : List Edit) : Prop where
  ordered : EditsFrom source 0 edits
  before : (EditBuffer.sides source 0 edits).flatMap Prod.fst = source
  after : (EditBuffer.sides source 0 edits).flatMap Prod.snd = output
  replaced : ∀ r, (∃ e ∈ edits, e.start < e.stop ∧ (e.start, e.stop) = r) ↔ t.IsOutermost sites r
  derived : ∀ e ∈ edits, t.Derives root sites source e
  spared : ∀ n, t.IsSite n → ¬ t.Lowers sites n → ∀ e ∈ edits,
    t.Spares n e ∨ Within (range t (t.siteNode n)) (e.start, e.stop)
  kept : ∀ n, t.IsSite n → ¬ t.Lowers sites n → t.Keeps root sites source n output

end Table

namespace EditBuffer

variable {source : Text} {cursor stop : Nat} {edits : List Edit} {e : Edit}

lemma before_sides (inOrder : EditsFrom source cursor edits) (opens : source.isBoundary cursor) :
    (sides source cursor edits).flatMap Prod.fst = source.slice cursor source.size := by
  induction edits generalizing cursor with
  | nil => simp [sides]
  | cons e later ih =>
    obtain ⟨forward, starting, ending⟩ := inOrder.ranges e (by simp)
    have ahead := inOrder.ahead e (by simp)
    have top := source.isBoundary_size
    have last := Text.le_size_of_isBoundary ending
    rw [sides, flatMap_cons, flatMap_cons, ih inOrder.tail ending,
      Text.slice_append starting ending top forward last,
      Text.slice_append opens starting top ahead (forward.trans last)]

lemma after_sides (inOrder : EditsFrom source cursor edits) :
    (sides source cursor edits).flatMap Prod.snd = render source source.size cursor edits := by
  induction edits generalizing cursor with
  | nil => simp [sides, render]
  | cons e later ih =>
    have onward : max cursor e.stop = e.stop :=
      max_eq_right ((inOrder.ahead e (by simp)).trans (inOrder.ranges e (by simp)).1)
    rw [sides, flatMap_cons, flatMap_cons, ih inOrder.tail, render, onward]
    simp

lemma text_infix_render (mem : e ∈ edits) : e.text <:+: render source stop cursor edits := by
  induction edits generalizing cursor with
  | nil => cases mem
  | cons first later ih =>
    rw [render]
    rcases mem_cons.mp mem with rfl | mem
    · exact ⟨source.slice cursor e.start, _, rfl⟩
    · exact (ih mem).trans (suffix_append _ _).isInfix

/-- Where edits do not cut a range, what is written for the range is part of the whole. -/
lemma render_infix {r : Nat × Nat} {start finish : Nat} (inOrder : EditsFrom source r.1 edits)
    (opens : source.isBoundary r.1) (closes : source.isBoundary r.2)
    (starting : source.isBoundary start) (ending : source.isBoundary finish)
    (forward : start ≤ finish) (within : Within (start, finish) r)
    (free : ∀ e ∈ edits, ¬ e.Clashes start finish) :
    ∃ inner : List Edit, EditsFrom source start inner ∧
      (∀ e ∈ inner, e ∈ edits ∧ e.isWithin start finish) ∧
      render source finish start inner <:+: render source r.2 r.1 edits := by
  have ahead (e : Edit) (mem : e ∈ edits) := (inOrder.ranges e mem).1
  obtain ⟨before, inside, later, rfl, ends, inRange, starts⟩ :=
    Edit.exists_parts ahead inOrder.ordered free
  have bounds (e : Edit) (mem : e ∈ inside) : start ≤ e.start ∧ e.stop ≤ finish := by
    have := Edit.isWithin_iff (r := (start, finish)).mp (inRange e mem)
    have := ahead e (by simp [mem])
    omega
  have both : EditsFrom source start (inside ++ later) :=
    (inOrder.sublist (sublist_append_right _ _)).mono fun e mem => by
      rcases mem_append.mp mem with mem | mem
      · exact (bounds e mem).1
      · exact forward.trans (starts e mem).2
  have middle := both.sublist (sublist_append_left inside later)
  have last : EditsFrom source finish later :=
    (both.sublist (sublist_append_right _ _)).mono fun e mem => (starts e mem).2
  obtain ⟨low, high⟩ := within
  refine ⟨inside, middle, fun e mem => ⟨by simp [mem], inRange e mem⟩, ?_⟩
  rw [(inOrder.sublist (sublist_append_left _ _)).render_append both ends opens starting closes low
    (forward.trans high), middle.render_append last (fun e mem => (bounds e mem).2) starting
    ending closes forward high]
  exact ⟨_, _, append_assoc ..⟩

end EditBuffer

namespace Fragment

lemma infix_of_quoted {fragments : List Fragment} {text : String}
    (mem : text ∈ fragments.filterMap quoted?) :
    text.toList <:+: fragments.flatMap Fragment.text := by
  obtain ⟨fragment, isFragment, quotes⟩ := mem_filterMap.mp mem
  cases fragment with
  | made text => cases quotes
  | quoted text =>
    cases quotes
    exact infix_of_mem_flatten (mem_map.mpr ⟨_, isFragment, rfl⟩)

end Fragment

namespace Table

variable {t : Table} {root n : NodeId} {sites : List NodeId} {source text text' : Text}
  {edits : List Edit} {e : Edit}

lemma Keeps.mono (keeps : t.Keeps root sites source n text) (inside : text <:+: text') :
    t.Keeps root sites source n text' := by
  obtain ⟨inner, ordered, derived, found⟩ := keeps
  exact ⟨inner, ordered, derived, found.trans inside⟩

namespace Tree

variable (tree : t.Tree source root) (site : t.IsSite n)

include tree site

lemma spares_free (spares : t.Spares n e) :
    ¬ e.Clashes (range t (t.siteNode n)).1 (range t (t.siteNode n)).2 := by
  unfold Edit.Clashes
  rcases spares with outside | ⟨m, mem, inside⟩
  · unfold Edit.Outside at outside
    omega
  · have within := tree.within_siteNode site mem
    unfold Edit.Inside at inside
    rw [Edit.isWithin_iff] at inside
    unfold Within at within
    omega

/-- A range that is written by edits which spare a site keeps the site. -/
lemma keeps_of_spares {r : Nat × Nat} (ordered : EditsFrom source r.1 edits)
    (opens : source.isBoundary r.1) (closes : source.isBoundary r.2)
    (within : Within (range t (t.siteNode n)) r)
    (derived : ∀ e ∈ edits, t.Derives root sites source e) (spares : ∀ e ∈ edits, t.Spares n e) :
    t.Keeps root sites source n (EditBuffer.render source r.2 r.1 edits) := by
  obtain ⟨node, isNode⟩ := lt_size_iff.mp (tree.siteNode_lt site)
  have same := Pass.range_of_get? isNode
  have free (e : Edit) (mem : e ∈ edits) := tree.spares_free site (spares e mem)
  rw [same] at within free
  obtain ⟨inner, inOrder, inRange, found⟩ := render_infix ordered opens closes
    (tree.tidy.opened isNode) (tree.tidy.closed isNode) (tree.tidy.laid isNode).le within free
  refine ⟨inner, same ▸ inOrder, fun e mem => ?_, same ▸ found⟩
  obtain ⟨isEdit, inside⟩ := inRange e mem
  refine ⟨derived e isEdit, (spares e isEdit).resolve_left fun outside => ?_⟩
  rw [same] at outside
  exact outside.not_isWithin inside

variable (stays : ¬ t.Lowers sites n)

include stays

/-- An edit spares a site that is not lowered, or it quotes the site. -/
lemma spares_or_keeps (derives : t.Derives root sites source e) :
    t.Spares n e ∨ Within (range t (t.siteNode n)) (e.start, e.stop) ∧
      t.Keeps root sites source n e.text := by
  induction derives with
  | declaration hoists some => exact .inl (tree.declaration_spares site hoists source _ _)
  | @site n' place fragments nodes inner lowers ok perm quotes ordered inside derived ih =>
    have other : n ≠ n' := by
      rintro rfl
      exact stays lowers
    rcases tree.replacement_spares site ok other (fragments.flatMap Fragment.text) with
      spares | ⟨m, mem, within⟩
    · exact .inl spares
    have isNode := perm.mem_iff.mpr mem
    have quoted : EditBuffer.render source (range t m).2 (range t m).1 (inner m) <:+:
        fragments.flatMap Fragment.text := by
      have mem : String.ofList (EditBuffer.render source (range t m).2 (range t m).1 (inner m)) ∈
          fragments.filterMap Fragment.quoted? := by
        rw [quotes]
        exact mem_map_of_mem isNode
      simpa using Fragment.infix_of_quoted mem
    have around := Pass.embedded_within tree ok mem
    refine .inr ⟨within.trans around, Keeps.mono ?_ quoted⟩
    obtain ⟨node, found⟩ := tree.get?_siteExpression (tree.isSite_of_lowerable ok)
      (siteExpressions_of_lowerable ok ▸ mem)
    -- The site is kept by the edits in the quoted node, or one of them quotes it in turn.
    by_cases all : ∀ e ∈ inner m, t.Spares n e
    · refine tree.keeps_of_spares site (ordered m isNode) ?_ ?_ within (derived m isNode) all
      · rw [Pass.range_of_get? found]
        exact tree.tidy.opened found
      · rw [Pass.range_of_get? found]
        exact tree.tidy.closed found
    · push Not at all
      obtain ⟨e, isEdit, cuts⟩ := all
      have keeps := ((ih m isNode e isEdit).resolve_left cuts).2
      exact keeps.mono (text_infix_render isEdit)

end Tree

end Table

namespace Table

variable {t : Table} {text : Text} {root n m : NodeId} {place : Lowerable}

lemma Ends.unique {code code' : Option Nat} (ends : t.Ends n code) (ends' : t.Ends n code') :
    code = code' := by
  cases ends <;> cases ends' <;> first
    | rfl
    | contradiction
    | omega

/-- No expression of a site fills the whole of it. -/
lemma Tree.embedded_narrow (tree : t.Tree text root) (ok : t.lowerable n = .ok place)
    (mem : m ∈ t.embedded place n) : ¬ Within (range t place.whole) (range t m) := by
  obtain ⟨form, found, children⟩ := tree.lowerable_parts ok
  obtain ⟨node, isWhole, rfl⟩ := form?_eq_some.mp found
  have laid := tree.tidy.laid isWhole
  rw [children] at laid
  obtain ⟨pattern, isPattern, before, wide, value, isValue, between, wide', after⟩ := laid
  have after : value.stop ≤ node.stop := after
  rw [Pass.range_of_get? isWhole]
  rcases (mem_embedded tree.tidy).mp mem with ⟨rfl, _⟩ | has
  · rw [Pass.range_of_get? isValue]
    unfold Within
    omega
  · have within := Pass.within_of_under tree.tidy isPattern (has.under tree.tidy)
    rw [Pass.range_of_get? isPattern] at within
    unfold Within at within ⊢
    omega

end Table

namespace Pass

/-- The edits are those of the sites that are `done`: each replacement is that of an outermost one,
and every other one lies in a replacement. -/
structure Accounts (t : Table) (root : NodeId) (sites : List NodeId) (text : Text)
    (done : List NodeId) (b : EditBuffer) : Prop where
  base : b.base = .ofText text
  orderly : b.Orderly
  derived : ∀ e ∈ b.edits, t.Derives root sites text e
  replaced : ∀ e ∈ b.edits, e.start < e.stop → t.IsOutermost done (e.start, e.stop)
  covered : ∀ r, t.IsReplaced done r → ∃ e ∈ b.edits, e.start < e.stop ∧ Within r (e.start, e.stop)

namespace Accounts

variable {t : Table} {root n : NodeId} {sites done : List NodeId} {text : Text} {b b' : EditBuffer}

lemma source (accounts : Accounts t root sites text done b) : b.source = text :=
  source_of_base accounts.base

lemma length (accounts : Accounts t root sites text done b) : b.length = text.size :=
  length_of_base accounts.base

lemma empty (t : Table) (root : NodeId) (sites : List NodeId) (text : Text) :
    Accounts t root sites text [] (.ofText text) := by
  refine ⟨rfl, (holds_empty text _).orderly, by simp [EditBuffer.ofText],
    by simp [EditBuffer.ofText], ?_⟩
  rintro r ⟨n, _, ⟨mem, _⟩, _⟩
  cases mem

/-- A site that is only reported changes nothing. -/
lemma report {code : Nat} (accounts : Accounts t root sites text done b)
    (ends : t.Ends n (some code)) : Accounts t root sites text (done ++ [n]) b := by
  have same (r : Nat × Nat) : t.IsReplaced (done ++ [n]) r ↔ t.IsReplaced done r := by
    constructor
    · rintro ⟨m, place, ⟨mem, ends'⟩, rest⟩
      refine ⟨m, place, ⟨?_, ends'⟩, rest⟩
      rcases mem_append.mp mem with mem | mem
      · exact mem
      · cases mem_singleton.mp mem
        cases ends.unique ends'
    · rintro ⟨m, place, ⟨mem, ends'⟩, rest⟩
      exact ⟨m, place, ⟨mem_append_left _ mem, ends'⟩, rest⟩
  refine ⟨accounts.base, accounts.orderly, accounts.derived, fun e mem wide => ?_,
    fun r isReplaced => ?_⟩
  · obtain ⟨isReplaced, outermost⟩ := accounts.replaced e mem wide
    exact ⟨(same _).mpr isReplaced, fun r' isReplaced' => outermost r' ((same r').mp isReplaced')⟩
  · exact accounts.covered r ((same r).mp isReplaced)

lemma insert {offset : Nat} {written : Text} (accounts : Accounts t root sites text done b)
    (derives : t.Derives root sites text ⟨offset, offset, written⟩)
    (inserted : b.insert offset written = .ok b') : Accounts t root sites text done b' := by
  obtain ⟨base, edits⟩ := mem_edits_of_insert inserted
  rw [insert_eq accounts.orderly] at inserted
  refine ⟨base.trans accounts.base, accounts.orderly.answer inserted, fun e mem => ?_,
    fun e mem wide => ?_, fun r isReplaced => ?_⟩
  · rcases (edits e).mp mem with rfl | mem
    · exact derives
    · exact accounts.derived e mem
  · rcases (edits e).mp mem with rfl | mem
    · exact absurd wide (Nat.lt_irrefl _)
    · exact accounts.replaced e mem wide
  · obtain ⟨e, mem, around⟩ := accounts.covered r isReplaced
    exact ⟨e, (edits e).mpr (.inr mem), around⟩

/-- A site takes over the replacements in its range. -/
lemma replace {place : Lowerable} {node : Node} {written : Text}
    (accounts : Accounts t root sites text done b) (tree : t.Tree text root)
    (ok : t.lowerable n = .ok place) (isWhole : t.get? place.whole = some node)
    (ends : t.Ends n none)
    (prepared : ∀ e ∈ b.edits, e.Outside (range t place.whole) ∨
      ∃ m ∈ t.embedded place n, e.Inside (range t m))
    (derives : t.Derives root sites text ⟨node.start, node.stop, written⟩)
    (replaced : b.replace node.start node.stop written = .ok b') :
    Accounts t root sites text (done ++ [n]) b' := by
  have wide := wide_of_lowerable tree ok isWhole
  obtain ⟨base, edits⟩ := mem_edits_of_replace wide replaced
  have own : t.IsReplaced (done ++ [n]) (node.start, node.stop) :=
    ⟨n, place, ⟨by simp, ends⟩, ok, range_of_get? isWhole⟩
  have cases {r : Nat × Nat} (isReplaced : t.IsReplaced (done ++ [n]) r) :
      r = (node.start, node.stop) ∨ t.IsReplaced done r := by
    obtain ⟨m, place', ⟨mem, ends'⟩, ok', range⟩ := isReplaced
    rcases mem_append.mp mem with mem | mem
    · exact .inr ⟨m, place', ⟨mem, ends'⟩, ok', range⟩
    · cases mem_singleton.mp mem
      cases ok.symm.trans ok'
      exact .inl (range.symm.trans (range_of_get? isWhole))
  -- No edit lies around the site: it would be in an expression of the site.
  have narrow (e : Edit) (mem : e ∈ b.edits) :
      ¬ Within (node.start, node.stop) (e.start, e.stop) := by
    intro around
    rcases prepared e mem with outside | ⟨m, isExpression, inside⟩
    · rw [range_of_get? isWhole] at outside
      unfold Within at around
      unfold Edit.Outside at outside
      omega
    · have narrow := tree.embedded_narrow ok isExpression
      rw [range_of_get? isWhole] at narrow
      unfold Edit.Inside at inside
      rw [Edit.isWithin_iff] at inside
      unfold Within at around narrow
      omega
  have inside {e : Edit} (wide : e.start < e.stop) :
      e.isWithin node.start node.stop ↔ Within (e.start, e.stop) (node.start, node.stop) := by
    rw [Edit.isWithin_iff (r := (node.start, node.stop))]
    unfold Within
    omega
  rw [replace_eq accounts.orderly] at replaced
  refine ⟨base.trans accounts.base, accounts.orderly.answer replaced, fun e mem => ?_,
    fun e mem wide => ?_, fun r isReplaced => ?_⟩
  · rcases (edits e).mp mem with rfl | ⟨mem, _⟩
    · exact derives
    · exact accounts.derived e mem
  · rcases (edits e).mp mem with rfl | ⟨mem, outside⟩
    · refine ⟨own, fun r isReplaced around => (cases isReplaced).resolve_right fun isReplaced => ?_⟩
      obtain ⟨e, mem, _, outer⟩ := accounts.covered r isReplaced
      exact narrow e mem (around.trans outer)
    · obtain ⟨⟨m, place', ⟨isDone, ends'⟩, rest⟩, outermost⟩ := accounts.replaced e mem wide
      refine ⟨⟨m, place', ⟨mem_append_left _ isDone, ends'⟩, rest⟩, fun r isReplaced around => ?_⟩
      rcases cases isReplaced with rfl | isReplaced
      · exact absurd ((inside wide).mpr around) outside
      · exact outermost r isReplaced around
  · rcases cases isReplaced with rfl | isReplaced
    · exact ⟨_, (edits _).mpr (.inl rfl), wide, le_rfl, le_rfl⟩
    · obtain ⟨e, mem, wide', around⟩ := accounts.covered r isReplaced
      by_cases isWithin : e.isWithin node.start node.stop
      · exact ⟨_, (edits _).mpr (.inl rfl), wide, around.trans ((inside wide').mp isWithin)⟩
      · exact ⟨e, (edits e).mpr (.inr ⟨mem, isWithin⟩), wide', around⟩

end Accounts

variable {input : PassInput} {root n : NodeId} {sites done : List NodeId} {text : Text} {p : Pass}
  {retain : Bool}

/-- What a site quotes is written with the edits in the quoted nodes. -/
lemma derives_of_takesOver {place : Lowerable} {site : LoweredSite} {b' : EditBuffer}
    (tree : input.table.Tree text root)
    (accounts : Accounts input.table root sites text done p.buffer)
    (lowers : input.table.Lowers sites n) (ok : input.table.lowerable n = .ok place)
    (takesOver : TakesOver input.table n place site p.buffer b') :
    input.table.Derives root sites text ⟨(range input.table place.whole).1,
      (range input.table place.whole).2, site.replacement.toList⟩ := by
  obtain ⟨nodes, quotes, perm⟩ :
    Relation.Comp (· = List.map (input.table.textOf p.buffer) ·) List.Perm
      (site.fragments.filterMap Fragment.quoted?) (input.table.embedded place n) := by
    rw [eq_map_comp_perm]
    exact takesOver.quotes
  have texts (m : NodeId) (mem : m ∈ nodes) : input.table.textOf p.buffer m =
      String.ofList (EditBuffer.render text (range input.table m).2 (range input.table m).1
        (p.buffer.editsIn (range input.table m))) := by
    have isExpression : m ∈ input.table.siteExpressions n :=
      Table.siteExpressions_of_lowerable ok ▸ perm.subset mem
    obtain ⟨node, found⟩ := tree.get?_siteExpression (tree.isSite_of_lowerable ok) isExpression
    have inside : node.stop ≤ p.buffer.length := by
      rw [accounts.length]
      exact Text.le_size_of_isBoundary (tree.tidy.closed found)
    have read := get_eq (tree.tidy.laid found).le inside
    rw [text_stretches, accounts.source] at read
    simp [Table.textOf, found, range_of_get? found, read]
  rw [← takesOver.pieces]
  let inner (m : NodeId) : List Edit := p.buffer.editsIn (range input.table m)
  refine @Table.Derives.site _ _ _ _ n place site.fragments nodes inner lowers ok perm ?_ ?_ ?_ ?_
  · rw [quotes]
    exact map_congr_left texts
  · intro m mem
    rw [← accounts.source]
    refine (accounts.orderly.editsFrom.sublist filter_sublist).mono fun e isEdit => ?_
    have inside := (mem_filter.mp isEdit).2
    rw [Edit.isWithin_iff] at inside
    omega
  · intro m mem e isEdit
    obtain ⟨isEdit, inside⟩ := mem_filter.mp isEdit
    exact ⟨(accounts.orderly.ranges e isEdit).1, inside⟩
  · intro m mem e isEdit
    exact accounts.derived e (mem_filter.mp isEdit).1

/-- One action keeps account of the edits. -/
lemma Accounts.run {action : Action} (tree : input.table.Tree text root)
    (isSite : ∀ n ∈ action.site?, input.table.IsSite n ∧ n ∈ sites)
    (hoists : ∀ f statements, action = .declareTemps f statements →
      input.table.Hoists root f statements) (prepared : Prepared input.table text action p)
    (accounts : Accounts input.table root sites text done p.buffer) :
    Accounts input.table root sites text (done ++ action.site?.toList)
      (action.run input p).buffer := by
  cases action with
  | lower retain n =>
    obtain ⟨site, isMember⟩ := isSite n rfl
    obtain ⟨code, ends, ended⟩ := lower_ends tree site prepared
    cases code with
    | some code =>
      rw [Action.run_lower, ended.1]
      exact accounts.report ends
    | none =>
      obtain ⟨_, more, _⟩ := ended
      rcases lowered : input.table.lowerSite p.buffer n retain p.scopes p.log
        with ⟨result, scopes, log⟩
      cases result with
      | error failure =>
        have reports : Reports failure.code p (p.lower input retain n) := lower_reports lowered
        have same := reports.2.1
        omega
      | ok site =>
        obtain ⟨place, whole, _, _, _, ok, isWhole, _, _, start, stop, _⟩ :=
          Table.lowerSite_eq_ok lowered
        obtain ⟨_, ok', takesOver⟩ := takesOver_of_prepared tree prepared lowered
        cases ok.symm.trans ok'
        have derives := derives_of_takesOver tree accounts ⟨isMember, ends⟩ ok takesOver
        rw [range_of_get? isWhole] at derives
        have replaced := prepared.replace tree ok isWhole site.replacement.toList
        rw [Action.run_lower, takesOver.replaced, start, stop]
        exact accounts.replace tree ok isWhole ends (prepared.2 place ok) derives replaced
  | declareTemps f statements =>
    rw [Action.run_declareTemps]
    simp only [Action.site?, Option.toList_none, append_nil]
    rcases declareTemps_buffer input f statements p with same | ⟨names, some, inserted⟩
    · rw [same]
      exact accounts
    · rw [accounts.source] at inserted
      exact accounts.insert (.declaration (hoists f statements rfl) some) inserted
  | tooDeep n =>
    simp only [Action.site?, Option.toList_none, append_nil]
    exact accounts

/-- So do all actions of a plan. -/
lemma Accounts.perform {actions : List Action} (tree : input.table.Tree text root)
    (isSite : ∀ n ∈ lowered actions, input.table.IsSite n ∧ n ∈ sites)
    (hoists : ∀ f statements, .declareTemps f statements ∈ actions →
      input.table.Hoists root f statements)
    (along : Along input (Prepared input.table text) actions p)
    (accounts : Accounts input.table root sites text done p.buffer) :
    Accounts input.table root sites text (done ++ lowered actions)
      (p.perform input actions).buffer := by
  induction actions generalizing done p with
  | nil => simpa [lowered] using accounts
  | cons action later ih =>
    obtain ⟨prepared, along⟩ := along
    have split : lowered (action :: later) = action.site?.toList ++ lowered later := by
      cases action <;> rfl
    rw [split] at isSite ⊢
    have step := accounts.run tree
      (fun n isHere => isSite n (mem_append_left _ (Option.mem_toList.mpr isHere)))
      (fun f statements same => hoists f statements (by simp [same])) prepared
    rw [perform_cons, ← append_assoc]
    exact ih (fun n mem => isSite n (mem_append_right _ mem))
      (fun f statements mem => hoists f statements (by simp [mem])) along step

end Pass

/-- Without edits the output is the source. -/
lemma Table.Remains.unchanged {t : Table} {root : NodeId} {sites : List NodeId}
    {source output : Text} (remains : t.Remains root sites source output []) : output = source := by
  have before := remains.before
  have after := remains.after
  simp only [EditBuffer.sides, flatMap_cons, flatMap_nil, append_nil] at before after
  exact after.symm.trans before

namespace Table.Tree

variable {t : Table} {text : Text} {root : NodeId} {sites : List NodeId} {b : EditBuffer}

/-- What is on record in the end. -/
lemma remains (tree : t.Tree text root) (accounts : Pass.Accounts t root sites text sites b) :
    t.Remains root sites text b.apply b.edits := by
  have length := accounts.length
  obtain rfl := accounts.source
  obtain ⟨_, orderly, derived, replaced, covered⟩ := accounts
  have ordered := orderly.editsFrom
  rw [EditBuffer.apply, length]
  have cases {n : NodeId} (site : t.IsSite n) (stays : ¬ t.Lowers sites n) {e : Edit}
    (mem : e ∈ b.edits) :=
    tree.spares_or_keeps site stays (derived e mem)
  refine ⟨ordered, ?_, after_sides ordered, fun r => ⟨?_, ?_⟩, derived,
    fun n site stays e mem => (cases site stays mem).imp_right And.left, fun n site stays => ?_⟩
  · rw [before_sides ordered b.source.isBoundary_zero, Text.slice_all]
  · rintro ⟨e, mem, wide, rfl⟩
    exact replaced e mem wide
  · rintro ⟨isReplaced, outermost⟩
    obtain ⟨e, mem, wide, around⟩ := covered r isReplaced
    exact ⟨e, mem, wide, outermost _ (replaced e mem wide).1 around⟩
  · obtain ⟨node, isNode⟩ := lt_size_iff.mp (tree.siteNode_lt site)
    have within : Within (range t (t.siteNode n)) (0, b.source.size) := by
      rw [Pass.range_of_get? isNode]
      exact ⟨Nat.zero_le _, Text.le_size_of_isBoundary (tree.tidy.closed isNode)⟩
    by_cases all : ∀ e ∈ b.edits, t.Spares n e
    · exact tree.keeps_of_spares site (r := (0, b.source.size)) ordered b.source.isBoundary_zero
        b.source.isBoundary_size within derived all
    · push Not at all
      obtain ⟨e, mem, cuts⟩ := all
      exact ((cases site stays mem).resolve_left cuts).2.mono (text_infix_render mem)

/-- The temporaries that a plan declares are those of functions and of the program. -/
lemma hoists_of_mem_plan (tree : t.Tree text root) {f : NodeId} {statements : List NodeId}
    (mem : .declareTemps f statements ∈ t.plan root) : t.Hoists root f statements := by
  obtain ⟨program, found, plan⟩ := tree.plan_eq
  rw [plan] at mem
  rcases mem_append.mp mem with mem | mem
  · exact .inr (hasBody_of_mem_planWithin mem)
  · cases mem_singleton.mp mem
    exact .inl ⟨rfl, found⟩

end Table.Tree

/-- The pass over a tree leaves everything else as it is. -/
lemma Pass.remains (input : PassInput) {text : Text} {root : NodeId} {p : Pass}
    (tree : input.table.Tree text root) (start : p.buffer = .ofText text) :
    input.table.Remains root (lowered (input.table.plan root)) text
      (p.perform input (input.table.plan root)).buffer.apply
      (p.perform input (input.table.plan root)).buffer.edits := by
  have along : Along input (Prepared input.table text) (input.table.plan root) p :=
    plan_along tree (by rw [start]; rfl) (by rw [start]; rfl)
  have empty := Accounts.empty input.table root (lowered (input.table.plan root)) text
  rw [← start] at empty
  exact tree.remains (empty.perform tree (fun n mem => ⟨tree.plan_sites n mem, mem⟩)
    (fun f statements => tree.hoists_of_mem_plan) along)

/-- In a program without statements nothing is done. -/
lemma Lowering.ofReading_empty (file : String) (reading : Reading) (stop : Nat) (lines : LineMap)
    (buffer : EditBuffer) :
    let done := ofReading file .default reading
      ⟨⟨#[⟨0, stop, none, .program []⟩]⟩, 0, []⟩ lines buffer
    done.output = some (String.ofList buffer.apply) ∧ done.edits = buffer.size := by
  intro done
  let binding := Binding.ofTable ⟨#[⟨0, stop, none, .program []⟩]⟩ 0
  let start : Pass := ⟨buffer, binding.scopes, [], 0,
    #[parsedEvent file reading] ++ (boundEvents binding).toArray⟩
  let input : PassInput := ⟨⟨#[⟨0, stop, none, .program []⟩]⟩, file, lines, .default⟩
  have noTemps (id : ScopeId) : start.scopes.declaredTemps id = [] := by
    change Scopes.declaredTemps ⟨#[⟨some 0, none, [], .empty⟩], []⟩ id = []
    cases id <;> rfl
  have idle : (start.run input 0).buffer = buffer := by
    rw [Pass.run_eq_perform]
    exact (Pass.perform_idle rfl noTemps).1
  have output : done.output = some (String.ofList (start.run input 0).buffer.apply) := rfl
  have edits : done.edits = (start.run input 0).buffer.size := rfl
  rw [output, edits, idle]
  exact ⟨rfl, rfl⟩

/-- As many blanks are left of a text as 32 bits count, and no edit is to blame. -/
lemma lower32_blanks (file : String) (n : Nat) :
    (lower32 file (String.ofList (List.replicate n ' ')) .default).edits = 0 ∧
      (lower32 file (String.ofList (List.replicate n ' ')) .default).output =
        some (String.ofList (List.replicate (low32 n) ' ')) := by
  have parsed : (Reading.ofText (List.replicate n ' ')).toParsed.in32 =
    ⟨⟨#[⟨0, low32 n, none, .program []⟩]⟩, 0, []⟩ := Parsed.ofText32_blanks n
  obtain ⟨output, edits⟩ := Lowering.ofReading_empty file (Reading.ofText (List.replicate n ' '))
    (low32 n) (.ofText32 (List.replicate n ' ')) (.ofText32 (List.replicate n ' '))
  have few : low32 n ≤ n := Nat.mod_le ..
  rw [lower32, String.toList_ofList, parsed, output, edits, apply_ofText32, Text.size_blanks,
    Text.slice_blanks few]
  exact ⟨rfl, rfl⟩

attribute [local irreducible] Parsed.ofText

/-- Nothing outside of the sites changes. The output of a text that parses is the text with the
outermost of the lowered sites replaced and temporaries declared, and without edits it is the text
itself, as long as 32 bits count its bytes. The sites are handled in the order of `lowered`, each in
the one way that is known from its place and the depth of its pattern: it is lowered, or it is
reported and keeps its own text. -/
theorem nothing_outside_sites_changes (file source : String) (options : Options)
    (clean : (Parsed.ofText source.toList).hasErrors = false)
    (small : Text.size source.toList < 2 ^ 32) :
    ∃ (output : Text) (edits : List Edit) (codes : List (Option Nat)),
      (lower32 file source options).output = some (String.ofList output) ∧
      (lower32 file source options).edits = edits.length ∧
      (Parsed.ofText source.toList).table.Remains (Parsed.ofText source.toList).root
        (lowered (Lowering.passPlan source)) source.toList output edits ∧
      List.Forall₂ (Parsed.ofText source.toList).table.Ends
        (lowered (Lowering.passPlan source)) codes ∧
      (lower32 file source options).diagnostics.map (·.code) = codes.filterMap id ∧
      ((lower32 file source options).edits = 0 → (lower32 file source options).output =
        some source) := by
  rw [lower32_eq file options small]
  have tree := Lowering.tree_of_clean clean
  have start : (Lowering.passStart file source).buffer = .ofText source.toList := rfl
  have remains : (Parsed.ofText source.toList).table.Remains (Parsed.ofText source.toList).root
      (lowered (Lowering.passPlan source)) source.toList
      ((Lowering.passStart file source).perform (Lowering.passInput file source options)
        (Lowering.passPlan source)).buffer.apply
      ((Lowering.passStart file source).perform (Lowering.passInput file source options)
        (Lowering.passPlan source)).buffer.edits :=
    Pass.remains (Lowering.passInput file source options) tree start
  have handled : Pass.Along (Lowering.passInput file source options)
      (Pass.Handled (Lowering.passInput file source options)) (Lowering.passPlan source)
      (Lowering.passStart file source) := Lowering.handled_along clean
  obtain ⟨reports, output, edits, _⟩ := Lowering.lower_eq_perform file options clean
  obtain ⟨codes, ends, same, _⟩ := Pass.reports_of_handled handled
  generalize (Lowering.passStart file source).perform (Lowering.passInput file source options)
    (Lowering.passPlan source) = final at remains reports output edits same
  refine ⟨final.buffer.apply, final.buffer.edits, codes, output, edits, remains, ends, ?_,
    fun none => ?_⟩
  · rw [reports]
    exact same
  · have empty := length_eq_zero_iff.mp (edits.symm.trans none)
    have unchanged := Table.Remains.unchanged (empty ▸ remains)
    rw [output, unchanged, String.ofList_toList]

theorem reported_sites_of_loop_and_function_remain :
    (Parsed.ofText "for (let [a] of b) [c] = function () { let {d}; };".toList).hasErrors = false ∧
    ∃ (output : Text) (edits : List Edit),
      (lower32 "a.js" "for (let [a] of b) [c] = function () { let {d}; };" .default).output =
        some (String.ofList output) ∧
      (Parsed.ofText "for (let [a] of b) [c] = function () { let {d}; };".toList).table.Remains
        (Parsed.ofText "for (let [a] of b) [c] = function () { let {d}; };".toList).root
        (lowered (Lowering.passPlan "for (let [a] of b) [c] = function () { let {d}; };"))
        "for (let [a] of b) [c] = function () { let {d}; };".toList output edits := by
  obtain ⟨clean, small⟩ :
      (Parsed.ofText "for (let [a] of b) [c] = function () { let {d}; };".toList).hasErrors =
        false ∧ Text.size "for (let [a] of b) [c] = function () { let {d}; };".toList < 2 ^ 32 := by
    decide +kernel
  generalize "for (let [a] of b) [c] = function () { let {d}; };" = source at clean small ⊢
  obtain ⟨output, edits, _, same, _, remains, _⟩ :=
    nothing_outside_sites_changes "a.js" source .default clean small
  exact ⟨clean, output, edits, same, remains⟩

/-- Of five blanks more than `2 ^ 32` the five are left. -/
theorem blanks_beyond_32_bits_are_lost :
    (Parsed.ofText (List.replicate (2 ^ 32 + 5) ' ')).hasErrors = false ∧
      (lower32 "a.js" (String.ofList (List.replicate (2 ^ 32 + 5) ' ')) .default).edits = 0 ∧
      (lower32 "a.js" (String.ofList (List.replicate (2 ^ 32 + 5) ' ')) .default).output =
        some "     " := by
  obtain ⟨edits, output⟩ := lower32_blanks "a.js" (2 ^ 32 + 5)
  have five : low32 (2 ^ 32 + 5) = 5 := by decide
  rw [five] at output
  exact ⟨by rw [Parsed.ofText_blanks]; rfl, edits, output⟩

end PatternLowering

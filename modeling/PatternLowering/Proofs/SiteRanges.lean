import PatternLowering.Proofs.Covering
import PatternLowering.Proofs.Hoisting
import PatternLowering.Proofs.Nesting

/-!
# The ranges of sites

Two nodes of a tree lie one under the other or side by side. So whatever is replaced or inserted
keeps clear of a site that stays as it is: it lies outside of the site or inside one of the
expressions of the site, or it takes the place of another site that has this one in an expression of
its own. -/

namespace PatternLowering

open Pass (range Within Beside)

lemma Edit.inside_of_within {r r' : Nat × Nat} (wide : r.1 < r.2) (within : Within r r')
    (text : Text) : (Edit.mk r.1 r.2 text).Inside r' := by
  refine ⟨wide.le, Edit.isWithin_iff.mpr (.inr ⟨wide.ne, within⟩)⟩

namespace Table

/-- The node that makes up a site: its declarator or assignment, or the pattern where it stands
alone. -/
def siteNode (t : Table) (n : NodeId) : NodeId :=
  match t.lowerable n with
  | .ok place => place.whole
  | .error _ => n

/-- The expressions in a site, its value included. -/
def siteExpressions (t : Table) (n : NodeId) : List NodeId :=
  match t.lowerable n with
  | .ok place => t.embedded place n
  | .error _ => t.patternExpressions n

/-- The edit leaves a site alone, except for its expressions. -/
def Spares (t : Table) (n : NodeId) (e : Edit) : Prop :=
  e.Outside (range t (t.siteNode n)) ∨ ∃ m ∈ t.siteExpressions n, e.Inside (range t m)

/-- The node is part of no pattern, and more than a single word. -/
def IsSeparate (t : Table) (m : NodeId) : Prop :=
  t.IsSite m ∨ ∃ form, t.form? m = some form ∧ form.isPatternPart = false ∧ form.children ≠ []

variable {t : Table} {text : Text} {root n n' m : NodeId} {place place' : Lowerable}

lemma siteNode_of_lowerable (ok : t.lowerable n = .ok place) : t.siteNode n = place.whole := by
  simp [siteNode, ok]

lemma siteExpressions_of_lowerable (ok : t.lowerable n = .ok place) :
    t.siteExpressions n = t.embedded place n := by
  simp [siteExpressions, ok]

lemma siteNode_of_refused {failure : Failure} (refused : t.lowerable n = .error failure) :
    t.siteNode n = n := by
  simp [siteNode, refused]

lemma siteExpressions_of_refused {failure : Failure} (refused : t.lowerable n = .error failure) :
    t.siteExpressions n = t.patternExpressions n := by
  simp [siteExpressions, refused]

namespace Tree

variable (tree : t.Tree text root)

include tree

/-- Two nodes lie one under the other or side by side. -/
lemma under_or_beside (inside : n < t.size) (inside' : m < t.size) :
    t.Under n m ∨ t.Under m n ∨ Beside (range t n) (range t m) := by
  have tidy := tree.tidy
  have under := tree.under_root inside
  induction under with
  | self => exact .inl (tree.under_root inside')
  | @part n parent up _ ih =>
    obtain ⟨outer, isOuter, isPart⟩ := mem_children.mp (tidy.parents.mp up)
    have within := Pass.within_of_mem tidy isOuter isPart
    rcases ih (tidy.parent_lt_size up) with under | under | beside
    · rcases under.cases_part tidy with rfl | ⟨part, isPart', under⟩
      · exact .inr (.inl (.part up .self))
      · by_cases same : part = n
        · exact .inl (same ▸ under)
        · obtain ⟨_, isOuter', isPart'⟩ := mem_children.mp isPart'
          cases isOuter.symm.trans isOuter'
          obtain ⟨node, isNode, _⟩ := (tidy.laid isOuter).within isPart
          obtain ⟨node', isNode', _⟩ := (tidy.laid isOuter).within isPart'
          have apart := (tidy.laid isOuter).apart isPart isPart' isNode isNode' (Ne.symm same)
          have inner := Pass.within_of_under tidy isNode' under
          rw [Pass.range_of_get? isNode'] at inner
          rw [Pass.range_of_get? isNode]
          unfold Within at inner
          unfold Beside
          exact .inr (.inr (by omega))
    · exact .inr (.inl (.part up under))
    · exact .inr (.inr (beside.mono within ⟨le_rfl, le_rfl⟩))

lemma lowerable_plain (ok : t.lowerable n = .ok place) :
    ∃ form, t.form? place.whole = some form ∧ form.isPatternPart = false ∧
      form.children = [n, place.value] := by
  rcases tree.lowerable_form ok with found | found
  · exact ⟨_, found, rfl, rfl⟩
  · exact ⟨_, found, rfl, rfl⟩

lemma siteNode_isSeparate (site : t.IsSite n) : t.IsSeparate (t.siteNode n) := by
  cases known : t.lowerable n with
  | error failure =>
    rw [siteNode_of_refused known]
    exact .inl site
  | ok place =>
    obtain ⟨form, found, plain, children⟩ := tree.lowerable_plain known
    rw [siteNode_of_lowerable known]
    exact .inr ⟨form, found, plain, by simp [children]⟩

lemma siteNode_lt (site : t.IsSite n) : t.siteNode n < t.size := by
  cases known : t.lowerable n with
  | error failure =>
    rw [siteNode_of_refused known]
    obtain ⟨declared, fits⟩ := tree.fits_target site.1
    exact fits.lt_size
  | ok place =>
    obtain ⟨form, found, _⟩ := tree.lowerable_plain known
    obtain ⟨node, isNode, _⟩ := form?_eq_some.mp found
    exact siteNode_of_lowerable known ▸ lt_size isNode

lemma isSite_of_lowerable (ok : t.lowerable n = .ok place) : t.IsSite n := by
  obtain ⟨form, found, plain, children⟩ := tree.lowerable_plain ok
  refine isSite_of_parent tree.tidy (isPattern_of_lowerable ok) ?_ found plain
  exact mem_children_of_form found (by simp [children])

/-- A site is no list of statements. -/
lemma siteNode_form (site : t.IsSite n) {form : Form} (found : t.form? (t.siteNode n) = some form) :
    form.isPattern ∨ form.hasTargets := by
  cases known : t.lowerable n with
  | error failure =>
    rw [siteNode_of_refused known] at found
    exact .inl (isPattern_of_form found ▸ site.1)
  | ok place =>
    rw [siteNode_of_lowerable known] at found
    rcases tree.lowerable_form known with found' | found' <;> cases found.symm.trans found' <;>
      exact .inr rfl

/-- The node of a site is no pattern of another one. -/
lemma siteNode_ne (isPattern : t.isPattern m) (other : m ≠ n) : t.siteNode n ≠ m := by
  cases known : t.lowerable n with
  | error failure =>
    rw [siteNode_of_refused known]
    exact other.symm
  | ok place =>
    rw [siteNode_of_lowerable known]
    rintro rfl
    obtain ⟨form, found, plain, _⟩ := tree.lowerable_plain known
    rw [isPattern_of_form found] at isPattern
    cases form <;> first | (cases isPattern; done) | cases plain

/-- Two sites do not share their node. -/
lemma siteNode_injective (site : t.IsSite n) (ok : t.lowerable n' = .ok place')
    (same : t.siteNode n = place'.whole) : n = n' := by
  obtain ⟨form', found', _, children'⟩ := tree.lowerable_plain ok
  cases known : t.lowerable n with
  | error failure =>
    rw [siteNode_of_refused known] at same
    by_contra other
    exact tree.siteNode_ne (n := n') site.1 other ((siteNode_of_lowerable ok).trans same.symm)
  | ok place =>
    rw [siteNode_of_lowerable known] at same
    obtain ⟨form, found, _, children⟩ := tree.lowerable_plain known
    rw [same] at found
    cases found.symm.trans found'
    rw [children] at children'
    exact (List.cons.inj children').1

/-- What lies under a site and is separate lies in one of its expressions. -/
lemma under_siteNode (isPattern : t.isPattern n) (separate : t.IsSeparate m)
    (under : t.Under (t.siteNode n) m) (other : m ≠ t.siteNode n) (distinct : m ≠ n) :
    ∃ e ∈ t.siteExpressions n, t.Under e m := by
  have tidy := tree.tidy
  have noLeaf : ¬ (t.children m = [] ∧ t.isPattern m = false) := by
    rintro ⟨leaf, noPattern⟩
    rcases separate with site | ⟨form, found, _, children⟩
    · exact Bool.false_ne_true (noPattern.symm.trans site.1)
    · simp [Table.children, found, children] at leaf
  -- The parts of the pattern itself are not separate.
  have inPattern (under : t.Under n m) : ∃ e ∈ t.patternExpressions n, t.Under e m := by
    obtain ⟨declared, fits⟩ := tree.fits_target isPattern
    rcases fits.under_cases tidy rfl under with ⟨mem, form, found, isPart⟩ | inside | leaf
    · rcases separate with site | ⟨_, found', plain, _⟩
      · exact absurd (site.2 n isPattern mem) distinct
      · cases found.symm.trans found'
        cases plain.symm.trans isPart
    · exact inside
    · exact absurd leaf noLeaf
  cases known : t.lowerable n with
  | error failure =>
    rw [siteNode_of_refused known] at under
    rw [siteExpressions_of_refused known]
    exact inPattern under
  | ok place =>
    rw [siteNode_of_lowerable known] at under other
    rw [siteExpressions_of_lowerable known]
    obtain ⟨form, found, _, children⟩ := tree.lowerable_plain known
    rcases under.cases_part tidy with same | ⟨part, isPart, under⟩
    · exact absurd same other
    have isPart : part ∈ [n, place.value] := by simpa [Table.children, found, children] using isPart
    rcases List.mem_cons.mp isPart with rfl | isValue
    · obtain ⟨e, mem, inside⟩ := inPattern under
      exact ⟨e, List.mem_append_right _ mem, inside⟩
    · obtain rfl : part = place.value := List.mem_singleton.mp isValue
      refine ⟨place.value, (mem_embedded tidy).mpr (.inl ⟨rfl, ?_⟩), under⟩
      -- A variable has no parts.
      by_contra named
      obtain ⟨name, named⟩ := Option.ne_none_iff_exists'.mp named
      have isVariable := form?_of_name? named
      rcases under.cases_part tidy with rfl | ⟨inner, isInner, _⟩
      · refine noLeaf ⟨by simp [Table.children, isVariable, Form.children], ?_⟩
        rw [isPattern_of_form isVariable]
        rfl
      · simp [Table.children, isVariable, Form.children] at isInner

lemma siteExpression_under (mem : m ∈ t.siteExpressions n) :
    t.Under (t.siteNode n) m := by
  have tidy := tree.tidy
  cases known : t.lowerable n with
  | error failure =>
    rw [siteExpressions_of_refused known] at mem
    rw [siteNode_of_refused known]
    exact ((mem_patternExpressions tidy).mp mem).under tidy
  | ok place =>
    rw [siteExpressions_of_lowerable known] at mem
    rw [siteNode_of_lowerable known]
    obtain ⟨form, found, _, children⟩ := tree.lowerable_plain known
    rcases (mem_embedded tidy).mp mem with ⟨rfl, _⟩ | has
    · exact .of_child tidy (mem_children_of_form found (by simp [children])) .self
    · exact .of_child tidy (mem_children_of_form found (by simp [children])) (has.under tidy)

lemma get?_siteExpression (site : t.IsSite n) (mem : m ∈ t.siteExpressions n) :
    ∃ node, t.get? m = some node :=
  lt_size_iff.mp ((tree.tidy.under_le (tree.siteExpression_under mem)).trans_lt
    (tree.siteNode_lt site))

/-- What lies under an expression of a site lies in the range of the expression. -/
lemma within_siteExpression {k : NodeId} (site : t.IsSite n) (mem : m ∈ t.siteExpressions n)
    (under : t.Under m k) : Within (range t k) (range t m) := by
  obtain ⟨node, isNode⟩ := tree.get?_siteExpression site mem
  exact Pass.within_of_under tree.tidy isNode under

lemma within_siteNode (site : t.IsSite n) (mem : m ∈ t.siteExpressions n) :
    Within (range t m) (range t (t.siteNode n)) := by
  obtain ⟨node, isNode⟩ := lt_size_iff.mp (tree.siteNode_lt site)
  exact Pass.within_of_under tree.tidy isNode (tree.siteExpression_under mem)

/-- Another site that is replaced spares a site, or has it in one of its expressions. -/
lemma replacement_spares (site : t.IsSite n) (ok : t.lowerable n' = .ok place') (other : n ≠ n')
    (replacement : Text) :
    t.Spares n ⟨(range t place'.whole).1, (range t place'.whole).2, replacement⟩ ∨
      ∃ m ∈ t.embedded place' n', Within (range t (t.siteNode n)) (range t m) := by
  have site' := tree.isSite_of_lowerable ok
  have whole := siteNode_of_lowerable ok
  obtain ⟨node, isWhole⟩ := lt_size_iff.mp (whole ▸ tree.siteNode_lt site')
  have wide : (range t place'.whole).1 < (range t place'.whole).2 := by
    rw [Pass.range_of_get? isWhole]
    exact Pass.wide_of_lowerable tree ok isWhole
  have distinct : t.siteNode n ≠ place'.whole :=
    fun same => other (tree.siteNode_injective site ok same)
  rcases tree.under_or_beside (tree.siteNode_lt site) (lt_size isWhole) with under | under | beside
  · have separate := whole ▸ tree.siteNode_isSeparate site'
    obtain ⟨m, mem, under⟩ := tree.under_siteNode site.1 separate under distinct.symm
      (whole ▸ tree.siteNode_ne site.1 other)
    have within := tree.within_siteExpression site mem under
    exact .inl (.inr ⟨m, mem, Edit.inside_of_within wide within replacement⟩)
  · rw [← whole] at under distinct
    obtain ⟨m, mem, under⟩ := tree.under_siteNode site'.1 (tree.siteNode_isSeparate site)
      under distinct (tree.siteNode_ne site'.1 other.symm)
    exact .inr ⟨m, siteExpressions_of_lowerable ok ▸ mem,
      tree.within_siteExpression site' mem under⟩
  · exact .inl (.inl ⟨wide.le, beside.symm⟩)

/-- Temporaries are declared outside of a site or inside one of its expressions. -/
lemma declaration_spares (site : t.IsSite n) {f : NodeId} {statements : List NodeId}
    (hoists : t.Hoists root f statements) (source : Text) (declaration : String) (written : Text) :
    t.Spares n ⟨(TempDeclaration.place t source statements declaration).1,
      (TempDeclaration.place t source statements declaration).1, written⟩ := by
  have tidy := tree.tidy
  -- The statements stand in a block or are those of the program.
  obtain ⟨body, form, found, children, plain, noSite, isBlock⟩ : ∃ body form,
      t.form? body = some form ∧ form.children = statements ∧ form.isPatternPart = false ∧
      ¬ (form.isPattern ∨ form.hasTargets) ∧ (body = root ∨ form = .block statements) := by
    rcases hoists with ⟨_, found⟩ | ⟨_, _, _, _, found⟩
    · refine ⟨root, _, found, rfl, rfl, ?_, .inl rfl⟩
      rintro (isPattern | targets)
      · cases isPattern
      · cases targets
    · refine ⟨_, _, found, rfl, rfl, ?_, .inr rfl⟩
      rintro (isPattern | targets)
      · cases isPattern
      · cases targets
  obtain ⟨node, isBody, rfl⟩ := form?_eq_some.mp found
  have laid := tidy.laid isBody
  rw [children] at laid
  have known := tree.siteNode_lt site
  obtain ⟨own, isOwn⟩ := lt_size_iff.mp known
  obtain ⟨top, _⟩ | ⟨s, isStatement, inner, isInner, atEnd⟩ :=
    Pass.place_offset laid source declaration
  · refine .inl ⟨le_rfl, .inl ?_⟩
    simp [top]
  have isPart : s ∈ t.children body := mem_children_of_form found (children ▸ isStatement)
  have up := tidy.parent?_of_mem isPart
  obtain ⟨_, isInner', before, wide, after⟩ := laid.within isStatement
  cases isInner.symm.trans isInner'
  have outside {r : Nat × Nat} (apart : inner.stop ≤ r.1 ∨ r.2 ≤ inner.start ∨
      inner.start ≤ r.1 ∧ r.2 ≤ inner.stop) : Edit.Outside
        ⟨(TempDeclaration.place t source statements declaration).1,
          (TempDeclaration.place t source statements declaration).1, written⟩ r := by
    refine ⟨le_rfl, ?_⟩
    dsimp only
    omega
  rcases tree.under_or_beside known (lt_size isInner) with under | under | beside
  · cases under with
    | self =>
      rw [Table.Spares, Pass.range_of_get? isInner]
      exact .inl (outside (.inr (.inr ⟨le_rfl, le_rfl⟩)))
    | part up' under =>
      -- The body lies in an expression of the site, and its braces around the statement.
      cases up.symm.trans up'
      have other : body ≠ t.siteNode n := by
        rintro rfl
        exact noSite (tree.siteNode_form site found)
      have isBlock : node.form = .block statements := isBlock.resolve_left fun isRoot => by
        subst isRoot
        have below := Nat.le_of_lt_succ (known.trans_eq tree.last)
        exact other (Nat.le_antisymm (tidy.under_le under) below)
      have distinct : body ≠ n := by
        rintro rfl
        exact noSite (.inl (isPattern_of_form found ▸ site.1))
      have separate : t.IsSeparate body :=
        .inr ⟨_, found, plain, children ▸ List.ne_nil_of_mem isStatement⟩
      obtain ⟨m, mem, under⟩ := tree.under_siteNode site.1 separate under other distinct
      have within := tree.within_siteExpression site mem under
      rw [Pass.range_of_get? isBody] at within
      obtain ⟨_, isInner', before, _, after⟩ := (tidy.braces isBody isBlock).within isStatement
      cases isInner.symm.trans isInner'
      refine .inr ⟨m, mem, le_rfl, Edit.isWithin_iff.mpr (.inl ⟨rfl, ?_⟩)⟩
      unfold Within at within
      dsimp only at within ⊢
      omega
  · have within := Pass.within_of_under tidy isInner under
    rw [Pass.range_of_get? isInner] at within
    exact .inl (outside (.inr (.inr within)))
  · rw [Pass.range_of_get? isInner] at beside
    exact .inl (outside (beside.symm.imp_right .inl))

end Tree

end Table

end PatternLowering

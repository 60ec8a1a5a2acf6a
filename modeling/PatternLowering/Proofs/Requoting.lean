import PatternLowering.Proofs.Embedding
import PatternLowering.Proofs.LeafOrder

/-!
# Quoted texts do not matter

How a site is lowered does not depend on the texts that it quotes. If other texts stand in the
buffer for the expressions of a pattern, the same bindings come out with these texts in place of the
first ones, and the same temporaries are asked for.
-/

namespace PatternLowering

variable (f : String → String)

def Accessor.requote : Accessor → Accessor
  | computed text => computed (f text)
  | accessor => accessor

def Target.requote : Target → Target
  | named name => named name
  | reference text => reference (f text)

def Pattern.requote : Pattern → Pattern
  | done => done
  | leaf accessor target later => leaf (accessor.requote f) (target.requote f) later.requote
  | nested accessor inner later => nested (accessor.requote f) inner.requote later.requote

def Expr.requote : Expr → Expr
  | source text => source (f text)
  | named name => named name
  | parens inside => parens inside.requote
  | assign name value => assign name value.requote
  | access object accessor => access object.requote (accessor.requote f)

def Value.requote : Value → Value
  | named name => named name
  | written text wrapped isSequence => written (f text) wrapped isSequence
  | part value => part (value.requote f)

def Reads.requote : Reads → Reads
  | repeatable value => repeatable (value.requote f)
  | once value => once (value.map (Expr.requote f))
  | assigned first name holder => assigned (first.map (Expr.requote f)) name holder

def FlatBinding.requote (b : FlatBinding) : FlatBinding :=
  ⟨b.target.map (Target.requote f), b.value.requote f, b.trailing⟩

def LoweredSite.requote (site : LoweredSite) : LoweredSite :=
  { site with bindings := site.bindings.map (FlatBinding.requote f) }

def Fragment.requote : Fragment → Fragment
  | made text => made text
  | quoted text => quoted (f text)

lemma Target.name?_requote (target : Target) : (target.requote f).name? = target.name? := by
  cases target <;> rfl

namespace Pattern

@[simp] lemma count_requote (pattern : Pattern) : (pattern.requote f).count = pattern.count := by
  induction pattern with
  | done => rfl
  | leaf accessor target later ih => exact congrArg (· + 1) ih
  | nested accessor inner later _ ih => exact congrArg (· + 1) ih

@[simp] lemma names_requote (pattern : Pattern) : (pattern.requote f).names = pattern.names := by
  induction pattern with
  | done => rfl
  | leaf accessor target later ih => simp [requote, names, ih, Target.name?_requote]
  | nested accessor inner later ihInner ih => simp [requote, names, ihInner, ih]

@[simp] lemma lastName?_requote (pattern : Pattern) :
    (pattern.requote f).lastName? = pattern.lastName? := by
  induction pattern with
  | done => rfl
  | leaf accessor target later ih =>
    cases later with
    | done => exact Target.name?_requote f target
    | leaf => exact ih
    | nested => exact ih
  | nested accessor inner later _ ih => exact ih

end Pattern

namespace Value

@[simp] lemma forItem_requote (value : Value) :
    (value.requote f).forItem = value.forItem.requote f := by
  cases value with
  | named name => rfl
  | written text wrapped isSequence => cases isSequence <;> rfl
  | part value => rfl

@[simp] lemma forAccess_requote (value : Value) :
    (value.requote f).forAccess = value.forAccess.requote f := by
  cases value with
  | named name => rfl
  | written text wrapped isSequence => cases wrapped <;> rfl
  | part value => rfl

end Value

namespace Reads

lemma next_requote (reads : Reads) : (reads.requote f).next =
    reads.next.map (Prod.map (Expr.requote f) (Reads.requote f)) := by
  cases reads with
  | repeatable value => rfl
  | once value => cases value <;> rfl
  | assigned first name holder => cases first <;> rfl

lemma check_requote (reads : Reads) : (reads.requote f).check = reads.check := by
  cases reads with
  | repeatable value => rfl
  | once value => rfl
  | assigned first name holder => cases first <;> rfl

lemma reference_requote (reads : Reads) : (reads.requote f).reference = reads.reference := by
  cases reads with
  | assigned first name holder => cases holder <;> rfl
  | _ => rfl

end Reads

namespace Unwind

variable (setting : Setting) (pattern : Pattern) {α β : Type}

lemma map_of_ok (g : α → β) {x : Unwind α} {a : α} {w w' : Workbench} (ran : x w = .ok a w') :
    (g <$> x) w = .ok (g a) w' := by
  change EStateM.map g x w = _
  simp [EStateM.map, ran]

lemma map_of_error (g : α → β) {x : Unwind α} {fault : Fault} {w w' : Workbench}
    (failed : x w = .error fault w') : (g <$> x) w = .error fault w' := by
  change EStateM.map g x w = _
  simp [EStateM.map, failed]

lemma ofExcept_map (g : α → β) (e : Except Fault α) : ofExcept (e.map g) = g <$> ofExcept e := by
  cases e <;> rfl

lemma thenAlways_map (g : α → β) (body : Unwind α) (last : Workbench → Workbench) :
    thenAlways (g <$> body) last = g <$> thenAlways body last := by
  funext w
  cases ran : body w with
  | ok a w' =>
    rw [map_of_ok g (show thenAlways body last w = .ok a (last w') by simp [thenAlways, ran])]
    simp [thenAlways, map_of_ok g ran]
  | error fault w' =>
    rw [map_of_error g (show thenAlways body last w =
      .error fault (last w') by simp [thenAlways, ran])]
    simp [thenAlways, map_of_error g ran]

lemma hold_requote (value : Expr) : hold setting (pattern.requote f) (value.requote f) =
    Reads.requote f <$> hold setting pattern value := by
  unfold hold
  have same (reserved : List String) : ownName? setting (pattern.requote f) reserved =
      ownName? setting pattern reserved := by simp [ownName?]
  rw [map_bind]
  refine bind_congr fun w => ?_
  rw [same]
  cases ownName? setting pattern w.reserved with
  | some name => rfl
  | none => rfl

lemma resolve_requote (value : Value) (consumers : Nat) :
    resolve setting (pattern.requote f) (value.requote f) consumers =
      Reads.requote f <$> resolve setting pattern value consumers := by
  have held : hold setting (pattern.requote f) (value.requote f).forItem =
      Reads.requote f <$> hold setting pattern value.forItem := by
    rw [Value.forItem_requote, hold_requote]
  have access := Value.forAccess_requote f value
  cases value with
  | named name =>
    simp only [resolve, Value.requote, Pattern.names_requote] at held ⊢
    split
    · exact held
    · rfl
  | written text wrapped isSequence =>
    simp only [resolve, Value.requote] at held access ⊢
    split
    · rw [access]
      rfl
    · exact held
  | part value =>
    simp only [resolve, Value.requote] at held access ⊢
    split
    · rw [access]
      rfl
    · exact held

lemma release_requote (reads : Reads) :
    release setting (reads.requote f) = release setting reads := by
  cases reads with
  | repeatable value => rfl
  | once value => rfl
  | assigned first name holder => cases holder <;> rfl

lemma emptyLevel_requote (value : Value) (isTop : Bool) :
    emptyLevel setting (value.requote f) isTop =
    List.map (FlatBinding.requote f) <$> emptyLevel setting value isTop := by
  unfold emptyLevel
  rw [Value.forItem_requote]
  cases setting.context with
  | declaration kind =>
    rw [map_bind]
    exact bind_congr fun name => rfl
  | assignment => rfl

/-- Bindings and the reads that are left, with other texts. -/
def requoteBoth (result : List FlatBinding × Reads) : List FlatBinding × Reads :=
  (result.1.map (FlatBinding.requote f), result.2.requote f)

lemma level_requote (value : Value) (isTop : Bool) (depth : Nat)
    {inside inside' : Reads → Unwind (List FlatBinding × Reads)}
    (alike : ∀ reads, inside' (reads.requote f) = requoteBoth f <$> inside reads) :
    level setting (pattern.requote f) (value.requote f) isTop depth inside' =
      List.map (FlatBinding.requote f) <$> level setting pattern value isTop depth inside := by
  unfold level
  rw [Pattern.count_requote]
  dsimp only
  split
  · rfl
  split
  · exact emptyLevel_requote f setting value isTop
  · rw [resolve_requote, bind_map_left, map_bind]
    refine bind_congr fun reads => ?_
    rw [Reads.reference_requote, map_bind]
    refine bind_congr fun _ => ?_
    rw [alike, release_requote, thenAlways_map, bind_map_left, map_bind]
    refine bind_congr fun result => ?_
    rw [requoteBoth, Reads.check_requote, map_bind]
    refine bind_congr fun _ => rfl

lemma parts_requote (depth : Nat) (trailing : Bool) (reads : Reads) :
    parts setting (pattern.requote f) depth trailing (reads.requote f) =
      requoteBoth f <$> parts setting pattern depth trailing reads := by
  induction pattern generalizing depth trailing reads with
  | done =>
    rw [Pattern.requote, parts, parts]
    cases trailing with
    | true =>
      rw [if_pos rfl, if_pos rfl, Reads.next_requote, ofExcept_map, bind_map_left, map_bind]
      exact bind_congr fun result => rfl
    | false => rfl
  | leaf accessor target later ih =>
    rw [Pattern.requote, parts, parts, Reads.next_requote, ofExcept_map, bind_map_left, map_bind]
    refine bind_congr fun result => ?_
    dsimp only [Prod.map]
    rw [ih, bind_map_left, map_bind]
    exact bind_congr fun rest => rfl
  | nested accessor inner later ihInner ih =>
    rw [Pattern.requote, parts, parts, Reads.next_requote, ofExcept_map, bind_map_left, map_bind]
    refine bind_congr fun result => ?_
    have first :
        level setting (inner.requote f) (.part (.access (result.1.requote f) (accessor.requote f)))
          false (depth + 1) (parts setting (inner.requote f) (depth + 1) false) = _ :=
      level_requote f setting inner (.part (.access result.1 accessor)) false (depth + 1)
        (ihInner (depth + 1) false)
    dsimp only [Prod.map]
    rw [first, bind_map_left, map_bind]
    refine bind_congr fun bindings => ?_
    rw [ih, bind_map_left, map_bind]
    refine bind_congr fun rest => ?_
    simp [requoteBoth]

/-- Unwinding a site does not look at the quoted texts. -/
lemma site_requote (value : Value) : site setting (pattern.requote f) (value.requote f) =
    List.map (FlatBinding.requote f) <$> site setting pattern value :=
  level_requote f setting pattern value true 0 (parts_requote f setting pattern 0 _)

end Unwind

lemma Accessor.fragments_requote (accessor : Accessor) :
    (accessor.requote f).fragments = accessor.fragments.map (Fragment.requote f) := by
  cases accessor <;> rfl

lemma Target.fragments_requote (target : Target) :
    (target.requote f).fragments = target.fragments.map (Fragment.requote f) := by
  cases target <;> rfl

lemma Expr.fragments_requote (e : Expr) :
    (e.requote f).fragments = e.fragments.map (Fragment.requote f) := by
  induction e with
  | source text => rfl
  | named name => rfl
  | parens inside ih => simp [requote, fragments, ih, Fragment.requote]
  | assign name value ih => simp [requote, fragments, ih, Fragment.requote]
  | access object accessor ih => simp [requote, fragments, ih, accessor.fragments_requote]

lemma FlatBinding.fragments_requote (b : FlatBinding) :
    (b.requote f).fragments = b.fragments.map (Fragment.requote f) := by
  obtain ⟨target, value, trailing⟩ := b
  cases target with
  | none => exact value.fragments_requote f
  | some target =>
    simp [requote, fragments, target.fragments_requote, value.fragments_requote, Fragment.requote]

/-- The pieces of a replacement stay in their places. -/
lemma LoweredSite.fragments_requote (site : LoweredSite) :
    (site.requote f).fragments = site.fragments.map (Fragment.requote f) := by
  have items :
      [Fragment.made ", "].intercalate ((site.requote f).bindings.map FlatBinding.fragments) =
        ([Fragment.made ", "].intercalate (site.bindings.map FlatBinding.fragments)).map
          (Fragment.requote f) := by
    have same : (site.requote f).bindings.map FlatBinding.fragments =
        (site.bindings.map FlatBinding.fragments).map (List.map (Fragment.requote f)) := by
      simp [requote, FlatBinding.fragments_requote]
    rw [same, Fragment.map_intercalate rfl fun _ _ => List.map_append]
    rfl
  unfold fragments
  rw [items]
  cases h : site.parenthesize <;> simp [requote, h, Fragment.requote]

namespace Table

variable {f} {t : Table} {b b' : EditBuffer} {n : NodeId}

/-- A key of a pattern that is no expression. -/
inductive HasKey (t : Table) : NodeId → NodeId → Prop where
  | key {n key target : NodeId} (found : t.form? n =
      some (.bindingProperty (some key) false target)) :
    HasKey t n key
  | inner {n part m : NodeId} {form : Form} (found : t.form? n = some form)
    (nested : part ∈ form.nestedParts) (inside : HasKey t part m) : HasKey t n m

/-- In the buffer `b'` stands `f text` wherever `b` has a `text` that the pattern `n` quotes. -/
structure Requotes (t : Table) (f : String → String) (b b' : EditBuffer) (n : NodeId) : Prop where
  expressions : ∀ m, t.HasExpression n m → t.textOf b' m = f (t.textOf b m)
  keys : ∀ m, t.HasKey n m → t.textOf b' m = t.textOf b m

lemma Requotes.part {part : NodeId} {form : Form} (requotes : t.Requotes f b b' n)
    (found : t.form? n = some form) (nested : part ∈ form.nestedParts) : t.Requotes f b b' part :=
  ⟨fun m has => requotes.expressions m (.inner found nested has),
    fun m has => requotes.keys m (.inner found nested has)⟩

end Table

namespace Pattern

variable {f} {t : Table} {b b' : EditBuffer} {n : NodeId}

lemma nodeText_requote {m : NodeId} (same : t.textOf b' m = f (t.textOf b m)) :
    nodeText t b' m = (nodeText t b m).map f := by
  unfold nodeText
  unfold Table.textOf at same
  cases found : t.get? m with
  | none => rfl
  | some node => simpa [found, Except.map] using same

lemma keyAccessor_requote {key : NodeId} (same : t.textOf b' key = t.textOf b key) :
    keyAccessor t b' key = (keyAccessor t b key).map (Accessor.requote f) := by
  have literal : keyAccessor.literalKey t b' key =
      (keyAccessor.literalKey t b key).map (Accessor.requote f) := by
    unfold keyAccessor.literalKey
    rw [nodeText_requote (f := id) same]
    cases nodeText t b key <;> rfl
  unfold keyAccessor
  split
  · rfl
  · split
    · split
      · rfl
      · exact literal
    · exact literal
  · exact literal
  · rfl

lemma propertyAccessor_requote {property target : NodeId} {key : Option NodeId} {computed : Bool}
    (found : t.form? property = some (.bindingProperty key computed target))
    (requotes : t.Requotes f b b' property) : propertyAccessor t b' key computed target =
      (propertyAccessor t b key computed target).map (Accessor.requote f) := by
  unfold propertyAccessor
  cases key with
  | none =>
    dsimp only
    split <;> rfl
  | some key =>
    cases computed with
    | true =>
      simp only [if_true]
      rw [nodeText_requote (requotes.expressions key (.key found))]
      cases nodeText t b key <;> rfl
    | false => exact keyAccessor_requote (requotes.keys key (.key found))

/-- A part of a pattern with other texts. -/
def requotePart (f : String → String) (part : Accessor × NodeId) : Accessor × NodeId :=
  (part.1.requote f, part.2)

lemma propertyParts_requote {properties : List NodeId}
    (requotes : ∀ q ∈ properties, t.Requotes f b b' q) : propertyParts t b' properties =
      (propertyParts t b properties).map (List.map (requotePart f)) := by
  induction properties with
  | nil => rfl
  | cons property later ih =>
    have rest := ih fun q mem => requotes q (by simp [mem])
    unfold propertyParts
    split
    · rename_i key computed target found
      rw [propertyAccessor_requote found (requotes property (by simp)), rest]
      cases propertyAccessor t b key computed target with
      | error fault => rfl
      | ok accessor => cases propertyParts t b later <;> rfl
    · rfl

variable {parts : List (Accessor × NodeId)} {declared : Bool}

lemma property_of_mem {properties : List NodeId} (found : propertyParts t b properties = .ok parts)
    {part : Accessor × NodeId} (mem : part ∈ parts) :
    ∃ q ∈ properties, ∃ key computed, t.form? q = some (.bindingProperty key computed part.2) := by
  obtain ⟨q, isProperty, isTarget⟩ : ∃ q ∈ properties, t.propertyTarget? q = some part.2 := by
    rw [← List.mem_filterMap, ← propertyParts_targets found]
    exact List.mem_map_of_mem mem
  unfold Table.propertyTarget? at isTarget
  split at isTarget
  · cases isTarget
    exact ⟨q, isProperty, _, _, ‹_›⟩
  · cases isTarget

lemma item_of_mem {index : Nat} {elements : List (Option NodeId)}
    (found : itemParts t index elements = .ok parts) {part : Accessor × NodeId}
    (mem : part ∈ parts) : requotePart f part = part ∧
      ∃ q, some q ∈ elements ∧ (q = part.2 ∨ t.form? q = some (.restElement part.2)) := by
  induction elements generalizing index parts with
  | nil =>
    cases found
    cases mem
  | cons element later ih =>
    cases element with
    | none =>
      obtain ⟨same, q, isItem, rest⟩ := ih found mem
      exact ⟨same, q, by simp [isItem], rest⟩
    | some first =>
      unfold itemParts at found
      split at found
      · rename_i target isRest
        split at found
        · cases found
          cases List.mem_singleton.mp mem
          exact ⟨rfl, first, by simp, .inr isRest⟩
        · cases found
      · obtain ⟨rest, isRest, made⟩ := Except.bind_eq_ok.mp found
        cases made
        rcases List.mem_cons.mp mem with rfl | mem
        · exact ⟨rfl, first, by simp, .inl rfl⟩
        · obtain ⟨same, q, isItem, rest⟩ := ih isRest mem
          exact ⟨same, q, by simp [isItem], rest⟩

lemma assemble_requote {inner inner' : NodeId → Except Fault Pattern}
    (deep : ∀ part ∈ parts, t.isPattern part.2 → inner' part.2 = (inner part.2).map (requote f))
    (flat : ∀ part ∈ parts, t.isPattern part.2 = false → t.name? part.2 = none →
      t.textOf b' part.2 = f (t.textOf b part.2)) :
    assemble t b' inner' (parts.map (requotePart f)) = (assemble t b inner parts).map
      (requote f) := by
  induction parts with
  | nil => rfl
  | cons part later ih =>
    obtain ⟨accessor, target⟩ := part
    have rest := ih (fun part mem => deep part (by simp [mem]))
      (fun part mem => flat part (by simp [mem]))
    change assemble t b' inner' ((accessor.requote f, target) :: later.map (requotePart f)) = _
    unfold assemble
    split
    · rename_i isPattern
      rw [deep (accessor, target) (by simp) isPattern, rest]
      cases inner target with
      | error fault => rfl
      | ok pattern => cases assemble t b inner later <;> rfl
    · rename_i noPattern
      split
      · rw [rest]
        cases assemble t b inner later <;> rfl
      · rename_i unnamed
        have same := flat (accessor, target) (by simp) (Bool.eq_false_iff.mpr noPattern) unnamed
        rw [nodeText_requote same, rest]
        cases nodeText t b target with
        | error fault => rfl
        | ok text => cases assemble t b inner later <;> rfl

/-- A target that is taken over as it is written is an expression of the pattern. -/
lemma target_requote {target : NodeId} (fits : Fits t (.target declared) target)
    (requotes : t.Requotes f b b' target) (noPattern : t.isPattern target = false)
    (unnamed : t.name? target = none) : t.textOf b' target = f (t.textOf b target) := by
  obtain ⟨form, _, found, _⟩ := fits.form
  exact requotes.expressions target
    (.target found ((fits.walkable_of_target noPattern).plain found) unnamed)

lemma readWithin_requote {opens closes : Nat → Prop} (tidy : t.Tidy opens closes) (bound : Nat)
    (fits : Fits t (.target declared) n) (requotes : t.Requotes f b b' n) :
    readWithin t b' bound n = (readWithin t b bound n).map (requote f) := by
  induction bound generalizing n declared with
  | zero => rfl
  | succ bound ih =>
    obtain ⟨form, slots, found, known, inner⟩ := fits.form
    -- The targets of the parts are read alike, whether they are patterns or not.
    have assembled {parts : List (Accessor × NodeId)} {qs : List NodeId}
        (all : List.Forall₂ (t.IsPart b) parts qs)
          (each : ∀ part ∈ parts, t.Requotes f b b' part.2) :
        assemble t b' (readWithin t b' bound) (parts.map (requotePart f)) =
          (assemble t b (readWithin t b bound) parts).map (requote f) := by
      have fits (part : Accessor × NodeId) (mem : part ∈ parts) :
          ∃ declared, Fits t (.target declared) part.2 :=
        ((List.forall₂_and_left _ _).mp
          (all.imp fun _ _ isPart => ⟨isPart.fits, isPart⟩)).1 part mem
      refine assemble_requote (fun part mem _ => ?_) (fun part mem noPattern unnamed => ?_)
      · obtain ⟨_, fits⟩ := fits part mem
        exact ih fits (each part mem)
      · obtain ⟨_, fits⟩ := fits part mem
        exact target_requote fits (each part mem) noPattern unnamed
    unfold readWithin
    rw [found]
    cases form with
    | objectPattern properties =>
      cases known
      have requotes' (q : NodeId) (mem : q ∈ properties) : t.Requotes f b b' q :=
        requotes.part found mem
      obtain ⟨parts, isParts, all⟩ := Table.propertyParts_eq_ok tidy
        (fun q mem => inner (.bindingProperty declared, q) (List.mem_map_of_mem mem)) b
      dsimp only
      rw [propertyParts_requote requotes', isParts]
      refine assembled all fun part mem => ?_
      obtain ⟨q, isProperty, key, computed, found'⟩ := property_of_mem isParts mem
      exact (requotes' q isProperty).part found' (List.mem_singleton_self _)
    | arrayPattern elements =>
      cases known
      obtain ⟨parts, isParts, all⟩ := Table.itemParts_eq_ok tidy inner b 0
      have same : parts.map (requotePart f) = parts :=
        (List.map_congr_left fun part mem => (item_of_mem isParts mem).1).trans (List.map_id _)
      dsimp only
      rw [isParts]
      refine (congrArg _ same.symm).trans (assembled all fun part mem => ?_)
      obtain ⟨_, q, isItem, isTarget⟩ := item_of_mem (f := f) isParts mem
      have requotes' :
          t.Requotes f b b' q := requotes.part found (List.mem_filterMap.mpr ⟨_, isItem, rfl⟩)
      rcases isTarget with rfl | isRest
      · exact requotes'
      · exact requotes'.part isRest (List.mem_singleton_self _)
    | _ => rfl

/-- Reading a pattern keeps everything but the quoted texts. -/
lemma read_requote {opens closes : Nat → Prop} (tidy : t.Tidy opens closes)
    (fits : Fits t (.target declared) n) (requotes : t.Requotes f b b' n) :
    read t b' n = (read t b n).map (requote f) :=
  readWithin_requote tidy _ fits requotes

end Pattern

namespace Table

variable {f} {t : Table} {b b' : EditBuffer} {n : NodeId}

lemma siteValue_requote {m : NodeId} (same : t.name? m = none → t.textOf b' m = f (t.textOf b m)) :
    t.siteValue b' m = (t.siteValue b m).map (Value.requote f) := by
  unfold siteValue
  split
  · rfl
  · rename_i unnamed
    rw [Pattern.nodeText_requote (same unnamed)]
    cases Pattern.nodeText t b m <;> rfl

/-- If a site finds other texts for what it quotes, it is lowered in the same way with these
texts. -/
lemma Tree.lowerSite_requote {text : Text} {root : NodeId} (tree : t.Tree text root)
    {place : Lowerable} (ok : t.lowerable n = .ok place) (requotes : t.Requotes f b b' n)
    (same : t.name? place.value = none → t.textOf b' place.value = f (t.textOf b place.value))
    (retain : Bool) (scopes : Scopes) (log : Array Event) : t.lowerSite b' n retain scopes log =
      ((t.lowerSite b n retain scopes log).1.map (LoweredSite.requote f),
        (t.lowerSite b n retain scopes log).2) := by
  have isPattern := isPattern_of_lowerable ok
  obtain ⟨declared, fits⟩ := tree.fits_target isPattern
  obtain ⟨pattern, read, _⟩ := read_eq_ok tree.tidy fits isPattern b
  obtain ⟨value, isValue⟩ := Pass.siteValue_eq_ok tree ok b
  obtain ⟨form, found, _⟩ := tree.lowerable_parts ok
  obtain ⟨whole, isWhole, _⟩ := form?_eq_some.mp found
  have read' : Pattern.read t b' n = .ok (pattern.requote f) := by
    rw [Pattern.read_requote tree.tidy fits requotes, read]
    rfl
  have isValue' : t.siteValue b' place.value = .ok (value.requote f) := by
    rw [siteValue_requote same, isValue]
    rfl
  unfold lowerSite
  rw [siteParts_eq_ok.mpr ⟨ok, isWhole, read, isValue, rfl⟩,
    siteParts_eq_ok.mpr ⟨ok, isWhole, read', isValue', rfl⟩]
  dsimp only
  rw [Unwind.site_requote]
  generalize Unwind.site ⟨place.context, scopes.closest t n, retain, t.hasComputedKeys n⟩ pattern
    value = unwind
  cases ran : unwind ⟨scopes, [], 0, log⟩ with
  | error fault w =>
    rw [Unwind.map_of_error _ ran]
    rfl
  | ok bindings w =>
    rw [Unwind.map_of_ok _ ran]
    simp [Except.map, LoweredSite.requote]

end Table

end PatternLowering

import PatternLowering.Proofs.MarkedTexts
import PatternLowering.Proofs.Outlines
import PatternLowering.Proofs.Policies
import PatternLowering.Proofs.Retention

/-!
# Runs with and without declarations

A run that declares its temporaries and one that does not go side by side. The edits of both are the
edits of one list with marked texts: the first run writes the marks, the second one leaves them out,
and with them the edits that consist of nothing else. A site around a function takes over the marked
declaration of the function, and so on up to the output.
-/

namespace PatternLowering

open List MarkedEdit EditBuffer

open Pass (range)

namespace MarkedEdit

variable {edits : List MarkedEdit} {text : Text} {cursor stop : Nat} {r : Nat × Nat}

def editsIn (edits : List MarkedEdit) (r : Nat × Nat) : List MarkedEdit :=
  edits.filter fun e => e.isWithin r.1 r.2

/-- The marked text of a range. -/
def written (text : Text) (edits : List MarkedEdit) (r : Nat × Nat) : MarkedText :=
  render text r.2 r.1 (editsIn edits r)

/-- What is an insertion only inserts declarations. -/
def InsertsDeclarations (edits : List MarkedEdit) : Prop :=
  ∀ e ∈ edits, e.start = e.stop → e.text.bare = []

lemma editsFrom_bare (inOrder : EditsFrom text cursor (edits.map full)) :
    EditsFrom text cursor (edits.map bare) := by
  refine ⟨fun e mem => ?_, pairwise_map.mpr (pairwise_map.mp inOrder.ordered), fun e mem => ?_⟩
  · obtain ⟨m, isEdit, rfl⟩ := mem_map.mp mem
    exact inOrder.ranges m.full (mem_map_of_mem isEdit)
  · obtain ⟨m, isEdit, rfl⟩ := mem_map.mp mem
    exact inOrder.ahead m.full (mem_map_of_mem isEdit)

/-- The text without its declarations comes from the edits without their declarations. -/
lemma bare_render_of_ordered (inOrder : EditsFrom text cursor (edits.map full))
    (opens : text.isBoundary cursor) (closes : text.isBoundary stop) (forward : cursor ≤ stop)
    (upTo : ∀ e ∈ edits, e.stop ≤ stop) (inserts : InsertsDeclarations edits) :
    (render text stop cursor edits).bare = EditBuffer.render text stop cursor
      (replacements edits) := by
  rw [bare_render, replacements]
  refine ((editsFrom_bare inOrder).render_replacements opens closes forward (fun e mem => ?_)
    fun e mem => ?_).symm
  · obtain ⟨m, isEdit, rfl⟩ := mem_map.mp mem
    exact upTo m isEdit
  · obtain ⟨m, isEdit, rfl⟩ := mem_map.mp mem
    exact fun insertion => inserts m isEdit (eq_of_beq insertion)

/-- Edits are chosen by their ranges, whatever their texts are. -/
lemma replacements_filter (edits : List MarkedEdit) (keep : Edit → Bool)
    (byRange : ∀ e : MarkedEdit, keep e.full = keep e.bare) :
    replacements (edits.filter fun e => keep e.full) = (replacements edits).filter keep := by
  unfold replacements
  rw [filter_filter, filter_map, filter_map, filter_filter]
  congr 1
  refine filter_congr fun e _ => ?_
  rw [byRange e]
  exact Bool.and_comm _ _

/-- The edits with another one that takes over what is in its range. -/
def replace (edits : List MarkedEdit) (e : MarkedEdit) : List MarkedEdit :=
  e.insertInto (edits.filter fun f => !f.isWithin e.start e.stop)

lemma mem_replace {e f : MarkedEdit} (mem : f ∈ replace edits e) : f = e ∨ f ∈ edits :=
  (mem_cons.mp ((insertInto_perm e _).subset mem)).imp_right mem_of_mem_filter

lemma full_replace (edits : List MarkedEdit) (e : MarkedEdit) : (replace edits e).map full =
    e.full.insertInto ((edits.map full).filter fun f => !f.isWithin e.start e.stop) := by
  rw [replace, full_insertInto, filter_map]
  rfl

lemma replacements_replace {e : MarkedEdit} (wide : e.start < e.stop)
    (inOrder : EditsFrom text cursor (edits.map full)) : replacements (replace edits e) =
      e.bare.insertInto ((replacements edits).filter fun f => !f.isWithin e.start e.stop) := by
  have kept : EditsFrom text cursor ((edits.filter fun f => !f.isWithin e.start e.stop).map bare) :=
    editsFrom_bare (inOrder.sublist (filter_sublist.map full))
  have placed := Edit.filter_insertInto_of_wide (e := e.bare) wide
    (fun f mem => (kept.ranges f mem).1) kept.ordered
  rw [← replacements_filter edits (fun f => !f.isWithin e.start e.stop) fun _ => rfl,
    replacements, replace, bare_insertInto, placed]
  rfl

/-- A replacement that has the declarations in its range neither adds nor drops one. -/
lemma declarations_replace {e : MarkedEdit}
    (same : e.text.declarations.Perm (declarations (editsIn edits (e.start, e.stop)))) :
    (declarations (replace edits e)).Perm (declarations edits) := by
  let inner := editsIn edits (e.start, e.stop)
  let kept := edits.filter fun f => !f.isWithin e.start e.stop
  have sorted : (inner ++ kept).Perm edits :=
    filter_append_perm (fun f : MarkedEdit => f.isWithin e.start e.stop) edits
  calc List.Perm (declarations (replace edits e)) (e.text.declarations ++ declarations kept) :=
        declarations_perm (insertInto_perm e kept)
    List.Perm _ (declarations inner ++ declarations kept) := same.append_right _
    List.Perm _ (declarations (inner ++ kept)) := .of_eq flatMap_append.symm
    List.Perm _ (declarations edits) := declarations_perm sorted

end MarkedEdit

/-- A piece of an outline with marked texts in the places of the labels. -/
def Fragment.marked (written : NodeId → MarkedText) : Fragment → MarkedText
  | made text => [.plain text.toList]
  | quoted text => written text.length

namespace LoweredSite

variable (site : LoweredSite) {written : NodeId → MarkedText}

/-- The replacement with the marked texts of the expressions. -/
def marked (written : NodeId → MarkedText) : MarkedText :=
  site.fragments.flatMap (Fragment.marked written)

lemma flatMap_marked {view : Mark → Text} {f : String → String}
    (plain : ∀ text, view (.plain text) = text)
    (quotes : ∀ x ∈ site.fragments.filterMap Fragment.quoted?, (written x.length).flatMap view =
      (f x).toList) : (site.marked written).flatMap view = (site.requote f).replacement.toList := by
  rw [← text_fragments, fragments_requote, flatMap_map, marked, flatMap_assoc]
  refine flatMap_congr fun x mem => ?_
  cases x with
  | made text => simp [Fragment.marked, Fragment.requote, Fragment.text, plain]
  | quoted text => exact quotes text (mem_filterMap.mpr ⟨_, mem, rfl⟩)

lemma declarations_marked : (site.marked written).declarations =
    (site.fragments.filterMap Fragment.quoted?).flatMap fun x =>
      (written x.length).declarations := by
  unfold marked
  induction site.fragments with
  | nil => rfl
  | cons x later ih =>
    rw [flatMap_cons, MarkedText.declarations_append, ih]
    cases x with
    | made text => rfl
    | quoted text => rfl

end LoweredSite

def PassInput.declaring (tempDeclarations : Bool) (input : PassInput) : PassInput :=
  { input with options := { input.options with tempDeclarations := tempDeclarations } }

/-- The text of the declaration that an action inserts. -/
def Action.declaration? (input : PassInput) (p : Pass) : Action → Option Text
  | declareTemps n statements =>
    let temps := p.scopes.declaredTemps (p.scopes.closest input.table n)
    if !input.options.tempDeclarations || temps.isEmpty then none
    else some (TempDeclaration.place input.table p.buffer.source statements
      (TempDeclaration.text temps)).2
  | _ => none

namespace Pass

variable {input : PassInput} {root n : NodeId} {text : Text} {p q : Pass} {edits : List MarkedEdit}
  {retain : Bool}

section Outlined

variable {place : Lowerable} {scopes : Scopes} {log : Array Event}

/-- The site lowered with labels in the places of its expressions. -/
def outline (input : PassInput) (text : Text) (retain : Bool) (n : NodeId) (place : Lowerable)
    (p : Pass) : Except Failure LoweredSite × Scopes × Array Event :=
  input.table.lowerSite (input.table.labelled text (input.table.embedded place n)) n retain
    p.scopes p.log

lemma lower_of_refused {failure : Failure} (refused : input.table.lowerable n = .error failure) :
    p.lower input retain n = p.failed input n failure := by
  unfold lower
  rw [Table.lowerSite_of_refused refused]

variable (tree : input.table.Tree text root)
  (prepared : Prepared input.table text (.lower retain n) p)
  (ok : input.table.lowerable n = .ok place)

include tree prepared ok

lemma lowerSite_of_outline {result : Except Failure LoweredSite}
    (outlined : p.outline input text retain n place = (result, scopes, log)) :
    input.table.lowerSite p.buffer n retain p.scopes p.log =
      (result.map (LoweredSite.requote fun x => input.table.textOf p.buffer x.length),
        scopes, log) := by
  have lowered := tree.lowerSite_eq ok prepared.1 (prepared.2 place ok) retain p.scopes p.log
  unfold outline at outlined
  rwa [outlined] at lowered

/-- A site fails as its outline does. -/
lemma lower_of_outline_error {failure : Failure}
    (outlined : p.outline input text retain n place = (.error failure, scopes, log)) :
    p.lower input retain n = failed input n failure { p with scopes := scopes, log := log } := by
  have lowered := lowerSite_of_outline tree prepared ok outlined
  unfold lower
  rw [lowered]
  rfl

/-- Otherwise the outline, with the texts of the expressions, is put in place of the site. -/
lemma lower_of_outline {whole : Node} {site : LoweredSite}
    (isWhole : input.table.get? place.whole = some whole)
    (outlined : p.outline input text retain n place = (.ok site, scopes, log)) :
    p.lower input retain n =
      { p with
        buffer := { p.buffer with
          edits := Edit.insertInto ⟨whole.start, whole.stop,
              (site.requote fun x => input.table.textOf p.buffer x.length).replacement.toList⟩
            (p.buffer.edits.filter fun e => !e.isWithin whole.start whole.stop) }
        scopes := scopes, sites := p.sites + 1, log := log } := by
  have lowered := lowerSite_of_outline tree prepared ok outlined
  obtain ⟨_, _, _, _, _, ok', isWhole', _, _, start, stop, _⟩ := Table.lowerSite_eq_ok outlined
  cases ok.symm.trans ok'
  cases isWhole.symm.trans isWhole'
  let requoted := site.requote fun x => input.table.textOf p.buffer x.length
  have replaced := prepared.replace tree ok isWhole requoted.replacement.toList
  rw [← start, ← stop] at replaced ⊢
  unfold lower
  rw [lowered]
  simp only [Except.map]
  have same : p.buffer.replace requoted.start requoted.stop requoted.replacement.toList = _ :=
    replaced
  rw [same]

end Outlined

/-- The edits of the first run are these edits with their declarations, those of the second one are
without them. All else is the same. -/
structure Twins (text : Text) (edits : List MarkedEdit) (p q : Pass) : Prop where
  full : p.buffer = ⟨text, edits.map MarkedEdit.full, text.size⟩
  bare : q = { p with buffer := ⟨text, MarkedEdit.replacements edits, text.size⟩ }
  orderly : p.buffer.Orderly
  inserts : MarkedEdit.InsertsDeclarations edits

namespace Twins

variable (twins : Twins text edits p q)

include twins

lemma diagnostics : q.diagnostics = p.diagnostics := by rw [twins.bare]

lemma log : q.log = p.log := by rw [twins.bare]

lemma outline (place : Lowerable) :
    q.outline input text retain n place = p.outline input text retain n place := by
  rw [twins.bare]
  rfl

lemma editsFrom : EditsFrom text 0 (edits.map MarkedEdit.full) := by
  have ordered := twins.orderly.editsFrom
  rwa [twins.full] at ordered

/-- The text of a node in the first run. -/
lemma textOf_full (tree : input.table.Tree text root) (inTree : n < input.table.size) :
    (input.table.textOf p.buffer n).toList =
      (MarkedEdit.written text edits (range input.table n)).full := by
  rw [twins.full, tree.textOf_eq rfl inTree, MarkedEdit.written, full_render, String.toList_ofList,
    EditBuffer.editsIn, filter_map]
  rfl

/-- The text of a node in the second run. -/
lemma textOf_bare (tree : input.table.Tree text root) (inTree : n < input.table.size) :
    (input.table.textOf q.buffer n).toList =
      (MarkedEdit.written text edits (range input.table n)).bare := by
  obtain ⟨node, found⟩ := Table.lt_size_iff.mp inTree
  have inside (e : MarkedEdit) (mem : e ∈ MarkedEdit.editsIn edits (range input.table n)) :
      node.start ≤ e.start ∧ e.stop ≤ node.stop := by
    have within := (mem_filter.mp mem).2
    unfold MarkedEdit.isWithin at within
    rw [range_of_get? found, Edit.isWithin_iff (r := (node.start, node.stop))] at within
    have start : e.full.start = e.start := rfl
    have stop : e.full.stop = e.stop := rfl
    rw [start, stop] at within
    omega
  have ordered : EditsFrom text node.start
      ((MarkedEdit.editsIn edits (range input.table n)).map MarkedEdit.full) := by
    refine (twins.editsFrom.sublist (List.Sublist.map _ filter_sublist)).mono fun e mem => ?_
    obtain ⟨m, isEdit, rfl⟩ := mem_map.mp mem
    exact (inside m isEdit).1
  have bare := bare_render_of_ordered ordered (tree.tidy.opened found) (tree.tidy.closed found)
    (tree.tidy.laid found).le (fun e mem => (inside e mem).2)
    fun e mem => twins.inserts e (mem_filter.mp mem).1
  have chosen := replacements_filter edits
    (fun e => e.isWithin (range input.table n).1 (range input.table n).2) fun _ => rfl
  rw [twins.bare, tree.textOf_eq rfl inTree, String.toList_ofList, MarkedEdit.written,
    EditBuffer.editsIn, ← chosen]
  rw [range_of_get? found] at bare ⊢
  exact bare.symm

lemma failed (n : NodeId) (failure : Failure) :
    Twins text edits (p.failed (input.declaring true) n failure)
      (q.failed (input.declaring false) n failure) := by
  have buffer : (p.failed (input.declaring true) n failure).buffer = p.buffer :=
    failed_buffer failure p
  refine ⟨buffer.trans twins.full, ?_, buffer ▸ twins.orderly, twins.inserts⟩
  rw [twins.bare]
  refine (failed_map (input.declaring true) p
    (fun p => { p with buffer := ⟨text, MarkedEdit.replacements edits, text.size⟩ })
    (input.declaring false) rfl (fun _ _ => rfl) n fun p start stop => ?_).symm
  cases internal : failure.isInternal <;> simp [report, record, internal, PassInput.declaring]

section Replacement

variable {place : Lowerable} {whole : Node} {site : LoweredSite} {scopes : Scopes}
  {log : Array Event} (tree : input.table.Tree text root)
  (prepared : Prepared input.table text (.lower retain n) p)
  (ok : input.table.lowerable n = .ok place) (isWhole : input.table.get? place.whole = some whole)
  (outlined : p.outline input text retain n place = (.ok site, scopes, log))

include tree prepared ok isWhole outlined

/-- The edits in the range of a site are those in its expressions. -/
lemma any_isWithin_embedded {e : MarkedEdit} (mem : e ∈ edits) :
    ((input.table.embedded place n).any fun m => e.isWithin (range input.table m).1
      (range input.table m).2) =
      e.isWithin whole.start whole.stop := by
  obtain ⟨_, ok', takesOver⟩ :=
    takesOver_of_prepared tree prepared (lowerSite_of_outline tree prepared ok outlined)
  obtain ⟨_, _, _, _, _, ok'', isWhole', _, _, start, stop, _⟩ := Table.lowerSite_eq_ok outlined
  cases ok.symm.trans ok'
  cases ok.symm.trans ok''
  cases isWhole.symm.trans isWhole'
  have isEdit : e.full ∈ p.buffer.edits := by
    rw [twins.full]
    exact mem_map_of_mem mem
  rw [Bool.eq_iff_iff, any_eq_true, ← start, ← stop]
  exact (takesOver.drops e.full isEdit).symm

/-- The marked replacement of a site has the declarations that are in the range of the site. -/
lemma declarations_outline :
    (site.marked fun m => MarkedEdit.written text edits (range input.table m)).declarations.Perm
      (MarkedEdit.declarations (MarkedEdit.editsIn edits (whole.start, whole.stop))) := by
  let inside (m : NodeId) (e : MarkedEdit) : Bool :=
    e.isWithin (range input.table m).1 (range input.table m).2
  have apart : (input.table.embedded place n).Pairwise fun m m' => ∀ e ∈ edits, inside m' e →
    ¬ inside m e :=
    (pairwise_map.mp (embedded_beside tree ok)).imp fun beside (e : MarkedEdit) mem =>
      not_isWithin_of_beside (twins.editsFrom.ranges e.full (mem_map_of_mem mem)).1 beside
  -- A label tells by its length which expression stands in its place.
  have labels (m : NodeId) (mem : m ∈ input.table.embedded place n) :
      (MarkedEdit.written text edits (range input.table
        (input.table.textOf (input.table.labelled text (input.table.embedded place n))
          m).length)).declarations =
        MarkedEdit.declarations (edits.filter (inside m)) := by
    rw [tree.textOf_labelled ok mem, length_label, MarkedEdit.written, declarations_render]
    rfl
  have drops : edits.filter (fun e => (input.table.embedded place n).any (inside · e)) =
      MarkedEdit.editsIn edits (whole.start, whole.stop) :=
    filter_congr fun e mem => twins.any_isWithin_embedded tree prepared ok isWhole outlined mem
  rw [LoweredSite.declarations_marked, ← drops]
  refine ((quoted_perm tree outlined ok).flatMap_right _).trans ?_
  rw [flatMap_map, flatMap_congr labels]
  refine (List.Perm.of_eq flatMap_assoc.symm).trans ?_
  exact declarations_perm (flatMap_filter_perm inside apart)

/-- A site is replaced in both runs. -/
lemma replace (prepared' : Prepared input.table text (.lower retain n) q) : Twins text
      (MarkedEdit.replace edits ⟨whole.start, whole.stop,
        site.marked fun m => MarkedEdit.written text edits (range input.table m)⟩)
      (p.lower (input.declaring true) retain n) (q.lower (input.declaring false) retain n) := by
  have wide := wide_of_lowerable tree ok isWhole
  have inTree {x : String} (mem : x ∈ site.fragments.filterMap Fragment.quoted?) :
      x.length < input.table.size := by
    obtain ⟨m, isEmbedded, rfl⟩ := mem_map.mp ((quoted_perm tree outlined ok).subset mem)
    rw [tree.textOf_labelled ok isEmbedded, length_label]
    exact (tree.embedded_wide ok isEmbedded).1
  have full : (site.marked fun m => MarkedEdit.written text edits (range input.table m)).full =
      (site.requote fun x => input.table.textOf p.buffer x.length).replacement.toList :=
    site.flatMap_marked (fun _ => rfl) fun x mem => (twins.textOf_full tree (inTree mem)).symm
  have bare : (site.marked fun m => MarkedEdit.written text edits (range input.table m)).bare =
      (site.requote fun x => input.table.textOf q.buffer x.length).replacement.toList :=
    site.flatMap_marked (fun _ => rfl) fun x mem => (twins.textOf_bare tree (inTree mem)).symm
  have outlined' := (twins.outline place).trans outlined
  have first : p.lower (input.declaring true) retain n = _ :=
    lower_of_outline tree prepared ok isWhole outlined
  have second : q.lower (input.declaring false) retain n = _ :=
    lower_of_outline tree prepared' ok isWhole outlined'
  have replaced := prepared.replace tree ok isWhole
    (site.requote fun x => input.table.textOf p.buffer x.length).replacement.toList
  rw [replace_eq twins.orderly] at replaced
  have orderly := twins.orderly.answer replaced
  rw [first, second, ← full, ← bare]
  rw [← full] at orderly
  refine ⟨?_, ?_, orderly, fun e mem insertion => ?_⟩
  · rw [full_replace, twins.full]
    rfl
  · rw [replacements_replace wide twins.editsFrom]
    rw [twins.bare]
    rfl
  · rcases mem_replace mem with rfl | mem
    · exact absurd insertion wide.ne
    · exact twins.inserts e mem insertion

end Replacement

/-- A site that both runs come to. -/
lemma lower (tree : input.table.Tree text root)
    (prepared : Prepared input.table text (.lower retain n) p)
    (prepared' : Prepared input.table text (.lower retain n) q) :
    ∃ edits', Twins text edits' (p.lower (input.declaring true) retain n)
        (q.lower (input.declaring false) retain n) ∧
      (MarkedEdit.declarations edits').Perm (MarkedEdit.declarations edits) := by
  cases ok : input.table.lowerable n with
  | error failure =>
    have first : p.lower (input.declaring true) retain n = _ := lower_of_refused ok
    have second : q.lower (input.declaring false) retain n = _ := lower_of_refused ok
    rw [first, second]
    exact ⟨edits, twins.failed n failure, .refl _⟩
  | ok place =>
    rcases outlined : p.outline input text retain n place with ⟨result, scopes, log⟩
    cases result with
    | error failure =>
      have outlined' := (twins.outline place).trans outlined
      have first : p.lower (input.declaring true) retain n = _ :=
        lower_of_outline_error tree prepared ok outlined
      have second : q.lower (input.declaring false) retain n = _ :=
        lower_of_outline_error tree prepared' ok outlined'
      have later : Twins text edits { p with scopes := scopes, log := log }
          { q with scopes := scopes, log := log } := by
        refine ⟨twins.full, ?_, twins.orderly, twins.inserts⟩
        rw [twins.bare]
      rw [first, second]
      exact ⟨edits, later.failed n failure, .refl _⟩
    | ok site =>
      obtain ⟨_, whole, _, _, _, ok', isWhole, _⟩ := Table.lowerSite_eq_ok outlined
      cases ok.symm.trans ok'
      exact ⟨_, twins.replace tree prepared ok isWhole outlined prepared',
        declarations_replace (twins.declarations_outline tree prepared ok isWhole outlined)⟩

/-- A declaration that is inserted in the first run is nothing in the second one. -/
lemma insert {offset : Nat} {written : Text} {b : EditBuffer}
    (inserted : p.buffer.insert offset written = .ok b) :
    Twins text (MarkedEdit.insertInto ⟨offset, offset, [.declaration written]⟩ edits)
      { p with buffer := b } q := by
  have added := eq_of_insert inserted
  rw [insert_eq twins.orderly] at inserted
  have same :
    MarkedEdit.replacements (MarkedEdit.insertInto ⟨offset, offset, [.declaration written]⟩ edits) =
      MarkedEdit.replacements edits := by
    unfold MarkedEdit.replacements
    rw [bare_insertInto, Edit.filter_insertInto_of_neg]
    simp [MarkedEdit.bare, Edit.isInsertion]
  refine ⟨?_, ?_, twins.orderly.answer inserted, fun e mem insertion => ?_⟩
  · rw [full_insertInto, added, twins.full]
    simp [MarkedEdit.full, Mark.full]
  · rw [same, twins.bare]
  · rcases mem_cons.mp ((insertInto_perm _ edits).subset mem) with rfl | mem
    · rfl
    · exact twins.inserts e mem insertion

/-- The temporaries of a scope are declared in the first run only. -/
lemma declareTemps {statements : List NodeId}
    (prepared : Prepared input.table text (.declareTemps n statements) p) :
    ∃ edits', Twins text edits' (p.declareTemps (input.declaring true) n statements)
        (q.declareTemps (input.declaring false) n statements) ∧
      (MarkedEdit.declarations edits').Perm (MarkedEdit.declarations edits ++
        ((Action.declareTemps n statements).declaration? (input.declaring true) p).toList) := by
  have second : q.declareTemps (input.declaring false) n statements = q := declareTemps_of_off rfl
  rw [second]
  let temps := p.scopes.declaredTemps (p.scopes.closest input.table n)
  obtain ⟨b, inserted⟩ := prepared.2 temps
  have first : p.declareTemps (input.declaring true) n statements = { p with buffer := b } :=
    declareTemps_of_ok rfl inserted
  rw [first]
  unfold TempDeclaration.insert at inserted
  by_cases nothing : temps.isEmpty
  · rw [if_pos nothing] at inserted
    cases inserted
    have none : (Action.declareTemps n statements).declaration? (input.declaring true) p = none :=
      if_pos nothing
    rw [none]
    exact ⟨edits, twins, .of_eq (append_nil _).symm⟩
  · rw [if_neg nothing] at inserted
    let declared := TempDeclaration.place input.table p.buffer.source statements
      (TempDeclaration.text temps)
    have some : (Action.declareTemps n statements).declaration? (input.declaring true) p =
      some declared.2 :=
      if_neg nothing
    rw [some]
    refine ⟨_, twins.insert inserted, ?_⟩
    refine (declarations_perm (insertInto_perm _ edits)).trans ?_
    exact (perm_append_singleton declared.2 (MarkedEdit.declarations edits)).symm

/-- One action of both runs. -/
lemma run {action : Action} (tree : input.table.Tree text root)
    (prepared : Prepared input.table text action p)
    (prepared' : Prepared input.table text action q) :
    ∃ edits', Twins text edits' (action.run (input.declaring true) p)
      (action.run (input.declaring false) q) ∧
      (MarkedEdit.declarations edits').Perm
        (MarkedEdit.declarations edits ++ (action.declaration? (input.declaring true)
          p).toList) := by
  cases action with
  | lower retain n =>
    obtain ⟨edits', later, perm⟩ := twins.lower tree prepared prepared'
    exact ⟨edits', later, perm.trans (.of_eq (append_nil _).symm)⟩
  | declareTemps n statements => exact twins.declareTemps prepared
  | tooDeep n =>
    refine ⟨edits, ⟨twins.full, ?_, twins.orderly, twins.inserts⟩, .of_eq (append_nil _).symm⟩
    rw [twins.bare]
    rfl

end Twins

/-- The texts of the declarations that a run inserts, in the order of the run. -/
def declarations (input : PassInput) : List Action → Pass → List Text
  | [], _ => []
  | action :: later, p =>
    (action.declaration? input p).toList ++ declarations input later (action.run input p)

/-- The two runs go side by side to their ends. -/
lemma Twins.perform {actions : List Action} (twins : Twins text edits p q)
    (tree : input.table.Tree text root)
    (along : Along (input.declaring true) (Prepared input.table text) actions p)
    (along' : Along (input.declaring false) (Prepared input.table text) actions q) :
    ∃ edits', Twins text edits' (p.perform (input.declaring true) actions)
        (q.perform (input.declaring false) actions) ∧
      (MarkedEdit.declarations edits').Perm
        (MarkedEdit.declarations edits ++ p.declarations (input.declaring true) actions) ∧
      p.siteTemporaries (input.declaring true) actions = q.siteTemporaries (input.declaring false)
        actions := by
  induction actions generalizing p q edits with
  | nil => exact ⟨edits, twins, .of_eq (append_nil _).symm, rfl⟩
  | cons action later ih =>
    obtain ⟨prepared, along⟩ := along
    obtain ⟨prepared', along'⟩ := along'
    obtain ⟨edits', next, perm⟩ := twins.run tree prepared prepared'
    obtain ⟨edits'', last, perm', temporaries⟩ := ih next along along'
    have asks :
        action.temporaries (input.declaring true) p = action.temporaries
          (input.declaring false) q := by
      unfold Action.temporaries
      rw [next.log, twins.log]
    refine ⟨edits'', last, perm'.trans ?_, ?_⟩
    · rw [declarations, ← append_assoc]
      exact perm.append_right _
    · rw [siteTemporaries_cons, siteTemporaries_cons, asks, temporaries]

/-- The texts at the ends of the two runs. -/
lemma Twins.apply (twins : Twins text edits p q) :
    p.buffer.apply = (MarkedEdit.render text text.size 0 edits).full ∧
      q.buffer.apply = (MarkedEdit.render text text.size 0 edits).bare := by
  have upTo (e : MarkedEdit) (mem : e ∈ edits) : e.stop ≤ text.size :=
    Text.le_size_of_isBoundary (twins.editsFrom.ranges e.full (mem_map_of_mem mem)).2.2
  constructor
  · rw [twins.full, full_render]
    rfl
  · rw [twins.bare, bare_render_of_ordered twins.editsFrom text.isBoundary_zero text.isBoundary_size
      (Nat.zero_le _) upTo twins.inserts]
    rfl

/-- What the two runs over a program come to. -/
lemma perform_declaring (tree : input.table.Tree text root) (fresh : p.buffer = .ofText text) :
    ∃ marked : MarkedText,
      (p.perform (input.declaring true) (input.table.plan root)).buffer.apply = marked.full ∧
      (p.perform (input.declaring false) (input.table.plan root)).buffer.apply = marked.bare ∧
      marked.declarations.Perm (p.declarations (input.declaring true) (input.table.plan root)) ∧
      (p.perform (input.declaring true) (input.table.plan root)).diagnostics =
        (p.perform (input.declaring false) (input.table.plan root)).diagnostics ∧
      (p.perform (input.declaring true) (input.table.plan root)).log =
        (p.perform (input.declaring false) (input.table.plan root)).log ∧
      p.siteTemporaries (input.declaring true) (input.table.plan root) =
        p.siteTemporaries (input.declaring false) (input.table.plan root) := by
  have along (declared : Bool) : Along (input.declaring declared) (Prepared input.table text)
      (input.table.plan root) p := by
    have tree' : (input.declaring declared).table.Tree text root := tree
    exact plan_along tree' (congrArg EditBuffer.base fresh) (congrArg EditBuffer.edits fresh)
  have start : Twins text [] p p := by
    refine ⟨fresh, ?_, fresh ▸ (holds_empty text _).orderly, fun e mem => by cases mem⟩
    cases p
    cases fresh
    rfl
  obtain ⟨edits, twins, perm, temporaries⟩ := start.perform tree (along true) (along false)
  refine ⟨_, twins.apply.1, twins.apply.2, ?_, twins.diagnostics.symm, twins.log.symm, temporaries⟩
  rw [declarations_render]
  exact perm

end Pass

namespace Lowering

variable (file source : String) (options : Options)

/-- The sites of a text that is lowered, each with the temporaries it asks for. -/
def siteTemporaries : List (NodeId × List String) :=
  if (Parsed.ofText source.toList).hasErrors then []
  else (passStart file source).siteTemporaries (passInput file source options) (passPlan source)

/-- The texts of the declarations that are inserted into a text that is lowered. -/
def insertedDeclarations : List Text :=
  if (Parsed.ofText source.toList).hasErrors then []
  else (passStart file source).declarations (passInput file source options) (passPlan source)

/-- The second output is the first one without the declarations; each of them is left out once. -/
def Erases (declarations : List Text) (output erased : Option String) : Prop :=
  (output = none ∧ erased = none ∧ declarations = []) ∨
    ∃ text : MarkedText, output = some (String.ofList text.full) ∧
      erased = some (String.ofList text.bare) ∧ text.declarations.Perm declarations

/-- The two runs of a text with and without declarations, which insert the given texts or nothing.
The last note in the log counts the edits. -/
structure SameButDeclarations (declarations : List Text) (declared plain : Lowering) : Prop where
  diagnostics : declared.diagnostics = plain.diagnostics
  output : Erases declarations declared.output plain.output
  log : declared.log.pop = plain.log.pop

lemma sameButDeclarations (policy : Policy) :
    SameButDeclarations (insertedDeclarations file source ⟨policy, true⟩)
      (lower file source ⟨policy, true⟩)
        (lower file source ⟨policy, false⟩) ∧
      siteTemporaries file source ⟨policy, true⟩ = siteTemporaries file source ⟨policy, false⟩ := by
  unfold insertedDeclarations siteTemporaries
  cases clean : (Parsed.ofText source.toList).hasErrors with
  | true =>
    rw [lower_of_faulty file _ clean, lower_of_faulty file _ clean, if_pos rfl,
      if_pos rfl, if_pos rfl]
    exact ⟨⟨rfl, .inl ⟨rfl, rfl, rfl⟩, rfl⟩, rfl⟩
  | false =>
    obtain ⟨diagnostics, output, _, log⟩ := lower_eq_perform file ⟨policy, true⟩ clean
    obtain ⟨diagnostics', output', _, log'⟩ := lower_eq_perform file ⟨policy, false⟩ clean
    have on :
        (passInput file source ⟨policy, true⟩).declaring true = passInput file source ⟨policy,
          true⟩ := rfl
    have off :
        (passInput file source ⟨policy, true⟩).declaring false = passInput file source ⟨policy,
          false⟩ := rfl
    have fresh : (passStart file source).buffer = .ofText source.toList := rfl
    have tree : (passInput file source ⟨policy, true⟩).table.Tree source.toList
        (Parsed.ofText source.toList).root := tree_of_clean clean
    obtain ⟨marked, full, bare, perm, reported, noted, temporaries⟩ :=
      Pass.perform_declaring tree fresh
    rw [on] at full perm reported noted temporaries
    rw [off] at bare reported noted temporaries
    rw [if_neg Bool.false_ne_true, if_neg Bool.false_ne_true, if_neg Bool.false_ne_true]
    refine ⟨⟨?_, .inr ⟨marked, ?_, ?_, perm⟩, ?_⟩, temporaries⟩
    · exact diagnostics.trans (reported.trans diagnostics'.symm)
    · exact output.trans (congrArg (some ∘ String.ofList) full)
    · exact output'.trans (congrArg (some ∘ String.ofList) bare)
    · rw [log, log', Array.pop_push, Array.pop_push]
      exact noted

end Lowering

-- The declaration in the function is one of those that are erased, though the site around takes it
-- over.
example : Lowering.insertedDeclarations "a.js" "[a, b] = f(function () \x7b [c, d] = e(); \x7d);"
    .default = ["var _a; ".toList, "var _a;\n".toList] := by decide +kernel

end PatternLowering

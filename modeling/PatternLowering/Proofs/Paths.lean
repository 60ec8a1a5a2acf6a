import Mathlib
import PatternLowering.Path

/-!
# The components of paths

Joining two paths puts their components together, and cutting a path takes the first ones away,
however the paths are spelled. A path is normal when no step to a parent can be left out any more;
names that are added to a path show up behind its normal form.
-/

namespace PatternLowering

open List

namespace Path

/-- The components of a text that follows a slash. -/
def inner (text : Text) : List Component := (parts text).filterMap component?

/-! ### Parts -/

lemma parts_slash (rest : Text) : parts ('/' :: rest) = [] :: parts rest := by
  simp [parts]

lemma parts_cons {c : Char} (noSlash : c ≠ '/') (rest : Text) :
    ∃ part others, parts rest = part :: others ∧ parts (c :: rest) = (c :: part) :: others := by
  have nonempty : parts rest ≠ [] := by
    cases rest with
    | nil => simp [parts]
    | cons d rest =>
      unfold parts
      split
      · simp
      · split <;> simp
  obtain ⟨part, others, found⟩ := exists_cons_of_ne_nil nonempty
  exact ⟨part, others, found, by simp [parts, noSlash, found]⟩

lemma parts_append_slash (before rest : Text) :
    parts (before ++ '/' :: rest) = parts before ++ parts rest := by
  induction before with
  | nil => exact parts_slash rest
  | cons c before ih =>
    by_cases slash : c = '/'
    · subst slash
      rw [cons_append, parts_slash, parts_slash, ih, cons_append]
    · obtain ⟨part, others, found, whole⟩ := parts_cons slash (before ++ '/' :: rest)
      obtain ⟨part', others', found', whole'⟩ := parts_cons slash before
      rw [ih, found', cons_append] at found
      cases found
      rw [cons_append, whole, whole', cons_append]

variable {text : Text} {path : Path}

lemma parts_of_no_slash (noSlash : '/' ∉ text) : parts text = [text] := by
  induction text with
  | nil => rfl
  | cons c rest ih =>
    obtain ⟨here, later⟩ : '/' ≠ c ∧ '/' ∉ rest := by simpa using noSlash
    obtain ⟨part, others, found, whole⟩ := parts_cons here.symm rest
    rw [ih later] at found
    cases found
    exact whole

lemma inner_append_slash (before rest : Text) :
    inner (before ++ '/' :: rest) = inner before ++ inner rest := by
  simp [inner, parts_append_slash]

lemma inner_slash (rest : Text) : inner ('/' :: rest) = inner rest :=
  inner_append_slash [] rest

lemma inner_nil : inner [] = [] := rfl

lemma inner_dot : inner ['.'] = [] := by decide

lemma component?_eq_none {part : Text} : component? part = none ↔ part = [] ∨ part = ['.'] := by
  unfold component?
  split
  · simpa
  · rename_i counts
    split <;> simpa using counts

lemma inner_of_no_slash (noSlash : '/' ∉ text) : inner text = (component? text).toList := by
  rw [inner, parts_of_no_slash noSlash, filterMap_cons, filterMap_nil]
  cases component? text <;> rfl

/-- Only names and steps to a parent stand behind the front. -/
lemma mem_inner {c : Component} (mem : c ∈ inner text) : c = .parent ∨ ∃ name, c = .name name := by
  obtain ⟨part, _, found⟩ := mem_filterMap.mp mem
  unfold component? at found
  split at found
  · cases found
  · split at found <;> cases found <;> simp

lemma no_slash_of_mem_parts {text part : Text} (mem : part ∈ parts text) : '/' ∉ part := by
  induction text generalizing part with
  | nil => simp_all [parts]
  | cons c rest ih =>
    by_cases slash : c = '/'
    · rw [slash, parts_slash] at mem
      rcases mem_cons.mp mem with rfl | mem
      · simp
      · exact ih mem
    · obtain ⟨first, others, found, whole⟩ := parts_cons slash rest
      rw [whole] at mem
      rw [found] at ih
      rcases mem_cons.mp mem with rfl | mem
      · simpa [Ne.symm slash] using ih (mem_cons_self)
      · exact ih (mem_cons_of_mem _ mem)

/-! ### Trimming and cutting -/

/-- There is no front, and the text cannot be shortened from the left. -/
def Plain (text : Text) : Prop := front ⟨text⟩ = (none, text)

lemma plain_iff : Plain text ↔ text.head? ≠ some '/' ∧ text ≠ ['.'] ∧ ¬ ['.', '/'] <+: text := by
  unfold Plain front
  split
  · simp_all
  · simp_all
  · simp_all
  · rename_i noSlash noDot noDotSlash
    have noSlash' : text.head? ≠ some '/' := fun slash => by
      obtain ⟨rest, rfl⟩ := head?_eq_some_iff.mp slash
      exact noSlash rest rfl
    have noDotSlash' : ¬ ['.', '/'] <+: text := by
      rintro ⟨rest, rfl⟩
      exact noDotSlash rest rfl
    simpa using ⟨noSlash', noDot, noDotSlash'⟩

lemma Plain.not_isAbsolute (plain : Plain path.text) : path.isAbsolute = false := by
  simpa [isAbsolute] using (plain_iff.mp plain).1

lemma Plain.components_eq (plain : Plain text) : components ⟨text⟩ = inner text := by
  unfold components
  rw [show front ⟨text⟩ = (none, text) from plain]
  rfl

lemma trimEdge_suffix (text : Text) : trimEdge text <:+ text := by
  fun_induction trimEdge text with
  | case1 rest ih => exact ih.trans (suffix_cons _ _)
  | case2 rest ih => exact ih.trans ((suffix_cons _ _).trans (suffix_cons _ _))
  | case3 => exact nil_suffix
  | case4 text _ _ _ => exact suffix_rfl

lemma trimEdge_plain (text : Text) : Plain (trimEdge text) := by
  fun_induction trimEdge text with
  | case1 rest ih => exact ih
  | case2 rest ih => exact ih
  | case3 => rfl
  | case4 text noSlash noDotSlash noDot =>
    refine plain_iff.mpr ⟨fun slash => ?_, noDot, ?_⟩
    · obtain ⟨rest, rfl⟩ := head?_eq_some_iff.mp slash
      exact noSlash rest rfl
    · rintro ⟨rest, rfl⟩
      exact noDotSlash rest rfl

lemma inner_trimEdge (text : Text) : inner (trimEdge text) = inner text := by
  fun_induction trimEdge text with
  | case1 rest ih => rw [ih, inner_slash]
  | case2 rest ih => rw [ih, show '.' :: '/' :: rest = ['.'] ++ '/' :: rest from rfl,
      inner_append_slash, inner_dot, nil_append]
  | case3 => rfl
  | case4 text _ _ _ => rfl

/-- The right edge is read backwards. -/
lemma inner_trimEdge_reverse (text : Text) :
    inner (trimEdge text).reverse = inner text.reverse := by
  fun_induction trimEdge text with
  | case1 rest ih =>
    rw [ih, reverse_cons, inner_append_slash, inner_nil, append_nil]
  | case2 rest ih =>
    have back : ('.' :: '/' :: rest).reverse = rest.reverse ++ '/' :: ['.'] := by simp
    rw [ih, back, inner_append_slash, inner_dot, append_nil]
  | case3 => rfl
  | case4 text _ _ _ => rfl

lemma inner_trim (text : Text) : inner (trim text) = inner text := by
  rw [trim, inner_trimEdge_reverse, reverse_reverse, inner_trimEdge]

lemma trim_plain (text : Text) : Plain (trim text) := by
  obtain ⟨noSlash, _, noDotSlash⟩ := plain_iff.mp (trimEdge_plain text)
  have initial : trim text <+: trimEdge text := by
    simpa [trim] using reverse_prefix.mpr (trimEdge_suffix (trimEdge text).reverse)
  refine plain_iff.mpr ⟨fun slash => ?_, fun dot => ?_,
    fun dotSlash => noDotSlash (dotSlash.trans initial)⟩
  · obtain ⟨rest, isTrim⟩ := head?_eq_some_iff.mp slash
    obtain ⟨behind, whole⟩ := initial
    exact noSlash (by rw [← whole, isTrim]; rfl)
  have single : trimEdge (trimEdge text).reverse = ['.'] := by
    simpa [trim] using congrArg List.reverse dot
  exact (plain_iff.mp (trimEdge_plain (trimEdge text).reverse)).2.1 single

/-- What stands before the first slash is a component. -/
lemma Plain.inner_eq_cons (plain : Plain text) (nonempty : text ≠ []) :
    ∃ c, inner text = c :: inner (text.dropWhile (· != '/')) := by
  obtain ⟨noSlash, noDot, noDotSlash⟩ := plain_iff.mp plain
  have pieces := takeWhile_append_dropWhile (p := (· != '/')) (l := text)
  have clear : '/' ∉ text.takeWhile (· != '/') := fun mem => by
    simpa using mem_takeWhile_imp mem
  have whole : inner text =
      (component? (text.takeWhile (· != '/'))).toList ++ inner (text.dropWhile (· != '/')) := by
    rw [← inner_of_no_slash clear]
    cases rest : text.dropWhile (· != '/') with
    | nil => rw [inner_nil, append_nil, ← append_nil (text.takeWhile _), ← rest, pieces]
    | cons c later =>
      obtain rfl : c = '/' := by simpa [rest] using head?_dropWhile_not (· != '/') text
      rw [inner_slash, ← inner_append_slash, ← rest, pieces]
  cases counted : component? (text.takeWhile (· != '/')) with
  | some c => exact ⟨c, by simpa [counted] using whole⟩
  | none =>
    -- Nothing before the first slash, or a single dot: then the text is not plain.
    cases rest : text.dropWhile (· != '/') with
    | nil =>
      rw [rest, append_nil] at pieces
      rw [pieces] at counted
      exact absurd (component?_eq_none.mp counted) (by simp [nonempty, noDot])
    | cons c later =>
      obtain rfl : c = '/' := by simpa [rest] using head?_dropWhile_not (· != '/') text
      rw [rest] at pieces
      rcases component?_eq_none.mp counted with empty | dot
      · rw [empty] at pieces
        exact absurd (congrArg List.head? pieces.symm) noSlash
      · rw [dot] at pieces
        exact absurd ⟨later, pieces⟩ noDotSlash

/-- Cutting off what stands before the next slash takes one component away. -/
lemma inner_dropWhile (text : Text) :
    inner ((trimEdge text).dropWhile (· != '/')) = (inner text).tail := by
  rw [← inner_trimEdge text]
  by_cases empty : trimEdge text = []
  · rw [empty]
    rfl
  · obtain ⟨c, first⟩ := (trimEdge_plain text).inner_eq_cons empty
    rw [first, tail_cons]

lemma inner_dropNames (count : Nat) (text : Text) :
    inner (dropNames count text) = (inner text).drop count := by
  induction count generalizing text with
  | zero => rfl
  | succ count ih => rw [dropNames, ih, inner_dropWhile, drop_tail]

/-! ### Paths below others -/

lemma front_cases (path : Path) :
    path.front.1 = none ∨ path.front.1 = some .root ∨ path.front.1 = some .current := by
  unfold front
  split <;> simp

/-- The front can be read off the components. -/
lemma front_of_head {c : Component} {rest : List Component} (starts : path.components = c :: rest) :
    path.front.1 = (if c = .root ∨ c = .current then some c else none) ∧
      inner path.front.2 = if c = .root ∨ c = .current then rest else c :: rest := by
  unfold components at starts
  change path.front.1.toList ++ inner path.front.2 = _ at starts
  rcases path.front_cases with none | root | current
  · rw [none] at starts ⊢
    have first : c ∈ inner path.front.2 := by simp_all
    have inside := mem_inner first
    have plain : ¬ (c = .root ∨ c = .current) := by
      rcases inside with rfl | ⟨name, rfl⟩ <;> simp
    simpa [plain] using starts
  · rw [root] at starts ⊢
    cases starts
    simp
  · rw [current] at starts ⊢
    cases starts
    simp

lemma components_ne_nil (nonempty : path.text ≠ []) : path.components ≠ [] := by
  intro none
  obtain ⟨noFront, noInner⟩ := append_eq_nil_iff.mp none
  have plain : Plain path.text := by
    unfold Plain front
    unfold front at noFront
    split <;> simp_all
  obtain ⟨c, found⟩ := plain.inner_eq_cons nonempty
  have same : path.front.2 = path.text := congrArg Prod.snd plain
  rw [same] at noInner
  cases found.symm.trans noInner

/-- What is cut off a path are the components it was cut by. -/
lemma below?_eq_some {path base relative : Path} (nonempty : base.components ≠ [])
    (found : path.below? base = some relative) :
    path.components = base.components ++ relative.components ∧ Plain relative.text := by
  obtain ⟨c, others, known⟩ := exists_cons_of_ne_nil nonempty
  unfold below? at found
  rw [known] at found
  dsimp only at found
  split at found
  · rename_i within
    obtain ⟨rest, whole⟩ := isPrefixOf_iff_prefix.mp within
    cases found
    refine ⟨?_, trim_plain _⟩
    obtain ⟨isFront, isInner⟩ := front_of_head known
    obtain ⟨_, isInner'⟩ := front_of_head whole.symm
    rw [(trim_plain _).components_eq, inner_trim, inner_dropNames, isInner', isFront, known]
    by_cases opens : c = .root ∨ c = .current
    · simp [opens, ← whole]
    · simp [opens, ← whole]
  · cases found

lemma below?_eq_none {path base : Path} (nonempty : base.components ≠ []) :
    path.below? base = none ↔ ¬ base.components <+: path.components := by
  obtain ⟨c, others, known⟩ := exists_cons_of_ne_nil nonempty
  unfold below?
  rw [known]
  simp

lemma components_append_slash {before : Text} (nonempty : before ≠ []) (rest : Text) :
    components ⟨before ++ '/' :: rest⟩ = components ⟨before⟩ ++ inner rest := by
  unfold components
  change (front ⟨before ++ '/' :: rest⟩).1.toList ++ inner (front ⟨before ++ '/' :: rest⟩).2 =
    (front ⟨before⟩).1.toList ++ inner (front ⟨before⟩).2 ++ inner rest
  by_cases plain : Plain before
  · have whole : Plain (before ++ '/' :: rest) := by
      obtain ⟨noSlash, noDot, noDotSlash⟩ := plain_iff.mp plain
      obtain ⟨c, later, rfl⟩ := exists_cons_of_ne_nil nonempty
      refine plain_iff.mpr ⟨noSlash, by simp, ?_⟩
      cases later with
      | nil =>
        simp only [ne_eq, List.cons.injEq, and_true] at noDot
        simpa [eq_comm] using noDot
      | cons d later => simpa using noDotSlash
    rw [show front ⟨before ++ '/' :: rest⟩ = _ from whole, show front ⟨before⟩ = _ from plain]
    simp [inner_append_slash]
  · rw [plain_iff] at plain
    by_cases slash : before.head? = some '/'
    · obtain ⟨later, rfl⟩ := head?_eq_some_iff.mp slash
      simp [front, inner_append_slash]
    · by_cases dot : before = ['.']
      · subst dot
        simp [front, inner_nil]
      · obtain ⟨later, rfl⟩ : ['.', '/'] <+: before := by simpa [slash, dot] using plain
        simp [front, inner_append_slash]

/-- A path that is joined to a directory keeps its components. -/
lemma components_join {base path : Path} (plain : Plain path.text) :
    (base.join path).components = base.components ++ path.components := by
  obtain ⟨base⟩ := base
  rw [show path.components = inner path.text from plain.components_eq]
  unfold join
  rw [plain.not_isAbsolute, if_neg (by simp)]
  rcases eq_nil_or_concat base with rfl | ⟨before, c, rfl⟩
  · exact plain.components_eq
  · by_cases slash : c = '/'
    · subst slash
      have joined : before ++ ['/'] ++ path.text = before ++ '/' :: path.text := by simp
      cases before with
      | nil => rfl
      | cons d later =>
        simp only [concat_eq_append, getLast?_append, getLast?_singleton, Option.some_or,
          BEq.rfl, Bool.or_true, if_true, joined]
        rw [components_append_slash (by simp), components_append_slash (by simp),
          inner_nil, append_nil]
    · have closed :
          ((before.concat c).isEmpty || (before.concat c).getLast? == some '/') = false := by
        simp [slash]
      rw [closed, if_neg Bool.false_ne_true, components_append_slash (by simp)]

/-! ### Names -/

/-- A text that can be the name of a file. -/
def IsName (name : Text) : Prop := name ≠ [] ∧ name ≠ ['.'] ∧ name ≠ ['.', '.'] ∧ '/' ∉ name

instance (name : Text) : Decidable (IsName name) := inferInstanceAs (Decidable (_ ∧ _ ∧ _ ∧ _))

lemma IsName.component? {name : Text} (isName : IsName name) :
    component? name = some (.name name) := by
  obtain ⟨nonempty, noDot, noDots, _⟩ := isName
  simp [Path.component?, nonempty, noDot, noDots]

lemma isName_of_mem_inner {text name : Text} (mem : .name name ∈ inner text) : IsName name := by
  obtain ⟨part, isPart, found⟩ := mem_filterMap.mp mem
  unfold Path.component? at found
  split at found
  · cases found
  · split at found
    · cases found
    · rename_i counts noDots
      cases found
      obtain ⟨nonempty, noDot⟩ := not_or.mp counts
      exact ⟨nonempty, noDot, noDots, no_slash_of_mem_parts isPart⟩

lemma inner_intercalate {names : List Text} (proper : ∀ name ∈ names, IsName name) :
    inner (List.intercalate ['/'] names) = names.map .name := by
  induction names with
  | nil => rfl
  | cons name later ih =>
    have isName := proper name (by simp)
    have single : inner name = [.name name] := by
      rw [inner_of_no_slash isName.2.2.2, isName.component?]
      rfl
    cases later with
    | nil => simpa using single
    | cons second later =>
      rw [intercalate_cons_cons, append_assoc]
      change inner (name ++ '/' :: List.intercalate ['/'] (second :: later)) = _
      rw [inner_append_slash, single, ih fun name mem => proper name (by simp [mem])]
      rfl

lemma intercalate_plain {names : List Text} (proper : ∀ name ∈ names, IsName name) :
    Plain (List.intercalate ['/'] names) := by
  cases names with
  | nil => rfl
  | cons name later =>
    obtain ⟨nonempty, noDot, _, noSlash⟩ := proper name (by simp)
    obtain ⟨c, rest, rfl⟩ := exists_cons_of_ne_nil nonempty
    obtain ⟨behind, whole⟩ : c :: rest <+: List.intercalate ['/'] ((c :: rest) :: later) := by
      cases later with
      | nil => simp
      | cons second later =>
        rw [intercalate_cons_cons, append_assoc]
        exact prefix_append _ _
    rw [← whole]
    refine plain_iff.mpr ⟨fun slash => noSlash ?_, fun dot => noDot ?_, fun dotSlash => ?_⟩
    · simp_all
    · simp_all
    · obtain ⟨isDot, later⟩ := cons_prefix_cons.mp dotSlash
      cases rest with
      | nil => exact noDot (by rw [isDot])
      | cons d rest =>
        obtain ⟨isSlash, _⟩ := cons_prefix_cons.mp later
        exact noSlash (mem_cons_of_mem _ (isSlash ▸ mem_cons_self))

/-! ### Normal forms -/

/-- One more component behind a normal path. A step to the parent takes a name away. -/
def settle (before : List Component) : Component → List Component
  | .current => before
  | .parent =>
    match before.getLast? with
    | some (.name _) => before.dropLast
    | some .root => before
    | _ => before ++ [.parent]
  | c => before ++ [c]

/-- The components without detours. -/
def normal (path : Path) : List Component := path.components.foldl settle []

lemma foldl_settle_names (before : List Component) {cs : List Component}
    (names : ∀ c ∈ cs, ∃ name, c = .name name) : cs.foldl settle before = before ++ cs := by
  induction cs generalizing before with
  | nil => simp
  | cons c later ih =>
    obtain ⟨name, rfl⟩ := names c (by simp)
    rw [foldl_cons, ih _ fun c mem => names c (by simp [mem])]
    simp [settle]

lemma normal_join {base path : Path} (plain : Plain path.text)
    (names : ∀ c ∈ path.components, ∃ name, c = .name name) :
    (base.join path).normal = base.normal ++ path.components := by
  rw [normal, components_join plain, foldl_append, foldl_settle_names _ names]
  rfl

end Path

end PatternLowering

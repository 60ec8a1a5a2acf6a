import PatternLowering.Disk
import PatternLowering.Proofs.Paths
import PatternLowering.Proofs.Steps
import PatternLowering.Run

/-!
# Where outputs go

An input keeps its path below the directory it was found in, or below the working directory, or only
its name. As long as no file is named by a way that leaves the working directory again, its output
lies below the output directory, and no two inputs have the same output.
-/

namespace PatternLowering

open List

namespace Disk

variable {disk : Disk}

/-! ### Following a path -/

/-- What is on the disk can be named. -/
def WellNamed (disk : Disk) : Prop := ∀ entry ∈ disk.entries, ∀ name ∈ entry.1, Path.IsName name

instance (disk : Disk) : Decidable disk.WellNamed :=
  inferInstanceAs (Decidable (∀ entry ∈ disk.entries, ∀ name ∈ entry.1, Path.IsName name))

/-- Where a component leads from a directory. -/
def go (here : List Text) : Component → List Text
  | .name name => here ++ [name]
  | .parent => here.dropLast
  | _ => here

lemma step_eq (here : List Text) (part : Text) :
    step here part = (Path.component? part).toList.foldl go here := by
  unfold step
  cases Path.component? part with
  | none => rfl
  | some c => cases c <;> rfl

lemma entry?_nil : disk.entry? [] = some .directory := rfl

/-- All that lies above a place is a directory. -/
def Reached (disk : Disk) (here : List Text) : Prop :=
  ∀ above, above <+: here → above ≠ here → disk.entry? above = some .directory

lemma reached_nil : disk.Reached [] := fun _ above other => absurd (prefix_nil.mp above) other

lemma Reached.parent {here : List Text} (reached : disk.Reached here) :
    disk.entry? here.dropLast = some .directory := by
  rcases eq_nil_or_concat here with rfl | ⟨above, name, rfl⟩
  · exact entry?_nil
  · refine reached _ (List.dropLast_prefix _) fun same => ?_
    simpa using congrArg List.length same

lemma Reached.step {here : List Text} (reached : disk.Reached here)
    (directory : disk.entry? here = some .directory) (part : Text) :
    disk.Reached (step here part) := by
  rw [step_eq]
  cases Path.component? part with
  | none => exact reached
  | some c =>
    cases c with
    | root => exact reached
    | current => exact reached
    | parent =>
      intro above within other
      refine reached above (within.trans (List.dropLast_prefix _)) ?_
      rintro rfl
      exact other (within.eq_of_length_le (by simp [go]))
    | name name =>
      intro above within other
      rcases prefix_concat_iff.mp within with same | within
      · exact absurd same other
      · by_cases same : above = here
        · rw [same, directory]
        · exact reached above within same

/-- A path leads where its components do. Unless the last of them is a name, a directory is
there. -/
lemma follow_eq_ok {here there : List Text} {parts : List Text} (reached : disk.Reached here)
    (ran : disk.follow here parts = .ok there) :
    there = (parts.filterMap Path.component?).foldl go here ∧
      (disk.entry? there = some .directory ∨
        (∃ name, (parts.filterMap Path.component?).getLast? = some (.name name)) ∨
        parts.filterMap Path.component? = [] ∧ there = here) := by
  induction parts generalizing here with
  | nil =>
    cases ran
    exact ⟨rfl, .inr (.inr ⟨rfl, rfl⟩)⟩
  | cons part parts ih =>
    unfold follow at ran
    split at ran
    · rename_i directory
      dsimp only at ran
      split at ran
      · cases ran
      · split at ran
        · obtain ⟨place, ends⟩ := ih (reached.step directory part) ran
          have whole : (part :: parts).filterMap Path.component? =
              (Path.component? part).toList ++ parts.filterMap Path.component? := by
            rw [filterMap_cons]
            cases Path.component? part <;> rfl
          refine ⟨by rw [place, whole, foldl_append, step_eq], ?_⟩
          rcases ends with isDirectory | ⟨name, last⟩ | ⟨none, same⟩
          · exact .inl isDirectory
          · exact .inr (.inl ⟨name, by rw [whole, getLast?_append, last]; rfl⟩)
          · rw [whole, none, same, step_eq, append_nil]
            cases Path.component? part with
            | none => exact .inl directory
            | some c =>
              cases c with
              | name name => exact .inr (.inl ⟨name, rfl⟩)
              | parent => exact .inl reached.parent
              | root => exact .inl directory
              | current => exact .inl directory
        · cases ran
    · cases ran
    · cases ran

lemma resolve_eq_ok {path : Path} {there : List Text} (ran : disk.resolve path = .ok there) :
    path.text ≠ [] ∧ there = (Path.inner path.front.2).foldl go [] ∧
      (disk.entry? there = some .directory ∨
        ∃ name, (Path.inner path.front.2).getLast? = some (.name name)) := by
  obtain ⟨parts, isParts, ran⟩ := Except.bind_eq_ok.mp ran
  unfold partsOf at isParts
  split at isParts
  · cases isParts
  · split at isParts
    · cases isParts
    · split at isParts
      · cases isParts
      · rename_i nonempty _
        cases isParts
        obtain ⟨place, ends⟩ := follow_eq_ok reached_nil ran
        refine ⟨by simpa using nonempty, place, ?_⟩
        rcases ends with isDirectory | last | ⟨_, rfl⟩
        · exact .inl isDirectory
        · exact .inr last
        · exact .inl entry?_nil

lemma kind_eq_file {path : Path} (isFile : disk.kind path = .file) :
    ∃ there bytes, disk.resolve path = .ok there ∧ disk.entry? there = some (.file bytes) := by
  unfold kind at isFile
  split at isFile
  · cases isFile
  · split at isFile
    · cases isFile
    · rename_i there found _ bytes isEntry
      exact ⟨there, bytes, found, isEntry⟩
    · cases isFile

lemma kind_eq_directory {path : Path} (isDirectory : disk.kind path = .directory) :
    ∃ there, disk.resolve path = .ok there ∧ disk.entry? there = some .directory := by
  unfold kind at isDirectory
  split at isDirectory
  · cases isDirectory
  · split at isDirectory
    · rename_i there found _ isEntry
      exact ⟨there, found, isEntry⟩
    · cases isDirectory
    · cases isDirectory

/-- The path of a file ends with its name. -/
lemma fileName?_of_file {path : Path} (isFile : disk.kind path = .file) :
    ∃ name, path.fileName? = some name := by
  obtain ⟨there, bytes, found, isEntry⟩ := kind_eq_file isFile
  obtain ⟨_, _, isDirectory | ⟨name, last⟩⟩ := resolve_eq_ok found
  · cases isEntry.symm.trans isDirectory
  · have whole : path.components.getLast? = some (.name name) := by
      change (path.front.1.toList ++ Path.inner path.front.2).getLast? = _
      rw [getLast?_append, last]
      rfl
    exact ⟨name, by rw [Path.fileName?, whole]⟩

/-- The spelling of a path does not decide what it leads to. -/
lemma components_ne_of_kind {path base : Path} (isFile : disk.kind path = .file)
    (isDirectory : disk.kind base = .directory) : path.components ≠ base.components := by
  intro same
  obtain ⟨there, bytes, found, isEntry⟩ := kind_eq_file isFile
  obtain ⟨there', found', isEntry'⟩ := kind_eq_directory isDirectory
  obtain ⟨nonempty, place, _⟩ := resolve_eq_ok found
  obtain ⟨_, place', _⟩ := resolve_eq_ok found'
  obtain ⟨c, rest, starts⟩ := exists_cons_of_ne_nil (Path.components_ne_nil nonempty)
  have inner := (Path.front_of_head starts).2.trans (Path.front_of_head (same ▸ starts)).2.symm
  rw [place, inner, ← place', isEntry'] at isEntry
  cases isEntry

/-- The files below a directory are told by names. -/
lemma names_of_filesBelow {path file : Path} {files : List Path} (named : disk.WellNamed)
    (found : disk.filesBelow path = .ok files) (mem : file ∈ files) :
    Path.Plain file.text ∧ ∀ c ∈ file.components, ∃ name, c = .name name := by
  obtain ⟨here, _, made⟩ := Except.bind_eq_ok.mp found
  cases made
  obtain ⟨names, isFile, rfl⟩ := mem_map.mp mem
  have proper : ∀ name ∈ names, Path.IsName name := by
    intro name isName
    obtain ⟨⟨whole, entry⟩, isEntry, kept⟩ := mem_filterMap.mp (mem_mergeSort.mp isFile)
    cases entry with
    | directory => cases kept
    | file bytes =>
      dsimp only at kept
      split at kept
      · cases kept
        exact named (whole, .file bytes) isEntry name (mem_of_mem_drop isName)
      · cases kept
  have plain : Path.Plain (pathOf names).text := Path.intercalate_plain proper
  have whole : (pathOf names).components = names.map .name :=
    plain.components_eq.trans (Path.inner_intercalate proper)
  refine ⟨plain, fun c isPart => ?_⟩
  obtain ⟨name, _, rfl⟩ := mem_map.mp (whole ▸ isPart)
  exact ⟨name, rfl⟩

end Disk

/-! ### What a run sees -/

/-- What stands at a path, and the files below a directory. -/
structure FileView where
  kind : Path → EntryKind
  filesBelow : Path → Except FileFault (List Path)

namespace FileView

variable {view : FileView} {path : Path}

/-- In the state `s` an access tells what the view shows, and changes nothing by that. -/
structure Shown {σ : Type} (view : FileView) (access : FileAccess (StateM σ)) (s : σ) : Prop where
  kind : ∀ path, (access.kind path).run s = (view.kind path, s)
  filesBelow : ∀ path, (access.filesBelow path).run s = (view.filesBelow path, s)

/-- How files and paths go together: the path of a file ends with a name, the path of a directory is
not empty, no spelling makes a file a directory, and the files below a directory are told by the
names that lead to them. -/
structure Sound (view : FileView) : Prop where
  named : ∀ {path}, view.kind path = .file → ∃ name, path.fileName? = some name
  spelled : ∀ {path}, view.kind path = .directory → path.components ≠ []
  apart : ∀ {path base}, view.kind path = .file → view.kind base = .directory →
    path.components ≠ base.components
  listed : ∀ {path files file}, view.filesBelow path = .ok files → file ∈ files →
    Path.Plain file.text ∧ ∀ c ∈ file.components, ∃ name, c = .name name

/-- What a run finds at a path. -/
def found (view : FileView) (path : Path) : Found :=
  match view.kind path with
  | .missing => .missing
  | .file => .file
  | .directory =>
    match view.filesBelow path with
    | .ok files => .directory files
    | .error fault => .unwalkable fault

lemma found_eq_file : view.found path = .file ↔ view.kind path = .file := by
  unfold found
  cases view.kind path with
  | file => simp
  | missing => simp
  | directory => cases view.filesBelow path <;> simp

lemma found_eq_directory {files : List Path} : view.found path = .directory files ↔
    view.kind path = .directory ∧ view.filesBelow path = .ok files := by
  unfold found
  cases view.kind path with
  | file => simp
  | missing => simp
  | directory => cases view.filesBelow path <;> simp

end FileView

namespace Disk

def view (disk : Disk) : FileView := ⟨disk.kind, disk.filesBelow⟩

lemma view_shown (disk : Disk) : disk.view.Shown access disk := ⟨fun _ => rfl, fun _ => rfl⟩

lemma view_sound {disk : Disk} (named : disk.WellNamed) : disk.view.Sound where
  named := fileName?_of_file
  spelled isDirectory := by
    obtain ⟨there, found, _⟩ := kind_eq_directory isDirectory
    exact Path.components_ne_nil (resolve_eq_ok found).1
  apart := components_ne_of_kind
  listed := names_of_filesBelow named

end Disk

/-! ### Collecting inputs -/

namespace InputFile

variable {base path : Path} {inputs inputs' found more : List InputFile} {input : InputFile}

/-- The inputs stand for the files that were found, the same file once. -/
structure Gathers (found inputs : List InputFile) : Prop where
  apart : inputs.Pairwise fun a b => a.relative.components ≠ b.relative.components
  only : ∀ input ∈ inputs, input ∈ found
  each : ∀ input ∈ found, ∃ kept ∈ inputs,
    kept.path.same input.path ∧ kept.relative.components = input.relative.components

lemma Gathers.add (gathers : Gathers found inputs) (ran : add inputs input = .ok inputs') :
    Gathers (found ++ [input]) inputs' := by
  unfold InputFile.add at ran
  split at ran
  · rename_i none
    cases ran
    have different (earlier : InputFile) (mem : earlier ∈ inputs) :
        earlier.relative.components ≠ input.relative.components := by
      simpa [Path.same] using find?_eq_none.mp none earlier mem
    refine ⟨pairwise_append.mpr ⟨gathers.apart, pairwise_singleton _ _, ?_⟩, ?_, ?_⟩
    · intro earlier mem last isLast
      cases mem_singleton.mp isLast
      exact different earlier mem
    · intro kept mem
      rcases mem_append.mp mem with mem | mem
      · exact mem_append_left _ (gathers.only kept mem)
      · exact mem_append_right _ mem
    · intro one mem
      rcases mem_append.mp mem with mem | mem
      · obtain ⟨kept, isKept, same⟩ := gathers.each one mem
        exact ⟨kept, mem_append_left _ isKept, same⟩
      · cases mem_singleton.mp mem
        exact ⟨input, by simp, by simp [Path.same], rfl⟩
  · rename_i earlier isEarlier
    split at ran
    · rename_i same
      cases ran
      refine ⟨gathers.apart, fun kept mem => mem_append_left _ (gathers.only kept mem),
        fun one mem => ?_⟩
      rcases mem_append.mp mem with mem | mem
      · exact gathers.each one mem
      · cases mem_singleton.mp mem
        have sameRelative := find?_some isEarlier
        exact ⟨earlier, mem_of_find?_eq_some isEarlier, same,
          by simpa [Path.same] using sameRelative⟩
    · cases ran

lemma Gathers.addAll (gathers : Gathers found inputs)
    (ran : more.foldlM InputFile.add inputs = .ok inputs') : Gathers (found ++ more) inputs' := by
  induction more generalizing found inputs with
  | nil =>
    cases ran
    simpa using gathers
  | cons input more ih =>
    rw [foldlM_cons] at ran
    obtain ⟨next, added, ran⟩ := Except.bind_eq_ok.mp ran
    simpa using ih (gathers.add added) ran

/-- Each path that is named stands for some files, and the inputs for all of them. -/
lemma collect_eq_ok {named : List (Path × Found)} (collected : collect base named = .ok inputs) :
    ∃ found, Gathers found inputs ∧
      (∀ one ∈ named, ∃ group, expand base one.1 one.2 = .ok group ∧ group ⊆ found) ∧
      ∀ input ∈ found, ∃ one ∈ named, ∃ group, expand base one.1 one.2 = .ok group ∧
        input ∈ group := by
  -- The loop over what was named, from the inputs that were there before.
  have loop (before found : List InputFile) (gathers : Gathers found before)
      (ran : named.foldlM (fun inputs one => do
          (← expand base one.1 one.2).foldlM InputFile.add inputs) before = .ok inputs) :
      ∃ more, Gathers (found ++ more) inputs ∧
        (∀ one ∈ named, ∃ group, expand base one.1 one.2 = .ok group ∧ group ⊆ more) ∧
        ∀ input ∈ more, ∃ one ∈ named, ∃ group, expand base one.1 one.2 = .ok group ∧
          input ∈ group := by
    clear collected
    induction named generalizing before found with
    | nil =>
      cases ran
      exact ⟨[], by simpa using gathers, by simp, by simp⟩
    | cons one later ih =>
      rw [foldlM_cons] at ran
      obtain ⟨next, step, ran⟩ := Except.bind_eq_ok.mp ran
      obtain ⟨group, isGroup, added⟩ := Except.bind_eq_ok.mp step
      obtain ⟨more, gathers', all, only⟩ := ih next (found ++ group) (gathers.addAll added) ran
      refine ⟨group ++ more, by simpa using gathers', fun other mem => ?_, fun input mem => ?_⟩
      · rcases mem_cons.mp mem with rfl | mem
        · exact ⟨group, isGroup, subset_append_left _ _⟩
        · obtain ⟨group', isGroup', within⟩ := all other mem
          exact ⟨group', isGroup', List.Subset.trans within (subset_append_right _ _)⟩
      · rcases mem_append.mp mem with mem | mem
        · exact ⟨one, by simp, group, isGroup, mem⟩
        · obtain ⟨other, isNamed, rest⟩ := only input mem
          exact ⟨other, by simp [isNamed], rest⟩
  simpa using loop [] [] ⟨.nil, by simp, by simp⟩ collected

end InputFile

/-! ### The place of an input -/

/-- The path of an input below the output directory. -/
structure Path.Inward (path : Path) : Prop where
  plain : Plain path.text
  nonempty : path.components ≠ []
  names : ∀ c ∈ path.components, ∃ name, c = .name name

lemma Path.isName_of_fileName? {path : Path} {name : Text} (isLast : path.fileName? = some name) :
    IsName name := by
  unfold fileName? at isLast
  split at isLast
  · rename_i last
    cases isLast
    have mem : Component.name name ∈ path.front.1.toList ++ inner path.front.2 :=
      mem_of_getLast? last
    rcases mem_append.mp mem with inFront | inRest
    · unfold front at inFront
      split at inFront <;> simp at inFront
    · exact isName_of_mem_inner inRest
  · cases isLast

lemma Path.inward_of_name {name : Text} (isName : IsName name) :
    Inward ⟨name⟩ ∧ components ⟨name⟩ = [.name name] := by
  have plain : Plain name := by
    have alone : ∀ other ∈ [name], IsName other := by simpa using isName
    simpa using intercalate_plain alone
  have single : components ⟨name⟩ = [.name name] := by
    rw [plain.components_eq, inner_of_no_slash isName.2.2.2, isName.component?]
    rfl
  exact ⟨⟨plain, by simp [single], by simp [single]⟩, single⟩

namespace InputFile

variable {view : FileView} {base path : Path} {input : InputFile} {group : List InputFile}

/-- Behind the working directory the path of a file goes down only. -/
def Descends (view : FileView) (base path : Path) : Prop :=
  view.kind path = .file → ∀ rest, path.components = base.components ++ rest → .parent ∉ rest

lemma descends_of_drop (down : .parent ∉ path.components.drop base.components.length) :
    Descends view base path := by
  intro _ rest whole
  rwa [whole, drop_left] at down

lemma named_path (base path : Path) : (named base path).path = path := by
  unfold named
  split <;> rfl

/-- A file that is named keeps its path below the working directory, or else its name. -/
lemma named_relative (sound : view.Sound) (here : view.kind base = .directory)
    (isFile : view.kind path = .file) :
    (¬ base.components <+: path.components ∧ ∃ name, path.fileName? = some name ∧ Path.IsName name ∧
        (named base path).relative = ⟨name⟩) ∨
      path.components = base.components ++ (named base path).relative.components ∧
        Path.Plain (named base path).relative.text := by
  have nonempty := sound.spelled here
  unfold named
  cases below : path.below? base with
  | some relative => exact .inr (Path.below?_eq_some nonempty below)
  | none =>
    obtain ⟨name, isLast⟩ := sound.named isFile
    exact .inl ⟨(Path.below?_eq_none nonempty).mp below, name, isLast,
      Path.isName_of_fileName? isLast, by simp [isLast]⟩

lemma named_inward (sound : view.Sound) (here : view.kind base = .directory)
    (isFile : view.kind path = .file) (descends : Descends view base path) :
    (named base path).relative.Inward := by
  rcases named_relative sound here isFile with ⟨_, name, _, isName, same⟩ | ⟨whole, plain⟩
  · rw [same]
    exact (Path.inward_of_name isName).1
  · refine ⟨plain, fun none => ?_, fun c mem => ?_⟩
    · rw [none, append_nil] at whole
      exact sound.apart isFile here whole
    · have inside : c = .parent ∨ ∃ name, c = .name name :=
        Path.mem_inner (plain.components_eq ▸ mem)
      rcases inside with rfl | isName
      · exact absurd mem (descends isFile _ whole)
      · exact isName

lemma scripts_inward (sound : view.Sound) {directory : Path} {files : List Path}
    (found : view.filesBelow directory = .ok files) (mem : input ∈ scripts directory files) :
    input.relative.Inward := by
  obtain ⟨file, isScript, rfl⟩ := mem_map.mp mem
  obtain ⟨isFile, script⟩ := mem_filter.mp isScript
  obtain ⟨plain, names⟩ := sound.listed found isFile
  refine ⟨plain, fun none => ?_, names⟩
  simp [Path.fileName?, none] at script

lemma expand_inward (sound : view.Sound) (here : view.kind base = .directory)
    (descends : Descends view base path) (ran : expand base path (view.found path) = .ok group)
    (mem : input ∈ group) : input.relative.Inward := by
  cases found : view.found path with
  | file =>
    rw [found] at ran
    cases ran
    cases mem_singleton.mp mem
    exact named_inward sound here (FileView.found_eq_file.mp found) descends
  | directory files =>
    rw [found] at ran
    cases ran
    exact scripts_inward sound (FileView.found_eq_directory.mp found).2 mem
  | unwalkable fault =>
    rw [found] at ran
    cases ran
  | missing =>
    rw [found] at ran
    cases ran

end InputFile

/-! ### Runs -/

namespace Run

variable {σ : Type} {access : FileAccess (StateM σ)} {s s' : σ} {view : FileView}
  {cwd outDir : Path} {paths : List Path} {inputs : List InputFile}

/-- A step that is known to go well. -/
lemma bind_run {α β : Type} {x : ExceptT RunError (StateM σ) α}
    {f : α → ExceptT RunError (StateM σ) β} {a : α} (ran : x.run.run s = (.ok a, s')) :
    (x >>= f).run.run s = (f a).run.run s' := by
  change (x >>= ExceptT.bindCont f : StateM σ _).run s = _
  rw [StateT.run_bind, show StateT.run x s = _ from ran]
  rfl

/-- Where a run went well, each of its steps did. -/
lemma bind_run_eq_ok {α β : Type} {x : ExceptT RunError (StateM σ) α}
    {f : α → ExceptT RunError (StateM σ) β} {b : β} (ran : (x >>= f).run.run s = (.ok b, s')) :
    ∃ a next, x.run.run s = (.ok a, next) ∧ (f a).run.run next = (.ok b, s') := by
  cases first : x.run.run s with
  | mk outcome next =>
    cases outcome with
    | ok a => exact ⟨a, next, rfl, (bind_run first).symm.trans ran⟩
    | error e =>
      change (x >>= ExceptT.bindCont f : StateM σ _).run s = _ at ran
      rw [StateT.run_bind, show StateT.run x s = _ from first] at ran
      cases ran

section Looking

variable (shown : view.Shown access s)

include shown

lemma look_run (path : Path) : (look access path).run s = (view.found path, s) := by
  unfold look FileView.found
  rw [StateT.run_bind, shown.kind]
  cases view.kind path with
  | missing => rfl
  | file => rfl
  | directory =>
    change (access.filesBelow path >>= _ : StateM σ Found).run s = _
    rw [StateT.run_bind, shown.filesBelow]
    cases view.filesBelow path <;> rfl

lemma mapM_look_run (paths : List Path) :
    (paths.mapM fun path => do return (path, ← look access path) :
      StateM σ (List (Path × Found))).run s =
        (paths.map fun path => (path, view.found path), s) := by
  induction paths with
  | nil => rfl
  | cons path later ih =>
    rw [mapM_cons, StateT.run_bind, StateT.run_bind, look_run shown]
    change (List.mapM _ later >>= _ : StateM σ _).run s = _
    rw [StateT.run_bind, ih]
    rfl

/-- Looking at the inputs changes nothing. -/
lemma inputs_run (paths : List Path) (cwd : Path) :
    (Run.inputs access paths cwd).run.run s =
      (InputFile.collect cwd (paths.map fun path => (path, view.found path)), s) := by
  have looked : (ExceptT.lift (paths.mapM fun path => do return (path, ← look access path)) :
      ExceptT RunError (StateM σ) (List (Path × Found))).run.run s =
        (.ok (paths.map fun path => (path, view.found path)), s) := by
    rw [ExceptT.run_lift, StateT.run_map, mapM_look_run shown]
    rfl
  unfold Run.inputs
  rw [bind_run looked]
  cases InputFile.collect cwd (paths.map fun path => (path, view.found path)) <;> rfl

end Looking

lemma readInput_run {input : InputFile} {file : InputFile × String}
    (ran : (readInput access input).run.run s = (.ok file, s')) : file.1 = input := by
  obtain ⟨outcome, next, _, ran⟩ := bind_run_eq_ok ran
  cases outcome with
  | ok text =>
    cases ran
    rfl
  | error fault => cases ran

lemma mapM_readInput_run {files : List (InputFile × String)}
    (ran : (inputs.mapM (readInput access)).run.run s = (.ok files, s')) :
    files.map Prod.fst = inputs := by
  induction inputs generalizing files s with
  | nil =>
    cases ran
    rfl
  | cons input later ih =>
    rw [mapM_cons] at ran
    obtain ⟨file, next, first, ran⟩ := bind_run_eq_ok ran
    obtain ⟨rest, _, others, ran⟩ := bind_run_eq_ok ran
    cases ran
    rw [map_cons, readInput_run first, ih others]

lemma targets_sublist (outDir : Path) (files : List Lowered) :
    ((targets outDir files).map Prod.fst).Sublist
      (files.map fun file => outDir.join file.input.relative) := by
  induction files with
  | nil => exact .slnil
  | cons file later ih =>
    unfold targets at ih ⊢
    rw [filterMap_cons, map_cons]
    cases file.lowering.output with
    | none => exact ih.cons _
    | some output => exact ih.cons_cons _

/-- What a run writes are the places of its inputs. -/
lemma written_sublist {arguments : Arguments} {settings : Settings} {result : RunResult}
    (isSettings : (Run.settings access arguments cwd).run.run s = (.ok settings, s))
    (isInputs : (Run.inputs access settings.files cwd).run.run s = (.ok inputs, s))
    (out : settings.outDir = some outDir)
    (ran : (execute access arguments cwd).run.run s = (.ok result, s')) :
    result.written.Sublist (inputs.map fun input => outDir.join input.relative) := by
  unfold execute at ran
  rw [bind_run isSettings] at ran
  dsimp only at ran
  by_cases empty : settings.files.isEmpty
  · rw [if_pos empty] at ran
    cases ran
  · rw [if_neg empty, bind_run isInputs] at ran
    obtain ⟨files, next, read, ran⟩ := bind_run_eq_ok ran
    have whole : (lowerInputs settings.lowering files).map (·.input) = inputs := by
      rw [← mapM_readInput_run read, lowerInputs, map_map]
      rfl
    split at ran
    · cases ran
      exact nil_sublist _
    · rw [out] at ran
      obtain ⟨_, _, _, ran⟩ := bind_run_eq_ok ran
      cases ran
      rw [← whole, map_map]
      exact targets_sublist outDir _

/-- Where the inputs of a run go. Each has a relative path that only goes down, so that its target
lies below the output directory, and no two have the same target. What was named is among the
inputs: a file by its path below the working directory or by its bare name, the scripts of a
directory by their paths below it. A run writes no other targets. -/
structure Lands (access : FileAccess (StateM σ)) (s : σ) (view : FileView) (cwd outDir : Path)
    (paths : List Path) (inputs : List InputFile) : Prop where
  relative : ∀ input ∈ inputs, input.relative.isAbsolute = false ∧
    ∀ c ∈ input.relative.components, ∃ name, c = .name name
  below : ∀ input ∈ inputs, ∃ rest, rest ≠ [] ∧ (∀ c ∈ rest, ∃ name, c = .name name) ∧
    (outDir.join input.relative).normal = outDir.normal ++ rest
  apart : inputs.Pairwise fun a b => (outDir.join a.relative).normal ≠
    (outDir.join b.relative).normal
  inside : ∀ path ∈ paths, view.kind path = .file → ∀ rest, path.components =
    cwd.components ++ rest →
    ∃ input ∈ inputs, input.path.same path ∧ input.relative.components = rest
  outside : ∀ path ∈ paths, view.kind path = .file → ¬ cwd.components <+: path.components →
    ∃ name, path.fileName? = some name ∧
      ∃ input ∈ inputs, input.path.same path ∧ input.relative.components = [.name name]
  walked : ∀ path ∈ paths, view.kind path = .directory → ∃ files, view.filesBelow path = .ok files ∧
    ∀ file ∈ files, ∀ name, file.fileName? = some name → Path.isScriptName name →
      ∃ input ∈ inputs, input.path.same (path.join file) ∧ input.relative.same file
  written : ∀ {arguments : Arguments} {settings : Settings} {result : RunResult} {s' : σ},
    (Run.settings access arguments cwd).run.run s = (.ok settings, s) →
    settings.files = paths → settings.outDir = some outDir →
    (execute access arguments cwd).run.run s = (.ok result, s') →
    result.written.Sublist (inputs.map fun input => outDir.join input.relative)

/-- Outputs stay below the output directory and never collide, whatever holds the files, as long as
files and paths go together and no file that is named below the working directory goes up again
behind it. -/
theorem outputs_stay_below {σ : Type} {access : FileAccess (StateM σ)} {s : σ} {view : FileView}
    {cwd : Path} {paths : List Path} {inputs : List InputFile} (shown : view.Shown access s)
    (sound : view.Sound) (here : view.kind cwd = .directory)
    (ran : (Run.inputs access paths cwd).run.run s = (.ok inputs, s))
    (descends : ∀ path ∈ paths, InputFile.Descends view cwd path) (outDir : Path) :
    Lands access s view cwd outDir paths inputs := by
  have collected : InputFile.collect cwd (paths.map fun path => (path, view.found path)) =
    .ok inputs :=
    (Prod.mk.inj ((inputs_run shown paths cwd).symm.trans ran)).1
  obtain ⟨found, gathers, all, only⟩ := InputFile.collect_eq_ok collected
  have inward (input : InputFile) (mem : input ∈ inputs) : input.relative.Inward := by
    obtain ⟨one, isNamed, group, ran, inGroup⟩ := only input (gathers.only input mem)
    obtain ⟨path, isPath, rfl⟩ := mem_map.mp isNamed
    exact InputFile.expand_inward sound here (descends path isPath) ran inGroup
  have each (path : Path) (isPath : path ∈ paths) : ∃ group,
      InputFile.expand cwd path (view.found path) = .ok group ∧ ∀ input ∈ group, ∃ kept ∈ inputs,
        kept.path.same input.path ∧ kept.relative.components = input.relative.components := by
    obtain ⟨group, ran, within⟩ := all _ (mem_map_of_mem isPath)
    exact ⟨group, ran, fun input mem => gathers.each input (within mem)⟩
  have file (path : Path) (isPath : path ∈ paths) (isFile : view.kind path = .file) :
      ∃ kept ∈ inputs, kept.path.same path ∧
        kept.relative.components = (InputFile.named cwd path).relative.components := by
    obtain ⟨group, ran, kept⟩ := each path isPath
    rw [FileView.found_eq_file.mpr isFile] at ran
    cases ran
    simpa [InputFile.named_path] using kept (InputFile.named cwd path) (mem_singleton_self _)
  refine ⟨fun input mem => ?_, fun input mem => ?_, ?_, ?_, ?_, ?_, ?_⟩
  · exact ⟨(inward input mem).plain.not_isAbsolute, (inward input mem).names⟩
  · obtain ⟨plain, nonempty, names⟩ := inward input mem
    exact ⟨input.relative.components, nonempty, names, Path.normal_join plain names⟩
  · refine gathers.apart.imp_of_mem fun {a b} isA isB different same => different ?_
    rw [Path.normal_join (inward a isA).plain (inward a isA).names,
      Path.normal_join (inward b isB).plain (inward b isB).names] at same
    exact append_cancel_left same
  · intro path isPath isFile rest whole
    obtain ⟨kept, isKept, same, relative⟩ := file path isPath isFile
    refine ⟨kept, isKept, same, relative.trans ?_⟩
    rcases InputFile.named_relative sound here isFile with ⟨notBelow, _⟩ | ⟨whole', _⟩
    · exact absurd ⟨rest, whole.symm⟩ notBelow
    · exact append_cancel_left (whole'.symm.trans whole)
  · intro path isPath isFile notBelow
    obtain ⟨kept, isKept, same, relative⟩ := file path isPath isFile
    rcases InputFile.named_relative sound here isFile with
      ⟨_, name, isLast, isName, isRelative⟩ | ⟨whole, _⟩
    · refine ⟨name, isLast, kept, isKept, same, relative.trans ?_⟩
      rw [isRelative]
      exact (Path.inward_of_name isName).2
    · exact absurd ⟨_, whole.symm⟩ notBelow
  · intro path isPath isDirectory
    obtain ⟨group, ran, kept⟩ := each path isPath
    cases found : view.found path with
    | directory files =>
      rw [found] at ran
      cases ran
      refine ⟨files, (FileView.found_eq_directory.mp found).2,
        fun file isFile name isLast isScript => ?_⟩
      obtain ⟨input, isInput, same, relative⟩ := kept ⟨path.join file, file⟩
        (mem_map_of_mem (mem_filter.mpr ⟨isFile, by simp [isLast, isScript]⟩))
      exact ⟨input, isInput, same, by simpa [Path.same] using relative⟩
    | file => cases isDirectory.symm.trans (FileView.found_eq_file.mp found)
    | unwalkable fault =>
      rw [found] at ran
      cases ran
    | missing =>
      rw [found] at ran
      cases ran
  · intro arguments settings result s' isSettings isPaths out ran'
    exact written_sublist isSettings (isPaths ▸ ran) out ran'

/-- A disk with a working directory `/w` and files in it, below it and outside of it. -/
def sampleDisk : Disk :=
  ⟨[([['w']], .directory), ([['w'], "a.js".toList], .file []), ([['w'], "lib".toList], .directory),
    ([['w'], "lib".toList, "b.js".toList], .file []), (["c.js".toList], .file [])]⟩

theorem outputs_of_sample_stay_below :
    Lands Disk.access sampleDisk sampleDisk.view (.ofString "/w") (.ofString "/w/../out")
      [.ofString "/w/./a.js", .ofString "/w/lib/", .ofString "/c.js"]
      [⟨.ofString "/w/./a.js", .ofString "a.js"⟩, ⟨.ofString "/w/lib/b.js", .ofString "b.js"⟩,
        ⟨.ofString "/c.js", .ofString "c.js"⟩] := by
  have collected :
      ((Run.inputs Disk.access [.ofString "/w/./a.js", .ofString "/w/lib/", .ofString "/c.js"]
        (.ofString "/w")).run.run sampleDisk).1.toOption =
          some [⟨.ofString "/w/./a.js", .ofString "a.js"⟩,
            ⟨.ofString "/w/lib/b.js", .ofString "b.js"⟩,
            ⟨.ofString "/c.js", .ofString "c.js"⟩] := by decide +kernel
  refine outputs_stay_below sampleDisk.view_shown (Disk.view_sound (by decide +kernel))
    (by decide +kernel) ?_ (fun path mem => ?_) _
  · rw [inputs_run sampleDisk.view_shown] at collected ⊢
    revert collected
    generalize InputFile.collect _ _ = outcome
    intro collected
    cases outcome <;> cases collected
    rfl
  · refine InputFile.descends_of_drop ?_
    revert path
    decide +kernel

/-- A file above the working directory that is named from there is written beside the output
directory, over a file of the working directory. -/
theorem file_above_is_written_beside_outputs :
    ((Run.inputs Disk.access [.ofString "/w/../c.js"] (.ofString "/w")).run.run
      sampleDisk).1.toOption =
        some [⟨.ofString "/w/../c.js", .ofString "../c.js"⟩] ∧
      Component.parent ∈ (Path.ofString "../c.js").components ∧
      ((Path.ofString "/w/out").join (.ofString "../c.js")).normal =
        (Path.ofString "/w/c.js").components := by
  decide +kernel

end Run

end PatternLowering

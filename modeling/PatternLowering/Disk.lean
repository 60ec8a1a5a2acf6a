import PatternLowering.Files

/-!
# A tree of files

Files and directories by the names that lead to them from the root. A path is followed part by part,
and every part before the last must be a directory that is there.
-/

namespace PatternLowering

inductive Entry where
  | directory
  | file (bytes : List UInt8)
deriving DecidableEq

/-- The root is always a directory. -/
structure Disk where
  entries : List (List Text × Entry)
deriving DecidableEq

namespace Disk

def empty : Disk := ⟨[]⟩

def entry? (disk : Disk) (names : List Text) : Option Entry :=
  if names.isEmpty then some .directory else disk.entries.lookup names

/-- Puts an entry in place of what was there. -/
def put (disk : Disk) (names : List Text) (entry : Entry) : Disk :=
  ⟨disk.entries.filter (·.1 != names) ++ [(names, entry)]⟩

/-- Where one part leads from a directory. -/
def step (here : List Text) (part : Text) : List Text :=
  match Path.component? part with
  | some (.name name) => here ++ [name]
  | some .parent => here.dropLast
  | _ => here

/-- The length of the longest name, in bytes. -/
def maxNameSize : Nat := 255

/-- The length of the longest path that is followed, in bytes. -/
def maxPathSize : Nat := 4095

/-- Follows parts from a place that must be a directory if there are any. -/
def follow (disk : Disk) (here : List Text) : List Text → Except FileFault (List Text)
  | [] => .ok here
  | part :: parts =>
    match disk.entry? here with
    | some .directory =>
      let next := step here part
      if maxNameSize < Text.size part then .error .nameTooLong
      else if (disk.entry? next).isSome then disk.follow next parts
      else .error .notFound
    | some (.file _) => .error .notDirectory
    | none => .error .notFound

/-- The parts of a path, unless it cannot be followed in any tree. -/
def partsOf (path : Path) : Except FileFault (List Text) :=
  if '\x00' ∈ path.text then .error .nulInPath
  else if path.text.isEmpty then .error .notFound
  else if maxPathSize < Text.size path.text then .error .nameTooLong
  else .ok (Path.parts path.front.2)

def resolve (disk : Disk) (path : Path) : Except FileFault (List Text) := do
  disk.follow [] (← partsOf path)

def kind (disk : Disk) (path : Path) : EntryKind :=
  match disk.resolve path with
  | .error _ => .missing
  | .ok names =>
    match disk.entry? names with
    | some .directory => .directory
    | some (.file _) => .file
    | none => .missing

/-- A text in UTF-8. -/
def read (disk : Disk) (path : Path) : Except FileFault String := do
  match disk.entry? (← disk.resolve path) with
  | some (.file bytes) =>
    match String.fromUTF8? bytes.toByteArray with
    | some text => .ok text
    | none => .error .notText
  | some .directory => .error .isDirectory
  | none => .error .notFound

/-- A directory comes before what is in it, and names are ordered as texts. -/
def inOrder : List Text → List Text → Bool
  | [], _ => true
  | _ :: _, [] => false
  | a :: as, b :: bs => if a = b then inOrder as bs else a.le b

/-- The files below a place, each by the names that lead to it from there. -/
def filesFrom (disk : Disk) (here : List Text) : List (List Text) :=
  let found := disk.entries.filterMap fun (names, entry) =>
    match entry with
    | .file _ => if here.isPrefixOf names then some (names.drop here.length) else none
    | .directory => none
  found.mergeSort inOrder

def pathOf (names : List Text) : Path := ⟨List.intercalate ['/'] names⟩

/-- The path to the same place from the root by names only. -/
def realPath (disk : Disk) (path : Path) : Except FileFault Path := do
  return ⟨'/' :: (pathOf (← disk.resolve path)).text⟩

def filesBelow (disk : Disk) (path : Path) : Except FileFault (List Path) := do
  return (disk.filesFrom (← disk.resolve path)).map pathOf

/-- The directory in which the last part of a path lies, and that part. Slashes at the end do not
count. -/
def place (disk : Disk) (path : Path) : Except FileFault (List Text × Text) := do
  let parts := ((← partsOf path).reverse.dropWhile List.isEmpty).reverse
  let here ← disk.follow [] parts.dropLast
  let last := parts.getLastD []
  match disk.entry? here with
  | some .directory =>
    if maxNameSize < Text.size last then .error .nameTooLong else return (here, last)
  | some (.file _) => .error .notDirectory
  | none => .error .notFound

def createDirectory (disk : Disk) (path : Path) : Except FileFault Disk := do
  let (here, last) ← disk.place path
  match Path.component? last with
  | some (.name name) =>
    if (disk.entry? (here ++ [name])).isSome then .error .alreadyExists
    else return disk.put (here ++ [name]) .directory
  | _ => .error .alreadyExists

def write (disk : Disk) (path : Path) (text : String) : Except FileFault Disk := do
  let (here, last) ← disk.place path
  match Path.component? last with
  | some (.name name) =>
    match disk.entry? (here ++ [name]) with
    | some .directory => .error .isDirectory
    | _ => return disk.put (here ++ [name]) (.file text.toUTF8.toList)
  | _ => .error .isDirectory

/-- The files of `after` that are not the same in `before`. -/
def changes (before after : Disk) : List (List Text × List UInt8) :=
  after.entries.filterMap fun (names, entry) =>
    match entry with
    | .file bytes => if before.entry? names = some entry then none else some (names, bytes)
    | .directory => none

/-- Keeps the old state if a step fails. -/
def attempt (next : Disk → Except FileFault Disk) : StateM Disk (Except FileFault Unit) :=
  fun disk =>
    match next disk with
    | .ok disk => (.ok (), disk)
    | .error fault => (.error fault, disk)

/-- Access to the files of a tree that is at hand. -/
def access : FileAccess (StateM Disk) where
  kind path := return (← get).kind path
  read path := return (← get).read path
  filesBelow path := return (← get).filesBelow path
  createDirectory path := attempt (·.createDirectory path)
  write path text := attempt (·.write path text)

/-- Creates a directory and those above it, as far as nothing is in the way. -/
def withDirectory (disk : Disk) (path : Path) : Disk :=
  ((access.createDirectories path).run disk).2

/-- Puts a file into a directory that is created if need be. -/
def withFile (disk : Disk) (path : Path) (bytes : List UInt8) : Disk :=
  let disk := (path.parent?.map disk.withDirectory).getD disk
  match disk.place path with
  | .ok (here, name) => disk.put (here ++ [name]) (.file bytes)
  | .error _ => disk

end Disk

end PatternLowering

import PatternLowering.Path

/-!
# Access to files

What a run needs to do with files, whatever holds them. `Disk` is a tree of files as a value.
-/

namespace PatternLowering

inductive EntryKind where
  | file
  | directory
  | missing
deriving DecidableEq, Repr

/-- Why an access failed. -/
inductive FileFault where
  | notFound
  | notDirectory
  | isDirectory
  | alreadyExists
  | notText
  | nameTooLong
  | nulInPath
  | other (reason : String)
deriving DecidableEq, Repr

def FileFault.message : FileFault → String
  | notFound => "No such file or directory (os error 2)"
  | notDirectory => "Not a directory (os error 20)"
  | isDirectory => "Is a directory (os error 21)"
  | alreadyExists => "File exists (os error 17)"
  | notText => "stream did not contain valid UTF-8"
  | nameTooLong => "File name too long (os error 36)"
  | nulInPath => "file name contained an unexpected NUL byte"
  | other reason => reason

/-- `filesBelow` gives the files in a directory and below it, seen from there, ordered by name
directory by directory. `createDirectory` creates no directories above the last. -/
structure FileAccess (m : Type → Type) where
  kind : Path → m EntryKind
  read : Path → m (Except FileFault String)
  filesBelow : Path → m (Except FileFault (List Path))
  createDirectory : Path → m (Except FileFault Unit)
  write : Path → String → m (Except FileFault Unit)

namespace FileAccess

variable {m : Type → Type} [Monad m]

/-- It does not matter who created a directory. -/
def orPresent (access : FileAccess m) (path : Path) (outcome : Except FileFault Unit) :
    m (Except FileFault Unit) := do
  match outcome with
  | .ok () => return .ok ()
  | .error fault =>
    if (← access.kind path) = .directory then return .ok () else return .error fault

/-- Makes sure that the first path is a directory, given the paths above it. -/
def createUpwards (access : FileAccess m) : List Path → m (Except FileFault Unit)
  | [] => return .ok ()
  | path :: above => do
    if path.text.isEmpty then return .ok ()
    match ← access.createDirectory path with
    | .error .notFound =>
      match ← createUpwards access above with
      | .ok () => access.orPresent path (← access.createDirectory path)
      | .error fault => return .error fault
    | outcome => access.orPresent path outcome

/-- Makes sure that a path is a directory. -/
def createDirectories (access : FileAccess m) (path : Path) : m (Except FileFault Unit) :=
  access.createUpwards path.ancestors

end FileAccess

end PatternLowering

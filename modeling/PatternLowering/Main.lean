import PatternLowering.Command

/-!
# The program

Runs the command on the files of the machine.
-/

namespace PatternLowering.Main

def faultOf : IO.Error → FileFault
  | .noFileOrDirectory _ _ _ => .notFound
  | .alreadyExists _ _ _ => .alreadyExists
  | .inappropriateType _ 21 _ => .isDirectory
  | .inappropriateType _ _ _ => .notDirectory
  | .invalidArgument _ 22 _ => .nulInPath
  | .invalidArgument _ _ _ => .nameTooLong
  | .permissionDenied _ _ _ => .other "Permission denied (os error 13)"
  | error => .other (toString error)

def attempt {α : Type} (action : IO α) : IO (Except FileFault α) := do
  try return .ok (← action) catch error => return .error (faultOf error)

def kind (path : Path) : IO EntryKind := do
  let here ← IO.currentDir
  match ← attempt (here / path.display).metadata with
  | .error _ => return .missing
  | .ok found =>
    match found.type with
    | .dir => return .directory
    | .file => return .file
    | _ => return .missing

def read (path : Path) : IO (Except FileFault String) := do
  match ← attempt (IO.FS.readBinFile path.display) with
  | .error fault => return .error fault
  | .ok bytes =>
    match String.fromUTF8? bytes with
    | some text => return .ok text
    | none => return .error .notText

/-- The files below a directory. Links are not followed. -/
partial def walk (directory : Path) (relative : Path) : IO (List Path) := do
  let here ← IO.currentDir
  let entries ← (here / directory.display).readDir
  let mut found := []
  for entry in entries.qsort fun a b => a.fileName < b.fileName do
    let name := Path.ofString entry.fileName
    let inner := relative.join name
    match (← entry.path.symlinkMetadata).type with
    | .dir => found := (← walk (directory.join name) inner).reverse ++ found
    | .file => found := inner :: found
    | _ => pure ()
  return found.reverse

def access : FileAccess IO where
  kind := kind
  read := read
  filesBelow path := attempt (walk path (.ofString ""))
  createDirectory path := attempt (IO.FS.createDir path.display)
  write path text := attempt (IO.FS.writeFile path.display text)

/-- Runs the command from the current directory and gives its exit code. -/
def run (arguments : List String) : IO UInt32 := do
  let cwd ← IO.currentDir
  let terminal ← (← IO.getStderr).isTty
  let outcome ← Command.run access (.ofString cwd.toString) terminal
    (arguments.map String.toList)
  IO.print outcome.stdout
  IO.eprint outcome.stderr
  return outcome.code.toUInt32

end PatternLowering.Main

def main (arguments : List String) : IO UInt32 := PatternLowering.Main.run arguments

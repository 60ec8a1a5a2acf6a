import PatternLowering.Arguments
import PatternLowering.Config
import PatternLowering.Files
import PatternLowering.Lowering

/-!
# Runs

A run finds its settings, collects its input files, lowers them all and then writes or prints what
came out. Nothing is written before every input was read.
-/

namespace PatternLowering

/-- Why a run stopped. -/
inductive RunError where
  | configNotFound (path : Path)
  | configUnreadable (path : Path) (fault : FileFault)
  | configMalformed (path : Path) (error : Json.ReadError)
  | configInvalid (path : Path) (unknown : Config.UnknownPolicy)
  | noInputs
  | inputNotFound (path : Path)
  | notWalkable (path : Path) (fault : FileFault)
  | clash (earlier later relative : Path)
  | unreadable (path : Path) (fault : FileFault)
  | notCreatable (path : Path) (fault : FileFault)
  | unwritable (path : Path) (fault : FileFault)
deriving Repr

/-- One link in the explanation of an error. -/
inductive Cause where
  | text (message : String)
  | file (fault : FileFault)
  | json (error : Json.ReadError)
deriving Repr

namespace RunError

/-- The explanation, from the outermost step inwards. -/
def chain : RunError → List Cause
  | configNotFound path => [.text ("config file not found: " ++ path.display)]
  | configUnreadable path fault =>
    [.text ("failed to read config: " ++ path.display), .file fault]
  | configMalformed path error =>
    [.text ("failed to parse config: " ++ path.display), .text "failed to parse esdown.json",
      .json error]
  | configInvalid path unknown =>
    [.text ("invalid config: " ++ path.display), .text unknown.message]
  | noInputs =>
    [.text "no input files; pass files on the command line or list them in esdown.json"]
  | inputNotFound path => [.text ("input not found: " ++ path.display)]
  | notWalkable path fault => [.text ("failed to walk " ++ path.display), .file fault]
  | clash earlier later relative =>
    [.text (earlier.display ++ " and " ++ later.display ++ " both map to output path " ++
      relative.display)]
  | unreadable path fault => [.text ("failed to read " ++ path.display), .file fault]
  | notCreatable path fault => [.text ("failed to create " ++ path.display), .file fault]
  | unwritable path fault => [.text ("failed to write " ++ path.display), .file fault]

end RunError

/-! ## Inputs -/

/-- An input file and its path below the output directory. -/
structure InputFile where
  path : Path
  relative : Path
deriving DecidableEq, Repr

/-- What stands at a path that was named as an input. -/
inductive Found where
  | file
  | directory (files : List Path)
  | unwalkable (fault : FileFault)
  | missing
deriving DecidableEq, Repr

namespace InputFile

/-- A file that was named: its path below `base` if it lies there, and its bare name otherwise. -/
def named (base path : Path) : InputFile :=
  match path.below? base with
  | some relative => ⟨path, relative⟩
  | none => ⟨path, (path.fileName?.map Path.mk).getD path⟩

/-- The scripts among the files of a directory, with their paths below it. -/
def scripts (directory : Path) (files : List Path) : List InputFile :=
  (files.filter fun file => (file.fileName?.map Path.isScriptName).getD false).map fun file =>
    ⟨directory.join file, file⟩

/-- The inputs that one path stands for. -/
def expand (base path : Path) : Found → Except RunError (List InputFile)
  | .file => .ok [named base path]
  | .directory files => .ok (scripts path files)
  | .unwalkable fault => .error (.notWalkable path fault)
  | .missing => .error (.inputNotFound path)

/-- Adds an input. The same file counts once, and different files may not share an output. -/
def add (inputs : List InputFile) (input : InputFile) : Except RunError (List InputFile) :=
  match inputs.find? fun earlier => earlier.relative.same input.relative with
  | none => .ok (inputs ++ [input])
  | some earlier =>
    if earlier.path.same input.path then .ok inputs
    else .error (.clash earlier.path input.path input.relative)

/-- All inputs, in the order in which they were named. -/
def collect (base : Path) (named : List (Path × Found)) : Except RunError (List InputFile) :=
  named.foldlM (fun inputs (path, found) => do (← expand base path found).foldlM add inputs) []

end InputFile

/-! ## Results -/

/-- `changed` are the inputs whose lowered text differs, `written` the files that were written, and
`stdout` holds the lowered texts if there is no output directory. -/
structure RunResult where
  diagnostics : List Diagnostic
  sources : List (String × String)
  written : List Path
  changed : List Path
  stdout : String
deriving DecidableEq, Repr

def RunResult.hasErrors (result : RunResult) : Bool := result.diagnostics.any Diagnostic.isError

namespace Run

/-- An input with what became of it. -/
structure Lowered where
  input : InputFile
  source : String
  lowering : Lowering
deriving DecidableEq, Repr

/-- The result before anything is written. -/
def summary (files : List Lowered) : RunResult where
  diagnostics := files.flatMap (·.lowering.diagnostics)
  sources := files.map fun file => (file.input.path.display, file.source)
  written := []
  changed := (files.filter fun file => file.lowering.changes file.source).map (·.input.path)
  stdout := ""

/-- The lowered text of a file as printed. With several inputs it follows a line with its path. -/
def printed (label : Bool) (file : Lowered) : String :=
  match file.lowering.output with
  | none => ""
  | some output =>
    if label then "// " ++ file.input.relative.display ++ "\n" ++ output else output

/-- The files to write below an output directory. -/
def targets (outDir : Path) (files : List Lowered) : List (Path × String) :=
  files.filterMap fun file =>
    file.lowering.output.map fun output => (outDir.join file.input.relative, output)

/-- What the command line says comes before what the configuration says. -/
def override (settings : Settings) (arguments : Arguments) (cwd : Path) : Settings where
  lowering :=
    ⟨arguments.unsupportedContext.getD settings.lowering.policy,
      settings.lowering.tempDeclarations && !arguments.noTempDeclarations⟩
  outDir := (arguments.outDir.map cwd.join).or settings.outDir
  files := if arguments.files.isEmpty then settings.files else arguments.files.map cwd.join

variable {m : Type → Type} [Monad m]

/-- The nearest configuration file in a directory or above it. -/
def findConfig (access : FileAccess m) (cwd : Path) : m (Option Path) :=
  (cwd.ancestors.map (·.join Config.fileName)).findM? fun path =>
    return (← access.kind path) = .file

/-- The configuration file that was asked for, or else the nearest. A directory stands for the file
in it. -/
def configPath (access : FileAccess m) (cwd : Path) : Option Path → ExceptT RunError m (Option Path)
  | none => ExceptT.lift (findConfig access cwd)
  | some explicit => do
    let named := cwd.join explicit
    let path :=
      if (← access.kind named) = .directory then named.join Config.fileName else named
    if (← access.kind path) = .file then return some path else throw (.configNotFound path)

/-- The settings in a configuration file, its paths seen from the directory it is in. -/
def loadConfig (access : FileAccess m) (cwd path : Path) : ExceptT RunError m Settings := do
  match ← access.read path with
  | .error fault => throw (.configUnreadable path fault)
  | .ok text =>
    match Config.read text.toList with
    | .error error => throw (.configMalformed path error)
    | .ok config =>
      match config.settings (path.parent?.getD cwd) with
      | .error unknown => throw (.configInvalid path unknown)
      | .ok settings => return settings

def settings (access : FileAccess m) (arguments : Arguments) (cwd : Path) :
    ExceptT RunError m Settings := do
  let found ← match ← configPath access cwd arguments.config with
    | some path => loadConfig access cwd path
    | none => pure .default
  return override found arguments cwd

/-- What stands at a path. -/
def look (access : FileAccess m) (path : Path) : m Found := do
  match ← access.kind path with
  | .missing => return .missing
  | .file => return .file
  | .directory =>
    match ← access.filesBelow path with
    | .ok files => return .directory files
    | .error fault => return .unwalkable fault

def inputs (access : FileAccess m) (paths : List Path) (cwd : Path) :
    ExceptT RunError m (List InputFile) := do
  let named ← ExceptT.lift (paths.mapM fun path => return (path, ← look access path))
  InputFile.collect cwd named

/-- An input file with its text. -/
def readInput (access : FileAccess m) (input : InputFile) :
    ExceptT RunError m (InputFile × String) := do
  match ← access.read input.path with
  | .ok text => return (input, text)
  | .error fault => throw (.unreadable input.path fault)

/-- Writes a file and the directories above it. -/
def writeTarget (access : FileAccess m) (target : Path × String) : ExceptT RunError m Unit := do
  let (path, text) := target
  if let some parent := path.parent? then
    if let .error fault ← access.createDirectories parent then throw (.notCreatable parent fault)
  if let .error fault ← access.write path text then throw (.unwritable path fault)

/-- Lowers all inputs. -/
def lowerInputs (options : Options) (files : List (InputFile × String)) : List Lowered :=
  files.map fun (input, source) => ⟨input, source, lower32 input.path.display source options⟩

/-- A whole run from a directory. Checking only tells what would change. -/
def execute (access : FileAccess m) (arguments : Arguments) (cwd : Path) :
    ExceptT RunError m RunResult := do
  let settings ← settings access arguments cwd
  if settings.files.isEmpty then throw .noInputs
  let inputs ← inputs access settings.files cwd
  let lowered := lowerInputs settings.lowering (← inputs.mapM (readInput access))
  let result := summary lowered
  if arguments.check then return result
  match settings.outDir with
  | some outDir =>
    let targets := targets outDir lowered
    targets.forM (writeTarget access)
    return { result with written := targets.map (·.1) }
  | none =>
    return { result with stdout := String.join (lowered.map (printed (1 < inputs.length))) }

end Run

end PatternLowering

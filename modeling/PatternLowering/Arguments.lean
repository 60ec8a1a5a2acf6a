import PatternLowering.Failure
import PatternLowering.Path

/-!
# Command line arguments

Options and files may be mixed. An option is looked at as a whole only once the next argument shows
that it is complete, so a fault in its value is told after the next argument was recognized.
-/

namespace PatternLowering

inductive ReportFormat where
  | text
  | json
deriving DecidableEq, Repr

structure Arguments where
  outDir : Option Path
  config : Option Path
  unsupportedContext : Option Policy
  noTempDeclarations : Bool
  check : Bool
  pretty : Option Bool
  format : ReportFormat
  files : List Path
deriving DecidableEq, Repr

namespace Arguments

/-- Nothing was given. -/
def initial : Arguments := ⟨none, none, none, false, false, none, .text, []⟩

/-- Why the arguments do not lead to a run. -/
inductive Refusal where
  | unknownArgument
  | invalidValue
  | repeatedOption
  | needlessValue
  | help
  | version
deriving DecidableEq, Repr

inductive Key where
  | outDir
  | config
  | unsupportedContext
  | noTempDeclarations
  | check
  | pretty
  | format
  | help
  | version
deriving DecidableEq, Repr

namespace Key

def takesValue : Key → Bool
  | outDir => true
  | config => true
  | unsupportedContext => true
  | pretty => true
  | format => true
  | _ => false

def ofLong? (name : Text) : Option Key :=
  match String.ofList name with
  | "out-dir" => some outDir
  | "outDir" => some outDir
  | "config" => some config
  | "unsupported-context" => some unsupportedContext
  | "no-temp-declarations" => some noTempDeclarations
  | "check" => some check
  | "pretty" => some pretty
  | "format" => some format
  | "help" => some help
  | "version" => some version
  | _ => none

def ofShort? : Char → Option Key
  | 'c' => some config
  | 'h' => some help
  | 'V' => some version
  | _ => none

end Key

/-! ## Values -/

/-- Any path but the empty one. -/
def pathOf (value : Text) : Except Refusal Path :=
  if value.isEmpty then .error .invalidValue else .ok ⟨value⟩

def policyOf (value : Text) : Except Refusal Policy :=
  match Policy.ofName? (String.ofList value) with
  | some policy => .ok policy
  | none => .error .invalidValue

def boolOf (value : Text) : Except Refusal Bool :=
  match String.ofList value with
  | "true" => .ok true
  | "false" => .ok false
  | _ => .error .invalidValue

def formatOf (value : Text) : Except Refusal ReportFormat :=
  match String.ofList value with
  | "text" => .ok .text
  | "json" => .ok .json
  | _ => .error .invalidValue

/-- Sets what an option says; a flag has no value. -/
def set (arguments : Arguments) (value : Text) : Key → Except Refusal Arguments
  | .outDir => return { arguments with outDir := some (← pathOf value) }
  | .config => return { arguments with config := some (← pathOf value) }
  | .unsupportedContext => return { arguments with unsupportedContext := some (← policyOf value) }
  | .noTempDeclarations => return { arguments with noTempDeclarations := true }
  | .check => return { arguments with check := true }
  | .pretty => return { arguments with pretty := some (← boolOf value) }
  | .format => return { arguments with format := ← formatOf value }
  | .help => .error .help
  | .version => .error .version

/-! ## Reading -/

/-- What was recognized but not looked at yet. -/
inductive Pending where
  | nothing
  | option (key : Key) (value : Option Text)
  | files (values : List Text)
deriving DecidableEq, Repr

structure Progress where
  arguments : Arguments
  given : List Key
  pending : Pending
deriving DecidableEq, Repr

namespace Progress

def start : Progress := ⟨.initial, [], .nothing⟩

/-- Takes an option that is complete. Nothing is given twice. -/
def accept (p : Progress) (key : Key) (value : Text) : Except Refusal Progress :=
  if key ∈ p.given then .error .repeatedOption
  else return ⟨← p.arguments.set value key, key :: p.given, .nothing⟩

/-- Looks at what is pending. An option that still lacks its value is refused. -/
def settle (p : Progress) : Except Refusal Progress :=
  match p.pending with
  | .nothing => .ok p
  | .option _ none => .error .invalidValue
  | .option key (some value) => p.accept key value
  | .files values => do
    let paths ← values.mapM pathOf
    let arguments := { p.arguments with files := p.arguments.files ++ paths }
    return { p with arguments := arguments, pending := .nothing }

/-- An option, with its value if that was written in the same argument. -/
def option (p : Progress) (key : Key) (attached : Option Text) : Except Refusal Progress := do
  if key.takesValue then
    let p ← p.settle
    match attached with
    | some value => p.accept key value
    | none => return { p with pending := .option key none }
  else if attached.isSome then .error .needlessValue
  else (← p.settle).accept key []

/-- An option written with its long name. -/
def long (p : Progress) (body : Text) : Except Refusal Progress :=
  match Key.ofLong? (body.takeWhile (· != '=')), body.dropWhile (· != '=') with
  | none, _ => .error .unknownArgument
  | some key, [] => p.option key none
  | some key, _ :: value => p.option key (some value)

/-- Options written as letters. The first that takes a value has what follows it. -/
def short (p : Progress) : Text → Except Refusal Progress
  | [] => .ok p
  | letter :: rest =>
    match Key.ofShort? letter with
    | none => .error .unknownArgument
    | some key =>
      if key.takesValue then
        match rest with
        | [] => p.option key none
        | '=' :: value => p.option key (some value)
        | value => p.option key (some value)
      else do short (← p.option key none) rest

def file (p : Progress) (value : Text) : Except Refusal Progress :=
  match p.pending with
  | .files values => .ok { p with pending := .files (values ++ [value]) }
  | _ => return { ← p.settle with pending := .files [value] }

/-- An argument that is no option: the value that an option waits for, or a file. -/
def plain (p : Progress) (value : Text) : Except Refusal Progress :=
  match p.pending with
  | .option key none => .ok { p with pending := .option key (some value) }
  | _ => p.file value

/-- One argument before the end of the options. -/
def argument (p : Progress) : Text → Except Refusal Progress
  | '-' :: '-' :: body => p.long body
  | '-' :: letter :: letters => p.short (letter :: letters)
  | value => p.plain value

/-- All arguments. After two dashes there are only files. -/
def all (p : Progress) : List Text → Except Refusal Progress
  | [] => p.settle
  | ['-', '-'] :: values => do (← values.foldlM file p).settle
  | value :: values => do (← p.argument value).all values

end Progress

def read (values : List Text) : Except Refusal Arguments :=
  (Progress.start.all values).map (·.arguments)

end Arguments

end PatternLowering

import PatternLowering.Report
import PatternLowering.Run

/-!
# The command

What the program prints and how it exits.
-/

namespace PatternLowering

/-- Everything that a finished program leaves behind besides files. -/
structure Outcome where
  code : Nat
  stdout : String
  stderr : String
deriving DecidableEq, Repr

def Cause.message : Cause → String
  | text message => message
  | file fault => fault.message
  | json error => error.message

namespace RunError

/-- Moves every line of a text but the first to the right. -/
def hang (blanks : String) (text : String) : String :=
  String.ofList (text.toList.flatMap fun c => if c = '\n' then '\n' :: blanks.toList else [c])

/-- The inner links of an explanation, numbered if there are several. -/
def causes : List String → String
  | [] => ""
  | [cause] => "\n\nCaused by:\n    " ++ hang "    " cause
  | several =>
    let numbered := several.zipIdx.map fun (cause, index) =>
      let digits := toString index
      "\n" ++ String.ofList (List.replicate (5 - digits.length) ' ') ++ digits ++ ": " ++
        hang "       " cause
    "\n\nCaused by:" ++ String.join numbered

def message (error : RunError) : String :=
  match error.chain.map Cause.message with
  | [] => ""
  | outer :: inner => "Error: " ++ outer ++ causes inner ++ "\n"

end RunError

namespace Command

def version : String := "esdown 0.1.0\n"

def helpLines : List String :=
  ["Lower ES6 destructuring patterns to ES5 assignments",
    "",
    "Usage: esdown [OPTIONS] [FILES]...",
    "",
    "Arguments:",
    "  [FILES]...  Input files, or directories searched for `.js` files",
    "",
    "Options:",
    "      --out-dir <OUT_DIR>",
    "          Write lowered files under this directory instead of printing them",
    "  -c, --config <CONFIG>",
    "          Path to esdown.json or a directory containing it",
    "      --unsupported-context <UNSUPPORTED_CONTEXT>",
    "          How to report patterns in for-in/for-of heads and parameter lists " ++
      "[possible values: warn, error]",
    "      --no-temp-declarations",
    "          Do not insert `var` declarations for synthesized temporaries",
    "      --check",
    "          Report files that would change without writing anything",
    "      --pretty <PRETTY>",
    "          Enable color in diagnostic output [possible values: true, false]",
    "      --format <FORMAT>",
    "          Diagnostic report format [default: text] [possible values: text, json]",
    "  -h, --help",
    "          Print help",
    "  -V, --version",
    "          Print version"]

def help : String := String.join (helpLines.map (· ++ "\n"))

def refusal : Arguments.Refusal → Outcome
  | .help => ⟨0, help, ""⟩
  | .version => ⟨0, version, ""⟩
  | .unknownArgument => ⟨2, "", "error: unexpected argument\n"⟩
  | .invalidValue => ⟨2, "", "error: a value is missing or invalid\n"⟩
  | .repeatedOption => ⟨2, "", "error: an argument cannot be used multiple times\n"⟩
  | .needlessValue => ⟨2, "", "error: unexpected value for a flag\n"⟩

/-- The diagnostics as they are printed. Only text is coloured. -/
def report (arguments : Arguments) (terminal : Bool) (result : RunResult) : String :=
  if result.diagnostics.isEmpty then ""
  else
    match arguments.format with
    | .json => Report.json result.diagnostics
    | .text =>
      let sources := result.sources.map fun (file, text) => (file, text.toList)
      Report.text ⟨arguments.pretty.getD terminal, sources⟩ result.diagnostics

/-- The inputs that would change, one a line, if only that was asked. -/
def changedList (arguments : Arguments) (result : RunResult) : String :=
  if arguments.check then String.join (result.changed.map fun path => path.display ++ "\n") else ""

def failed (arguments : Arguments) (result : RunResult) : Bool :=
  result.hasErrors || (arguments.check && !result.changed.isEmpty)

def outcome (arguments : Arguments) (terminal : Bool) : Except RunError RunResult → Outcome
  | .error error => ⟨1, "", error.message⟩
  | .ok result =>
    ⟨if failed arguments result then 1 else 0, result.stdout ++ changedList arguments result,
      report arguments terminal result⟩

/-- The whole program, run from a directory. `terminal` tells that messages go to a terminal. -/
def run {m : Type → Type} [Monad m] (access : FileAccess m) (cwd : Path) (terminal : Bool)
    (values : List Text) : m Outcome := do
  match Arguments.read values with
  | .error reason => return refusal reason
  | .ok arguments => return outcome arguments terminal (← (Run.execute access arguments cwd).run)

end Command

end PatternLowering

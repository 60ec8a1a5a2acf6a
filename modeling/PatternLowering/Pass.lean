import PatternLowering.Site.Lowering
import PatternLowering.TempDeclaration

/-!
# The lowering pass

One walk over the program that lowers every site. The expressions in and around a pattern come
before the pattern itself, so that it finds them lowered; a function's temporaries are declared as
soon as its body is done, before a site around the function takes over its text.
-/

namespace PatternLowering

structure Options where
  policy : Policy
  tempDeclarations : Bool
deriving DecidableEq, Repr

def Options.default : Options := ⟨.warn, true⟩

/-- What the walk needs to know. -/
structure PassInput where
  table : Table
  file : String
  lines : LineMap
  options : Options

structure Pass where
  buffer : EditBuffer
  scopes : Scopes
  diagnostics : List Diagnostic
  sites : Nat
  log : Array Event
deriving DecidableEq, Repr

namespace Pass

def record (p : Pass) (event : Event) : Pass := { p with log := p.log.push event }

/-- Reports a failure about the bytes from `start` up to `stop`. -/
def report (input : PassInput) (start stop : Nat) (failure : Failure) (p : Pass) : Pass :=
  let found :=
    failure.diagnostic input.file input.lines input.options.policy start stop
  let p := if failure.isInternal then p.record (.skipped input.file found.line failure) else p
  { p with diagnostics := p.diagnostics ++ [found] }

/-- The range shown for a site that failed: its declarator, if it has one. -/
def reportedNode (t : Table) (n : NodeId) : NodeId :=
  match t.sitePosition n with
  | .declaration declarator _ _ => declarator
  | _ => n

def range (t : Table) (n : NodeId) : Nat × Nat :=
  ((t.get? n).map fun node => (node.start, node.stop)).getD (0, 0)

def failed (input : PassInput) (n : NodeId) (failure : Failure) (p : Pass) : Pass :=
  let (start, stop) := range input.table (reportedNode input.table n)
  let p :=
    if failure.isInternal then p.record (.internalFailure start failure)
    else if (input.table.sitePosition n).place?.isSome then
      p.record (.leftUnchanged start failure)
    else p
  p.report input start stop failure

/-- Lowers one site, or reports why it stays. -/
def lower (input : PassInput) (retain : Bool) (n : NodeId) (p : Pass) : Pass :=
  let (result, scopes, log) := input.table.lowerSite p.buffer n retain p.scopes p.log
  let p := { p with scopes := scopes, log := log }
  match result with
  | .error failure => p.failed input n failure
  | .ok site =>
    match p.buffer.replace site.start site.stop site.replacement.toList with
    | .error error => p.failed input n (.edit error)
    | .ok buffer => { p with buffer := buffer, sites := p.sites + 1 }

/-- Declares the temporaries of the scope that `n` opens at the start of its statements. -/
def declareTemps (input : PassInput) (n : NodeId) (statements : List NodeId) (p : Pass) : Pass :=
  if !input.options.tempDeclarations then p
  else
    let temps := p.scopes.declaredTemps (p.scopes.closest input.table n)
    match TempDeclaration.insert input.table p.buffer statements temps with
    | .ok buffer => { p with buffer := buffer }
    | .error error =>
      let (start, stop) := range input.table n
      p.report input start stop (.edit error)

/-- A walk over a node, if it is there, and all its parts; the flag tells whether temporaries stay
in use. -/
abbrev Walk := Bool → Option NodeId → Pass → Pass

def Walk.all (walk : Walk) (retain : Bool) (ns : List NodeId) (p : Pass) : Pass :=
  ns.foldl (fun p n => walk retain (some n) p) p

/-- Lowers a pattern after the expressions in it. Their temporaries stay in use: the pattern may
read them in between its own. -/
def lowerPattern (input : PassInput) (walk : Walk) (retain : Bool) (n : NodeId) (p : Pass) : Pass :=
  (walk.all true (input.table.patternExpressions n) p).lower input retain n

/-- The parameters of a function, then its body, then the declaration of its temporaries. -/
def visitFunction (input : PassInput) (walk : Walk) (retain : Bool) (n : NodeId)
    (parts : FunctionParts) (p : Pass) : Pass :=
  let patterns := parts.parameters.filter input.table.isPattern
  let p := patterns.foldl (fun p pattern => p.lowerPattern input walk retain pattern) p
  let p := walk retain (some parts.body) p
  match input.table.form? parts.body with
  | some (.block statements) => p.declareTemps input n statements
  | _ => p

/-- Walks over the parts of a node and does what there is to do at the node itself. -/
def visitForm (input : PassInput) (walk : Walk) (retain : Bool) (n : NodeId) (form : Form)
    (p : Pass) : Pass :=
  match form with
  | .declarator target value =>
    if input.table.isPattern target then
      (walk retain value p).lowerPattern input walk retain target
    else walk.all retain form.children p
  | .assignment target .plain value =>
    if input.table.isPattern target then
      (walk retain (some value) p).lowerPattern input walk retain target
    else walk.all retain form.children p
  | .forEach _ head subject body =>
    let p :=
      if input.table.isPattern head then p.lowerPattern input walk retain head
      else walk retain (some head) p
    walk.all retain [subject, body] p
  | .functionDeclaration parts => p.visitFunction input walk retain n parts
  | .functionExpression parts => p.visitFunction input walk retain n parts
  | .objectPattern _ => walk.all true (input.table.patternExpressions n) p
  | .arrayPattern _ => walk.all true (input.table.patternExpressions n) p
  | _ => walk.all retain form.children p

/-- The walk, with `depth` levels left. -/
def visit (input : PassInput) : (depth : Nat) → Walk
  | 0, _, n, p => p.record (.loweringTooDeep (n.getD noNode))
  | depth + 1, retain, some n, p =>
    match input.table.form? n with
    | some form => p.visitForm input (visit input depth) retain n form
    | none => p
  | _ + 1, _, none, p => p

/-- The whole pass over a program. -/
def run (input : PassInput) (root : NodeId) (p : Pass) : Pass :=
  let p := visit input maxTreeDepth false (some root) p
  let p :=
    match input.table.form? root with
    | some (.program statements) => p.declareTemps input root statements
    | _ => p
  p.record (.finished input.file p.sites p.buffer.size p.buffer.replacements p.diagnostics.length)

end Pass

end PatternLowering

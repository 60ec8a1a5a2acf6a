import PatternLowering.Text

/-!
# Paths

A path is kept as it was written. What it names is told by its components: empty parts and parts
that are a single dot do not count, except for a dot in front. Two spellings of the same components
are one path.
-/

namespace PatternLowering

structure Path where
  text : Text
deriving DecidableEq, Repr

inductive Component where
  | root
  | current
  | parent
  | name (name : Text)
deriving DecidableEq, Repr

namespace Path

def ofString (text : String) : Path := ⟨text.toList⟩

def display (path : Path) : String := String.ofList path.text

def isAbsolute (path : Path) : Bool := path.text.head? == some '/'

/-- A path seen from a directory. An absolute path stays; the empty path gets a slash. -/
def join (base path : Path) : Path :=
  if path.isAbsolute then path
  else if base.text.isEmpty || base.text.getLast? == some '/' then ⟨base.text ++ path.text⟩
  else ⟨base.text ++ '/' :: path.text⟩

/-! ## Components -/

/-- The parts between slashes. -/
def parts : Text → List Text
  | [] => [[]]
  | c :: rest =>
    if c = '/' then [] :: parts rest
    else match parts rest with
      | part :: others => (c :: part) :: others
      | [] => [[c]]

/-- The component of a part behind the front of a path, if it counts. -/
def component? (part : Text) : Option Component :=
  if part = [] ∨ part = ['.'] then none
  else if part = ['.', '.'] then some .parent
  else some (.name part)

/-- The front of a path, which is not a part between slashes, and what follows it. -/
def front (path : Path) : Option Component × Text :=
  match path.text with
  | '/' :: rest => (some .root, rest)
  | ['.'] => (some .current, [])
  | '.' :: '/' :: rest => (some .current, rest)
  | text => (none, text)

def components (path : Path) : List Component :=
  path.front.1.toList ++ (parts path.front.2).filterMap component?

/-- The same path, maybe in another spelling. -/
def same (a b : Path) : Bool := a.components == b.components

def fileName? (path : Path) : Option Text :=
  match path.components.getLast? with
  | some (.name name) => some name
  | _ => none

/-! ## Cutting -/

/-- Drops slashes and dots that do not count from the edge of a text that follows a slash. It is the
same for the left edge and, read backwards, for the right one. -/
def trimEdge : Text → Text
  | '/' :: rest => trimEdge rest
  | '.' :: '/' :: rest => trimEdge rest
  | ['.'] => []
  | text => text

def trim (text : Text) : Text := (trimEdge (trimEdge text).reverse).reverse

/-- What follows the first `count` components of a text that follows a slash. -/
def dropNames : Nat → Text → Text
  | 0, text => text
  | count + 1, text => dropNames count ((trimEdge text).dropWhile (· != '/'))

/-- The path as seen from `base`, if it lies below. -/
def below? (path base : Path) : Option Path :=
  match base.components with
  | [] => some path
  | components =>
    if components.isPrefixOf path.components then
      let names := components.length - base.front.1.toList.length
      some ⟨trim (dropNames names path.front.2)⟩
    else none

/-- The text of a front. -/
def frontText : Option Component → Text
  | some .root => ['/']
  | some .current => ['.']
  | _ => []

/-- The path without its last component. -/
def parent? (path : Path) : Option Path :=
  match path.components.getLast? with
  | none => none
  | some .root => none
  | some .current => some ⟨[]⟩
  | some _ =>
    let (front, rest) := path.front
    let kept := trimEdge ((trimEdge rest.reverse).dropWhile (· != '/'))
    match front, kept with
    | some .current, _ :: _ => some ⟨'.' :: '/' :: kept.reverse⟩
    | front, _ => some ⟨frontText front ++ kept.reverse⟩

/-- The path and the paths it lies below, the nearest first, at most `count` of them. -/
def ancestorsWithin (path : Path) : Nat → List Path
  | 0 => []
  | count + 1 =>
    match path.parent? with
    | some parent => path :: ancestorsWithin parent count
    | none => [path]

def ancestors (path : Path) : List Path := path.ancestorsWithin (path.components.length + 1)

/-- The name ends in `.js` and has something before that. -/
def isScriptName (name : Text) : Bool :=
  ".js".toList.isSuffixOf name && 3 < name.length

end Path

end PatternLowering

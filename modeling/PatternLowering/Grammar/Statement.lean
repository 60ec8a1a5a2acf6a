import PatternLowering.Grammar.Expression

/-!
# Statements
-/

namespace PatternLowering.Grammar

open Parse

def declarator (inner : Productions) (allowIn : Bool) : Parse NodeId := do
  let start ← here
  let name ← inner.binding
  let value ←
    if ← acceptPunctuator .assign then pure (some (← inner.assignment allowIn)) else pure none
  finish start (.declarator name value)

/-- The declaration that a keyword opens. -/
def declarationKind? : TokenKind → Option DeclarationKind
  | .keyword .varKw => some .var
  | .keyword .letKw => some .lexical
  | .keyword .constKw => some .const
  | _ => none

def declarationList (inner : Productions) (declared : DeclarationKind) (allowIn : Bool) :
    Parse NodeId := do
  let start ← here
  advance
  let first ← declarator inner allowIn
  let later ← many do
    if ← acceptPunctuator .comma then return some (← declarator inner allowIn)
    return none
  finish start (.declarationList declared (first :: later))

/-- An expression in parentheses, after the keyword of a statement. -/
def inParens (inner : Productions) : Parse NodeId := do
  expectPunctuator .openParen
  let inside ← expression inner true
  expectPunctuator .closeParen
  return inside

def ifStatement (inner : Productions) : Parse NodeId := do
  let start ← here
  advance
  let condition ← inParens inner
  let consequent ← inner.statement
  let alternative ←
    if ← acceptKeyword .elseKw then pure (some (← inner.statement)) else pure none
  finish start (.ifStatement condition consequent alternative)

/-- The head of a loop over the items of something: a declaration stays as it is, an expression
becomes a target. -/
def forEachHead (inner : Productions) (n : NodeId) : Parse NodeId := do
  match ← form? n with
  | some (.declarationList _ _) => return n
  | _ => target inner n

/-- The first part of the head of a `for` loop, in which `in` is no operator. -/
def forStart? (inner : Productions) : Parse (Option NodeId) := do
  let kind ← kind
  if kind = .punctuator .semicolon then return none
  match declarationKind? kind with
  | some declared => return some (← declarationList inner declared false)
  | none => return some (← expression inner false)

/-- A part of the head of a `for` loop that may be left out before `close`. -/
def forPart? (inner : Productions) (close : Punctuator) : Parse (Option NodeId) := do
  let part ←
    if ← isAtPunctuator close then pure none else pure (some (← expression inner true))
  expectPunctuator close
  return part

def forEach (inner : Productions) (start : Nat) (head : NodeId) (isOf : Bool) : Parse NodeId := do
  let head ← forEachHead inner head
  advance
  let subject ← if isOf then inner.assignment true else expression inner true
  expectPunctuator .closeParen
  let body ← inner.statement
  finish start (.forEach isOf head subject body)

def forClauses (inner : Productions) (start : Nat) (first : Option NodeId) : Parse NodeId := do
  expectPunctuator .semicolon
  let condition ← forPart? inner .semicolon
  let step ← forPart? inner .closeParen
  let body ← inner.statement
  finish start (.forStatement first condition step body)

def forStatement (inner : Productions) : Parse NodeId := do
  let start ← here
  advance
  expectPunctuator .openParen
  let first ← forStart? inner
  match first with
  | some head =>
    if ← isAtKeyword .inKw then forEach inner start head false
    else if ← isAtName "of" then forEach inner start head true
    else forClauses inner start first
  | none => forClauses inner start first

/-- The test of a clause; the default clause has none. -/
def caseTest? (inner : Productions) : Parse (Option NodeId) := do
  match ← kind with
  | .keyword .caseKw =>
    advance
    return some (← expression inner true)
  | .keyword .defaultKw =>
    advance
    return none
  | .endOfFile => fail (.expected Punctuator.closeBrace.spelling)
  | _ => fail (.expected Keyword.caseKw.spelling)

def endsClause (kind : TokenKind) : Bool :=
  kind = .keyword .caseKw || kind = .keyword .defaultKw || kind = .punctuator .closeBrace ||
    kind = .endOfFile

def caseClause (inner : Productions) : Parse NodeId := do
  let start ← here
  let test ← caseTest? inner
  expectPunctuator .colon
  let statements ← many do
    if endsClause (← kind) then return none
    return some (← inner.statement)
  finish start (.caseClause test statements)

def switchStatement (inner : Productions) : Parse NodeId := do
  let start ← here
  advance
  let subject ← inParens inner
  expectPunctuator .openBrace
  let clauses ← many do
    if ← isAtPunctuator .closeBrace then return none
    return some (← caseClause inner)
  advance
  finish start (.switchStatement subject clauses)

def catchClause (inner : Productions) : Parse NodeId := do
  let start ← here
  advance
  expectPunctuator .openParen
  if (← isAtPunctuator .openBrace) || (← isAtPunctuator .openBracket) then
    fail (.unsupported .catchPattern)
  let name ← identifier
  expectPunctuator .closeParen
  let body ← block inner
  finish start (.catchClause name body)

def tryStatement (inner : Productions) : Parse NodeId := do
  let start ← here
  advance
  let body ← block inner
  let handler ←
    if ← isAtKeyword .catchKw then pure (some (← catchClause inner)) else pure none
  let finalizer ←
    if ← acceptKeyword .finallyKw then pure (some (← block inner)) else pure none
  if handler.isNone && finalizer.isNone then fail .handlerExpected
  finish start (.tryStatement body handler finalizer)

def whileStatement (inner : Productions) : Parse NodeId := do
  let start ← here
  advance
  let condition ← inParens inner
  let body ← inner.statement
  finish start (.whileStatement condition body)

/-- The semicolon after the condition may always be left out. -/
def doStatement (inner : Productions) : Parse NodeId := do
  let start ← here
  advance
  let body ← inner.statement
  expectKeyword .whileKw
  let condition ← inParens inner
  discard (acceptPunctuator .semicolon)
  finish start (.doStatement body condition)

def withStatement (inner : Productions) : Parse NodeId := do
  let start ← here
  advance
  let subject ← inParens inner
  let body ← inner.statement
  finish start (.withStatement subject body)

def returnStatement (inner : Productions) : Parse NodeId := do
  let start ← here
  advance
  let t ← token
  let value ←
    if t.kind = .punctuator .semicolon ∨ t.kind = .punctuator .closeBrace ∨ t.kind = .endOfFile ∨
        t.lineBreak then pure none
    else pure (some (← expression inner true))
  endStatement
  finish start (.returnStatement value)

def throwStatement (inner : Productions) : Parse NodeId := do
  let start ← here
  advance
  if (← token).lineBreak then fail .lineBreak
  let value ← expression inner true
  endStatement
  finish start (.throwStatement value)

/-- A jump out of or within a loop, with the label that follows on the same line. -/
def jumpStatement (form : Option NodeId → Form) : Parse NodeId := do
  let start ← here
  advance
  let t ← token
  let label ←
    if t.kind = .identifier ∧ ¬ t.lineBreak then pure (some (← identifier)) else pure none
  endStatement
  finish start (form label)

/-- An expression by itself; a lone name before a colon is a label. -/
def expressionStatement (inner : Productions) : Parse NodeId := do
  let start ← here
  let inside ← expression inner true
  if (← isAtPunctuator .colon) && (← name? inside).isSome then
    advance
    let body ← inner.statement
    finish start (.labeledStatement inside body)
  else
    endStatement
    finish start (.expressionStatement inside)

def statement (inner : Productions) : Parse NodeId := do
  let start ← here
  let kind ← kind
  match declarationKind? kind with
  | some declared =>
    let list ← declarationList inner declared true
    endStatement
    finish start (.variableStatement list)
  | none =>
    match kind with
    | .punctuator .openBrace => block inner
    | .punctuator .semicolon =>
      advance
      finish start .emptyStatement
    | .keyword .functionKw =>
      let parts ← function inner true
      finish start (.functionDeclaration parts)
    | .keyword .ifKw => ifStatement inner
    | .keyword .forKw => forStatement inner
    | .keyword .switchKw => switchStatement inner
    | .keyword .tryKw => tryStatement inner
    | .keyword .whileKw => whileStatement inner
    | .keyword .returnKw => returnStatement inner
    | .keyword .doKw => doStatement inner
    | .keyword .withKw => withStatement inner
    | .keyword .throwKw => throwStatement inner
    | .keyword .breakKw => jumpStatement .breakStatement
    | .keyword .continueKw => jumpStatement .continueStatement
    | .keyword .debuggerKw =>
      advance
      endStatement
      finish start .debuggerStatement
    | _ => expressionStatement inner

end PatternLowering.Grammar

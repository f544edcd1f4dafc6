import ModuleBundler.Token.Lookahead
import ModuleBundler.Tree.Form

/-!
# ModuleBundler — parsers

A parser reads tokens from the current one on and either gives a value or stops
with a diagnostic; parsing ends at the first one. Besides the current token the
state holds how deeply the phrases around it are nested, and whether `in` is an
operator there. It does not: in the first clause of a `for` head.

* `nested` — counts a nesting, and refuses to go beyond `maxDepth`.
* `withIn` — sets whether `in` is an operator, for one phrase.
* `many`, `listUntil`, `separated` — the lists of the grammar. They are bounded
  by the bytes ahead, since each round takes at least one token.
-/

namespace ModuleBundler.Grammar

open Text (Span)

-- ---------------------------------------------------------------------------
-- Diagnostics
-- ---------------------------------------------------------------------------

/-- What a text is refused for. -/
inductive SyntaxFault where
  /-- The tokenizer failed. -/
  | token (fault : TokenFault)
  | expected (kind : TokenKind)
  | expectedWord (word : String)
  | identifierExpected
  | expressionExpected
  | stringExpected
  | declarationExpected
  | variableExpected
  | caseExpected
  | handlerExpected
  | lineBreakBeforeArrow
  | lineBreakAfterThrow
  | templateInOptionalChain
  | unclosedTemplate
  | nestedImport
  | nestedExport
  | tooDeep
  /-- The parser was given fewer rounds than the text needs. It never is. -/
  | exhausted
  deriving DecidableEq, Repr, Inhabited

/-- The wording of a fault. -/
def SyntaxFault.message : SyntaxFault → String
  | .token fault => fault.message
  | .expected kind => "'" ++ kind.display ++ "' expected."
  | .expectedWord word => "'" ++ word ++ "' expected."
  | .identifierExpected => "Identifier expected."
  | .expressionExpected => "Expression expected."
  | .stringExpected => "String literal expected."
  | .declarationExpected => "Declaration or statement expected."
  | .variableExpected => "Variable declaration expected."
  | .caseExpected => "'case' or 'default' expected."
  | .handlerExpected => "'catch' or 'finally' expected."
  | .lineBreakBeforeArrow => "Line terminator not permitted before arrow."
  | .lineBreakAfterThrow => "Line break not permitted here."
  | .templateInOptionalChain =>
    "Tagged template expressions are not permitted in an optional chain."
  | .unclosedTemplate => "Unterminated template literal."
  | .nestedImport => "An import declaration can only be used at the top level of a module."
  | .nestedExport => "An export declaration can only be used at the top level of a module."
  | .tooDeep => "Maximum nesting depth exceeded."
  | .exhausted => "Module too long."

/-- A fault and the token it was found at. -/
structure Diagnostic where
  fault : SyntaxFault
  span : Span
  deriving DecidableEq, Repr, Inhabited

def Diagnostic.message (d : Diagnostic) : String := d.fault.message

-- ---------------------------------------------------------------------------
-- The state of a parser
-- ---------------------------------------------------------------------------

/-- How deeply phrases may be nested. -/
def maxDepth : Nat := 500

/-- Where a parser stands. -/
structure State where
  /-- The current token. -/
  token : Token
  /-- Where the last token that was taken stops. -/
  lastStop : Nat
  /-- How many phrases that count as nested are open. -/
  depth : Nat
  /-- Whether `in` is no operator here. -/
  noIn : Bool
  /-- The number of bytes of the text. -/
  size : Nat
  deriving Repr, Inhabited

/-- Before the first token of a text. -/
def State.initial (text : String) : State :=
  ⟨Token.initial text, 0, 0, false, text.utf8ByteSize⟩

/-- The fault to report at the current token: what the tokenizer found, if it
failed there. -/
def State.diagnostic (s : State) (fault : SyntaxFault) : Diagnostic :=
  match s.token.kind, s.token.fault with
  | .unknown, some f => ⟨.token f, s.token.span⟩
  | _, _ => ⟨fault, s.token.span⟩

/-- A bound on the number of tokens from the current one on. -/
def State.ahead (s : State) : Nat := s.size - s.token.start.offset

abbrev Parser := EStateM Diagnostic State

-- ---------------------------------------------------------------------------
-- The current token
-- ---------------------------------------------------------------------------

/-- Stops with a fault at the current token. -/
def fail (fault : SyntaxFault) : Parser α := fun s => .error (s.diagnostic fault) s

/-- Stops because the rounds that were given are used up, whatever the current token is. -/
def exhausted : Parser α := fun s => .error ⟨.exhausted, s.token.span⟩ s

/-- The current token. -/
def current : Parser Token := fun s => .ok s.token s

/-- The kind of the current token. -/
def kind : Parser TokenKind := fun s => .ok s.token.kind s

/-- Whether the current token is of a kind. -/
def isAt (k : TokenKind) : Parser Bool := fun s => .ok (s.token.kind = k) s

/-- The offset where the current token begins. -/
def position : Parser Nat := fun s => .ok s.token.start.offset s

/-- Whether a line terminator precedes the current token. -/
def afterLineBreak : Parser Bool := fun s => .ok s.token.afterLineBreak s

/-- Takes the current token. -/
def advance : Parser Unit := fun s =>
  .ok () { s with token := s.token.next, lastStop := s.token.stop.offset }

/-- Reads the current token anew. -/
def reread (f : Token → Token) : Parser Unit := fun s => .ok () { s with token := f s.token }

/-- Takes the current token if it is of a kind, and tells whether it was. -/
def accept (k : TokenKind) : Parser Bool := do
  if ← isAt k then
    advance
    return true
  else return false

/-- Takes a token of a kind, which has to be there. -/
def expect (k : TokenKind) : Parser Unit := do
  if !(← accept k) then fail (.expected k)

/-- Takes the end of a statement: a semicolon, or nothing where none is needed. -/
def endOfStatement : Parser Unit := do
  if ← accept (.punct .semicolon) then return
  if (← current).endsStatement then return
  fail (.expected (.punct .semicolon))

/-- A node from an offset to the last token taken. -/
def nodeFrom (start : Nat) (form : Form Node) : Parser Node := fun s =>
  .ok (.mk ⟨start, s.lastStop⟩ form) s

-- ---------------------------------------------------------------------------
-- Nesting and the `in` operator
-- ---------------------------------------------------------------------------

/-- A phrase that counts as one nesting. -/
def nested (p : Parser α) : Parser α := fun s =>
  if s.depth < maxDepth then
    match p { s with depth := s.depth + 1 } with
    | .ok a t => .ok a { t with depth := t.depth - 1 }
    | .error e t => .error e { t with depth := t.depth - 1 }
  else fail .tooDeep s

/-- A phrase in which `in` is an operator or is not. -/
def withIn (noIn : Bool) (p : Parser α) : Parser α := fun s =>
  match p { s with noIn := noIn } with
  | .ok a t => .ok a { t with noIn := s.noIn }
  | .error e t => .error e { t with noIn := s.noIn }

/-- A phrase in which `in` is an operator. -/
def allowIn (p : Parser α) : Parser α := withIn false p

-- ---------------------------------------------------------------------------
-- Names
-- ---------------------------------------------------------------------------

/-- The text of the current token, which is taken. -/
def takeValue : Parser String := do
  let t ← current
  advance
  return t.value

/-- Takes the name of a binding. -/
def bindingName : Parser String := do
  if (← current).isBindingName then takeValue else fail .identifierExpected

/-- Takes any word. -/
def anyName : Parser String := do
  if (← kind).isNameOrKeyword then takeValue else fail .identifierExpected

/-- Takes the name of a binding, as a node. -/
def identifier : Parser Node := do
  let start ← position
  let name ← bindingName
  nodeFrom start (.identifier name)

/-- Takes the text of a string literal. -/
def stringText : Parser String := do
  if ← isAt .string then takeValue else fail .stringExpected

/-- Takes the name of an export, which may be written as a string. -/
def exportName : Parser String := do
  if ← isAt .string then takeValue else anyName

-- ---------------------------------------------------------------------------
-- Lists
-- ---------------------------------------------------------------------------

/-- A bound on the rounds of a list: one per byte ahead, and one to stop. -/
def rounds : Parser Nat := fun s => .ok (s.ahead + 1) s

/-- Items up to a token that ends their list. -/
def many (ends : TokenKind → Bool) (item : Parser α) : Parser (List α) := do
  go (← rounds) []
where
  go : Nat → List α → Parser (List α)
    | 0, _ => exhausted
    | n + 1, acc => do
      if ends (← kind) then return acc.reverse
      go n ((← item) :: acc)

/-- An entry of a comma-separated list. -/
inductive Entry (α : Type) where
  /-- After the entry comes a comma or the end of the list. -/
  | plain (value : α)
  /-- The entry took its comma. -/
  | whole (value : α)
  /-- The list ends after the entry. -/
  | last (value : α)

/-- Comma-separated entries up to a closing token, which is not taken. A comma
may follow the last entry. -/
def listUntil (closing : Punctuator) (entry : Parser (Entry α)) : Parser (List α) := do
  go (← rounds) []
where
  go : Nat → List α → Parser (List α)
    | 0, _ => exhausted
    | n + 1, acc => do
      if ← isAt (.punct closing) then return acc.reverse
      match ← entry with
      | .plain a =>
        if !(← isAt (.punct closing)) then expect (.punct .comma)
        go n (a :: acc)
      | .whole a => go n (a :: acc)
      | .last a => return (a :: acc).reverse

/-- Items with commas between them, at least one. -/
def separated (item : Parser α) : Parser (List α) := do
  go (← rounds) [← item]
where
  go : Nat → List α → Parser (List α)
    | 0, _ => exhausted
    | n + 1, acc => do
      if ← accept (.punct .comma) then go n ((← item) :: acc) else return acc.reverse

-- ---------------------------------------------------------------------------
-- Phrases
-- ---------------------------------------------------------------------------

/-- The phrases through which the grammar refers back to itself. -/
inductive Phrase where
  | assignment
  | unary
  /-- Operands joined by operators that bind tighter than a precedence. -/
  | binary (above : Nat)
  /-- An expression that begins with `new`. -/
  | construction
  /-- Member accesses and calls. -/
  | leftHandSide
  | statement
  | bindingTarget
  deriving DecidableEq, Repr

/-- How each phrase is read. A rule of the grammar is written over such a
reading of the phrases inside it, which begin later than it does. -/
abbrev Reading := Phrase → Parser Node

end ModuleBundler.Grammar

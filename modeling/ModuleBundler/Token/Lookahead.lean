import ModuleBundler.Token.Scan

/-!
# ModuleBundler — looking ahead

What a token may be, and what it begins. Where the token itself does not tell,
the tokens after it do; tokens are read from tokens, so looking ahead changes
nothing.

The questions about a whole group in parentheses skip it without parsing: only
brackets and templates are counted.
-/

namespace ModuleBundler.Token

-- ---------------------------------------------------------------------------
-- The token itself
-- ---------------------------------------------------------------------------

/-- Whether a token may be the name of a binding. In modules `await` and `yield`
may not. -/
def isBindingName (t : Token) : Bool :=
  match t.kind with
  | .name => true
  | .word .awaitKw | .word .yieldKw => false
  | k => k.isContextual

/-- Whether a statement may end before a token without a semicolon. -/
def endsStatement (t : Token) : Bool :=
  t.kind = .punct .closeBrace || t.kind = .endOfFile || t.afterLineBreak

/-- Whether a property key may begin with a token. -/
def beginsKey (t : Token) : Bool :=
  t.kind.isNameOrKeyword || t.kind = .string || t.kind = .number || t.kind = .bigInt ||
    t.kind = .punct .openBracket || t.kind = .privateName

/-- Whether an expression may begin with a token. -/
def beginsExpression (t : Token) : Bool :=
  match t.kind with
  | .punct .closeParen | .punct .closeBracket | .punct .closeBrace | .punct .comma => false
  | .punct .semicolon | .punct .colon | .punct .arrow | .endOfFile => false
  | _ => true

-- ---------------------------------------------------------------------------
-- The token after it
-- ---------------------------------------------------------------------------

/-- Whether the next token is of a kind and on the same line. -/
def continuesWith (t : Token) (k : TokenKind) : Bool :=
  t.next.kind = k && !t.next.afterLineBreak

/-- Whether a word, `async`, begins a function. -/
def beginsAsyncFunction (t : Token) : Bool := t.continuesWith (.word .functionKw)

/-- Whether a word, `import`, begins a dynamic import or `import.meta`. -/
def beginsImportExpression (t : Token) : Bool :=
  t.next.kind = .punct .openParen || t.next.kind = .punct .dot

/-- Whether a word, `let`, begins a declaration. -/
def beginsLetDeclaration (t : Token) : Bool :=
  t.next.isBindingName || t.next.kind = .punct .openBracket || t.next.kind = .punct .openBrace

/-- Whether a name is a label. -/
def beginsLabel (t : Token) : Bool := t.next.kind = .punct .colon

/-- Whether a word, `async` or `static`, qualifies the member that follows. -/
def qualifiesMember (t : Token) : Bool :=
  !t.next.afterLineBreak && (t.next.beginsKey || t.next.kind = .punct .star)

/-- Whether a word, `get` or `set`, qualifies the property that follows. -/
def qualifiesAccessor (t : Token) : Bool := t.next.beginsKey

-- ---------------------------------------------------------------------------
-- Groups in parentheses
-- ---------------------------------------------------------------------------

/-- What closes a group that is open. -/
inductive Closer where
  | paren
  | bracket
  | brace
  /-- The end of a template, met at the brace that closes a substitution. -/
  | template
  deriving DecidableEq, Repr

/-- From an opening bracket on, the token that closes it, if the brackets on the
way match. At most the given number of tokens is looked at. -/
def skipGroup : Nat → List Closer → Token → Option Token
  | 0, _, _ => none
  | n + 1, groups, t =>
    match t.kind, groups with
    | .punct .openParen, _ => skipGroup n (.paren :: groups) t.next
    | .punct .openBracket, _ => skipGroup n (.bracket :: groups) t.next
    | .punct .openBrace, _ => skipGroup n (.brace :: groups) t.next
    | .templateHead, _ => skipGroup n (.template :: groups) t.next
    | .punct .closeParen, .paren :: outer =>
      if outer.isEmpty then some t else skipGroup n outer t.next
    | .punct .closeBracket, .bracket :: outer =>
      if outer.isEmpty then some t else skipGroup n outer t.next
    | .punct .closeBrace, .brace :: outer => skipGroup n outer t.next
    | .punct .closeBrace, .template :: outer =>
      match t.asTemplate.kind with
      | .templateMiddle => skipGroup n groups t.asTemplate.next
      | .templateTail => skipGroup n outer t.asTemplate.next
      | _ => none
    | .punct .closeParen, _ | .punct .closeBracket, _ | .punct .closeBrace, _ => none
    | .endOfFile, _ | .unknown, _ => none
    | _, _ => skipGroup n groups t.next

/-- Whether an arrow follows a group on the line of its end. -/
def isGroupBeforeArrow (t : Token) (bound : Nat) : Bool :=
  match skipGroup bound [] t with
  | some closing => closing.continuesWith (.punct .arrow)
  | none => false

/-- Whether an arrow function begins at a token: a name or a group in
parentheses, or one of them after `async`, with an arrow after it. The bound is
one on the tokens from this one on. -/
def beginsArrowFunction (t : Token) (bound : Nat) : Bool :=
  match t.kind with
  | .punct .openParen => t.isGroupBeforeArrow bound
  | .word .asyncKw =>
    let u := t.next
    if u.kind = .punct .arrow then !u.afterLineBreak
    else if u.afterLineBreak then false
    else if u.kind = .punct .openParen then u.isGroupBeforeArrow bound
    else u.isBindingName && u.continuesWith (.punct .arrow)
  | _ => t.isBindingName && t.continuesWith (.punct .arrow)

end ModuleBundler.Token

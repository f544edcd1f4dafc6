/-!
# ModuleBundler — kinds of tokens

A token is a piece of punctuation, a keyword, a name, a literal, or one of the
two markers `unknown` (the tokenizer failed there) and `endOfFile`.

Keywords come in two classes. Reserved words are never names; contextual
keywords are names wherever the grammar gives them no meaning of their own.

* `Punctuator.text`, `Keyword.text` — how each is written.
* `Keyword.ofText?` — the keyword a word spells, if it spells one.
* `TokenKind.display` — how a kind is named in a diagnostic.
-/

namespace ModuleBundler

-- ---------------------------------------------------------------------------
-- Punctuation
-- ---------------------------------------------------------------------------

/-- Brackets, separators and operators. The assignment operators come last. -/
inductive Punctuator where
  | openBrace | closeBrace | openParen | closeParen | openBracket | closeBracket | dot
  | ellipsis | semicolon | comma | questionDot | less | greater | lessEqual | greaterEqual
  | equal | notEqual | strictEqual | strictNotEqual | arrow | plus | minus | star | power
  | slash | percent | increment | decrement | shiftLeft | shiftRight | shiftRightZero
  | ampersand | bar | caret | bang | tilde | logicalAnd | logicalOr | question | colon | atSign
  | coalesce | assign | plusAssign | minusAssign | starAssign | powerAssign | slashAssign
  | percentAssign | shiftLeftAssign | shiftRightAssign | shiftRightZeroAssign | ampersandAssign
  | barAssign | caretAssign | andAssign | orAssign | coalesceAssign
  deriving DecidableEq, Repr, Inhabited

namespace Punctuator

/-- Every punctuator once. -/
def all : List Punctuator := [
    .openBrace, .closeBrace, .openParen, .closeParen, .openBracket, .closeBracket, .dot,
    .ellipsis, .semicolon, .comma, .questionDot, .less, .greater, .lessEqual, .greaterEqual,
    .equal, .notEqual, .strictEqual, .strictNotEqual, .arrow, .plus, .minus, .star, .power,
    .slash, .percent, .increment, .decrement, .shiftLeft, .shiftRight, .shiftRightZero,
    .ampersand, .bar, .caret, .bang, .tilde, .logicalAnd, .logicalOr, .question, .colon,
    .atSign, .coalesce, .assign, .plusAssign, .minusAssign, .starAssign, .powerAssign,
    .slashAssign, .percentAssign, .shiftLeftAssign, .shiftRightAssign, .shiftRightZeroAssign,
    .ampersandAssign, .barAssign, .caretAssign, .andAssign, .orAssign, .coalesceAssign]

/-- How a punctuator is written. -/
def text : Punctuator → String
  | .openBrace => "\x7b"
  | .closeBrace => "\x7d"
  | .openParen => "("
  | .closeParen => ")"
  | .openBracket => "["
  | .closeBracket => "]"
  | .dot => "."
  | .ellipsis => "..."
  | .semicolon => ";"
  | .comma => ","
  | .questionDot => "?."
  | .less => "<"
  | .greater => ">"
  | .lessEqual => "<="
  | .greaterEqual => ">="
  | .equal => "=="
  | .notEqual => "!="
  | .strictEqual => "==="
  | .strictNotEqual => "!=="
  | .arrow => "=>"
  | .plus => "+"
  | .minus => "-"
  | .star => "*"
  | .power => "**"
  | .slash => "/"
  | .percent => "%"
  | .increment => "++"
  | .decrement => "--"
  | .shiftLeft => "<<"
  | .shiftRight => ">>"
  | .shiftRightZero => ">>>"
  | .ampersand => "&"
  | .bar => "|"
  | .caret => "^"
  | .bang => "!"
  | .tilde => "~"
  | .logicalAnd => "&&"
  | .logicalOr => "||"
  | .question => "?"
  | .colon => ":"
  | .atSign => "@"
  | .coalesce => "??"
  | .assign => "="
  | .plusAssign => "+="
  | .minusAssign => "-="
  | .starAssign => "*="
  | .powerAssign => "**="
  | .slashAssign => "/="
  | .percentAssign => "%="
  | .shiftLeftAssign => "<<="
  | .shiftRightAssign => ">>="
  | .shiftRightZeroAssign => ">>>="
  | .ampersandAssign => "&="
  | .barAssign => "|="
  | .caretAssign => "^="
  | .andAssign => "&&="
  | .orAssign => "||="
  | .coalesceAssign => "??="

/-- The operators that store into their left operand. -/
def isAssignment : Punctuator → Bool
  | .assign | .plusAssign | .minusAssign | .starAssign | .powerAssign | .slashAssign
  | .percentAssign | .shiftLeftAssign | .shiftRightAssign | .shiftRightZeroAssign
  | .ampersandAssign | .barAssign | .caretAssign | .andAssign | .orAssign | .coalesceAssign => true
  | _ => false

end Punctuator

-- ---------------------------------------------------------------------------
-- Keywords
-- ---------------------------------------------------------------------------

/-- The reserved words, then the contextual keywords. -/
inductive Keyword where
  | breakKw | caseKw | catchKw | classKw | constKw | continueKw | debuggerKw | defaultKw
  | deleteKw | doKw | elseKw | enumKw | exportKw | extendsKw | falseKw | finallyKw | forKw
  | functionKw | ifKw | importKw | inKw | instanceOfKw | newKw | nullKw | returnKw | superKw
  | switchKw | thisKw | throwKw | trueKw | tryKw | typeofKw | varKw | voidKw | whileKw | withKw
  | asKw | asyncKw | awaitKw | fromKw | getKw | letKw | ofKw | setKw | staticKw | yieldKw
  deriving DecidableEq, Repr, Inhabited

namespace Keyword

/-- The words that can never be names. -/
def reserved : List Keyword := [
    .breakKw, .caseKw, .catchKw, .classKw, .constKw, .continueKw, .debuggerKw, .defaultKw,
    .deleteKw, .doKw, .elseKw, .enumKw, .exportKw, .extendsKw, .falseKw, .finallyKw, .forKw,
    .functionKw, .ifKw, .importKw, .inKw, .instanceOfKw, .newKw, .nullKw, .returnKw, .superKw,
    .switchKw, .thisKw, .throwKw, .trueKw, .tryKw, .typeofKw, .varKw, .voidKw, .whileKw,
    .withKw]

/-- The words that are names outside their own constructs. -/
def contextual : List Keyword := [
    .asKw, .asyncKw, .awaitKw, .fromKw, .getKw, .letKw, .ofKw, .setKw, .staticKw, .yieldKw]

/-- Every keyword once. -/
def all : List Keyword := reserved ++ contextual

/-- Whether the word is a name outside its own constructs. -/
def isContextual : Keyword → Bool
  | .asKw | .asyncKw | .awaitKw | .fromKw | .getKw | .letKw | .ofKw | .setKw | .staticKw
  | .yieldKw => true
  | _ => false

/-- How a keyword is written. -/
def text : Keyword → String
  | .breakKw => "break"
  | .caseKw => "case"
  | .catchKw => "catch"
  | .classKw => "class"
  | .constKw => "const"
  | .continueKw => "continue"
  | .debuggerKw => "debugger"
  | .defaultKw => "default"
  | .deleteKw => "delete"
  | .doKw => "do"
  | .elseKw => "else"
  | .enumKw => "enum"
  | .exportKw => "export"
  | .extendsKw => "extends"
  | .falseKw => "false"
  | .finallyKw => "finally"
  | .forKw => "for"
  | .functionKw => "function"
  | .ifKw => "if"
  | .importKw => "import"
  | .inKw => "in"
  | .instanceOfKw => "instanceof"
  | .newKw => "new"
  | .nullKw => "null"
  | .returnKw => "return"
  | .superKw => "super"
  | .switchKw => "switch"
  | .thisKw => "this"
  | .throwKw => "throw"
  | .trueKw => "true"
  | .tryKw => "try"
  | .typeofKw => "typeof"
  | .varKw => "var"
  | .voidKw => "void"
  | .whileKw => "while"
  | .withKw => "with"
  | .asKw => "as"
  | .asyncKw => "async"
  | .awaitKw => "await"
  | .fromKw => "from"
  | .getKw => "get"
  | .letKw => "let"
  | .ofKw => "of"
  | .setKw => "set"
  | .staticKw => "static"
  | .yieldKw => "yield"

/-- The keyword that a word spells. -/
def ofText? (word : String) : Option Keyword := all.find? (·.text == word)

end Keyword

-- ---------------------------------------------------------------------------
-- Token kinds
-- ---------------------------------------------------------------------------

/-- The kind of a token. A template without substitutions is one token
(`templateWhole`); one with substitutions is cut into a head, middles and a
tail. -/
inductive TokenKind where
  | unknown
  | endOfFile
  | number
  | bigInt
  | string
  | regex
  | templateWhole
  | templateHead
  | templateMiddle
  | templateTail
  | name
  | privateName
  | punct (p : Punctuator)
  | word (w : Keyword)
  deriving DecidableEq, Repr, Inhabited

namespace TokenKind

/-- Every kind once, in the order that numbers them. -/
def all : List TokenKind :=
  [.unknown, .endOfFile, .number, .bigInt, .string, .regex, .templateWhole, .templateHead,
    .templateMiddle, .templateTail, .name, .privateName] ++
    Punctuator.all.map .punct ++ Keyword.all.map .word

/-- The position of a kind in `all`. -/
def ordinal (k : TokenKind) : Nat := all.idxOf k

def isPunctuation : TokenKind → Bool
  | .punct _ => true
  | _ => false

def isKeyword : TokenKind → Bool
  | .word _ => true
  | _ => false

def isReserved : TokenKind → Bool
  | .word w => !w.isContextual
  | _ => false

def isContextual : TokenKind → Bool
  | .word w => w.isContextual
  | _ => false

/-- What may be written where the grammar asks for any word at all. -/
def isNameOrKeyword : TokenKind → Bool
  | .name => true
  | .word _ => true
  | _ => false

def isAssignment : TokenKind → Bool
  | .punct p => p.isAssignment
  | _ => false

/-- Literals, the pieces of templates included. -/
def isLiteral : TokenKind → Bool
  | .number | .bigInt | .string | .regex => true
  | .templateWhole | .templateHead | .templateMiddle | .templateTail => true
  | _ => false

/-- The kind of a word: a keyword if it spells one, and else a name. -/
def ofWord (text : String) : TokenKind :=
  match Keyword.ofText? text with
  | some w => .word w
  | none => .name

/-- How the kind is named in a diagnostic. -/
def display : TokenKind → String
  | .punct p => p.text
  | .word w => w.text
  | .endOfFile => "end of file"
  | .name => "identifier"
  | .privateName => "private identifier"
  | .number | .bigInt => "number"
  | .string => "string"
  | .regex => "regular expression"
  | .templateWhole | .templateHead | .templateMiddle | .templateTail => "template literal"
  | .unknown => "unknown token"

end TokenKind

end ModuleBundler

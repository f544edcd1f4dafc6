import ModuleBundler.Text.Span
import ModuleBundler.Token.Kind

/-!
# ModuleBundler — syntax trees

A node is a span of the text and a form. The form says what the node is and
holds its parts; it is written over an arbitrary type of parts, so that what is
said of the parts of a node is said once, for all forms.

Names that take no part in scoping (property keys, labels, specifiers, the
property after a dot) are plain text or a form of their own, so a node of the
form `identifier` is always a binding or a reference.

* `Form.children` — the parts of a node in source order, absent ones included.
* `Node.kids` — those that are there.
* `Node.sizeOf_kid_lt` — a kid is smaller than its node, which is why recursion
  over a tree ends.
-/

namespace ModuleBundler

open Text (Span)

-- ---------------------------------------------------------------------------
-- Parts that several forms share
-- ---------------------------------------------------------------------------

/-- The words that begin a variable declaration. -/
inductive VariableKind where
  | varDecl
  | letDecl
  | constDecl
  deriving DecidableEq, Repr, Inhabited

/-- Whether the declared names belong to the block around the declaration. -/
def VariableKind.isBlockScoped : VariableKind → Bool
  | .varDecl => false
  | .letDecl | .constDecl => true

/-- A literal: the written text of a number or regular expression, the denoted
text of a string. -/
inductive Literal where
  | number (raw : String)
  | string (value : String)
  | bigInt (raw : String)
  | regex (raw : String)
  | boolean (value : Bool)
  | null
  deriving DecidableEq, Repr, Inhabited

/-- The key of a property or class member. -/
inductive PropertyKey (α : Type) where
  | named (name : String)
  | privateName (name : String)
  | computed (expression : α)
  deriving Repr, Inhabited

/-- What kind of property an object literal or pattern lists. -/
inductive PropertyKind where
  | init
  | getter
  | setter
  | method
  deriving DecidableEq, Repr, Inhabited

/-- What kind of method a class has. -/
inductive MethodKind where
  | constructor
  | method
  | getter
  | setter
  deriving DecidableEq, Repr, Inhabited

/-- Function declarations, function expressions and methods. -/
structure FunctionParts (α : Type) where
  name : Option α
  params : List α
  body : α
  isAsync : Bool
  isGenerator : Bool
  deriving Repr

/-- Class declarations and class expressions. -/
structure ClassParts (α : Type) where
  name : Option α
  superClass : Option α
  members : List α
  deriving Repr

/-- One name of an import declaration. The imported name is `default` for a
default import and `*` for a whole module. -/
structure ImportSpecifier where
  imported : String
  localName : String
  span : Span
  deriving DecidableEq, Repr, Inhabited

/-- One name of an export list. -/
structure ExportSpecifier where
  localName : String
  exported : String
  span : Span
  deriving DecidableEq, Repr, Inhabited

-- ---------------------------------------------------------------------------
-- Forms
-- ---------------------------------------------------------------------------

/-- What a node is, over the type of its parts. -/
inductive Form (α : Type) where
  /-- A whole module. -/
  | program (body : List α)
  | variableDeclaration (kind : VariableKind) (declarators : List α)
  | variableDeclarator (target : α) (value : Option α)
  | functionDeclaration (parts : FunctionParts α)
  | classDeclaration (parts : ClassParts α)
  | expressionStatement (expression : α)
  | blockStatement (body : List α)
  | emptyStatement
  | debuggerStatement
  | ifStatement (test consequent : α) (alternate : Option α)
  | forStatement (first test update : Option α) (body : α)
  | forInStatement (left right body : α)
  | forOfStatement (left right body : α) (isAwait : Bool)
  | whileStatement (test body : α)
  | doWhileStatement (body test : α)
  | returnStatement (argument : Option α)
  | breakStatement (label : Option String)
  | continueStatement (label : Option String)
  | throwStatement (argument : α)
  | tryStatement (block : α) (handler finalizer : Option α)
  | catchClause (param : Option α) (body : α)
  | switchStatement (discriminant : α) (cases : List α)
  | switchCase (test : Option α) (consequent : List α)
  | labeledStatement (label : String) (body : α)
  | withStatement (object body : α)
  | importDeclaration (specifiers : List ImportSpecifier) (source : String)
  /-- An exported declaration, or an export list with or without a source. -/
  | exportNamed (declaration : Option α) (specifiers : List ExportSpecifier)
      (source : Option String)
  | exportDefault (declaration : α)
  | exportAll (exported : Option String) (source : String)
  /-- A binding or a reference. -/
  | identifier (name : String)
  /-- The name after a dot, which refers to no binding. -/
  | propertyName (name : String)
  | privateName (name : String)
  | literal (value : Literal)
  | templateLiteral (quasis : List String) (expressions : List α)
  | taggedTemplate (tag quasi : α)
  | thisExpression
  | superExpression
  /-- An array literal; an absent element is a hole. -/
  | arrayExpression (elements : List (Option α))
  | objectExpression (properties : List α)
  | property (key : PropertyKey α) (value : α) (kind : PropertyKind) (shorthand : Bool)
  | functionExpression (parts : FunctionParts α)
  | arrowFunction (params : List α) (body : α) (isAsync : Bool)
  | classExpression (parts : ClassParts α)
  | unaryExpression (operator : TokenKind) (argument : α)
  | updateExpression (operator : TokenKind) (isLeading : Bool) (argument : α)
  | binaryExpression (operator : TokenKind) (left right : α)
  | assignmentExpression (operator : TokenKind) (left right : α)
  | conditionalExpression (test consequent alternate : α)
  | callExpression (callee : α) (arguments : List α) (isOptional : Bool)
  | newExpression (callee : α) (arguments : List α)
  | memberExpression (object property : α) (isComputed isOptional : Bool)
  | sequenceExpression (expressions : List α)
  | parenthesizedExpression (expression : α)
  | spreadElement (argument : α)
  | yieldExpression (argument : Option α) (isDelegate : Bool)
  | awaitExpression (argument : α)
  | importExpression (source : α)
  | metaProperty (object property : String)
  | objectPattern (properties : List α)
  | arrayPattern (elements : List (Option α))
  | assignmentPattern (left right : α)
  | restElement (argument : α)
  | methodDefinition (key : PropertyKey α) (value : α) (kind : MethodKind) (isStatic : Bool)
  | propertyDefinition (key : PropertyKey α) (value : Option α) (isStatic : Bool)
  | staticBlock (body : List α)
  deriving Repr

/-- The expression of a computed key. -/
def PropertyKey.children : PropertyKey α → List (Option α)
  | .computed e => [some e]
  | _ => []

def FunctionParts.children (f : FunctionParts α) : List (Option α) :=
  f.name :: f.params.map some ++ [some f.body]

def ClassParts.children (c : ClassParts α) : List (Option α) :=
  c.name :: c.superClass :: c.members.map some

/-- The parts of a form in source order. Absent parts keep their places. -/
def Form.children : Form α → List (Option α)
  | program body | blockStatement body | staticBlock body => body.map some
  | variableDeclaration _ ds => ds.map some
  | variableDeclarator target value => [some target, value]
  | functionDeclaration f | functionExpression f => f.children
  | classDeclaration c | classExpression c => c.children
  | expressionStatement e | parenthesizedExpression e => [some e]
  | ifStatement t c a => [some t, some c, a]
  | conditionalExpression t c a => [some t, some c, some a]
  | forStatement i t u b => [i, t, u, some b]
  | forInStatement l r b | forOfStatement l r b _ => [some l, some r, some b]
  | whileStatement t b => [some t, some b]
  | doWhileStatement b t => [some b, some t]
  | returnStatement a | yieldExpression a _ => [a]
  | throwStatement a | unaryExpression _ a | updateExpression _ _ a | spreadElement a => [some a]
  | awaitExpression a | restElement a | importExpression a => [some a]
  | tryStatement b h f => [some b, h, f]
  | catchClause p b => [p, some b]
  | switchStatement d cs => some d :: cs.map some
  | switchCase t ss => t :: ss.map some
  | labeledStatement _ b => [some b]
  | withStatement o b => [some o, some b]
  | exportNamed d _ _ => [d]
  | exportDefault d => [some d]
  | templateLiteral _ es | sequenceExpression es => es.map some
  | taggedTemplate t q => [some t, some q]
  | arrayExpression es | arrayPattern es => es
  | objectExpression ps | objectPattern ps => ps.map some
  | property k v _ _ => k.children ++ [some v]
  | arrowFunction ps b _ => ps.map some ++ [some b]
  | binaryExpression _ l r | assignmentExpression _ l r | assignmentPattern l r =>
    [some l, some r]
  | callExpression c as _ | newExpression c as => some c :: as.map some
  | memberExpression o p _ _ => [some o, some p]
  | methodDefinition k v _ _ => k.children ++ [some v]
  | propertyDefinition k v _ => k.children ++ [v]
  | emptyStatement | debuggerStatement | breakStatement _ | continueStatement _ => []
  | importDeclaration _ _ | exportAll _ _ | identifier _ | propertyName _ | privateName _ => []
  | literal _ | thisExpression | superExpression | metaProperty _ _ => []

/-- What a form is called. -/
def Form.kindName : Form α → String
  | program _ => "Program"
  | variableDeclaration _ _ => "VariableDeclaration"
  | variableDeclarator _ _ => "VariableDeclarator"
  | functionDeclaration _ => "FunctionDeclaration"
  | classDeclaration _ => "ClassDeclaration"
  | expressionStatement _ => "ExpressionStatement"
  | blockStatement _ => "BlockStatement"
  | emptyStatement => "EmptyStatement"
  | debuggerStatement => "DebuggerStatement"
  | ifStatement _ _ _ => "IfStatement"
  | forStatement _ _ _ _ => "ForStatement"
  | forInStatement _ _ _ => "ForInStatement"
  | forOfStatement _ _ _ _ => "ForOfStatement"
  | whileStatement _ _ => "WhileStatement"
  | doWhileStatement _ _ => "DoWhileStatement"
  | returnStatement _ => "ReturnStatement"
  | breakStatement _ => "BreakStatement"
  | continueStatement _ => "ContinueStatement"
  | throwStatement _ => "ThrowStatement"
  | tryStatement _ _ _ => "TryStatement"
  | catchClause _ _ => "CatchClause"
  | switchStatement _ _ => "SwitchStatement"
  | switchCase _ _ => "SwitchCase"
  | labeledStatement _ _ => "LabeledStatement"
  | withStatement _ _ => "WithStatement"
  | importDeclaration _ _ => "ImportDeclaration"
  | exportNamed _ _ _ => "ExportNamedDeclaration"
  | exportDefault _ => "ExportDefaultDeclaration"
  | exportAll _ _ => "ExportAllDeclaration"
  | identifier _ | propertyName _ => "Identifier"
  | privateName _ => "PrivateName"
  | literal _ => "Literal"
  | templateLiteral _ _ => "TemplateLiteral"
  | taggedTemplate _ _ => "TaggedTemplateExpression"
  | thisExpression => "ThisExpression"
  | superExpression => "Super"
  | arrayExpression _ => "ArrayExpression"
  | objectExpression _ => "ObjectExpression"
  | property _ _ _ _ => "Property"
  | functionExpression _ => "FunctionExpression"
  | arrowFunction _ _ _ => "ArrowFunctionExpression"
  | classExpression _ => "ClassExpression"
  | unaryExpression _ _ => "UnaryExpression"
  | updateExpression _ _ _ => "UpdateExpression"
  | binaryExpression _ _ _ => "BinaryExpression"
  | assignmentExpression _ _ _ => "AssignmentExpression"
  | conditionalExpression _ _ _ => "ConditionalExpression"
  | callExpression _ _ _ => "CallExpression"
  | newExpression _ _ => "NewExpression"
  | memberExpression _ _ _ _ => "MemberExpression"
  | sequenceExpression _ => "SequenceExpression"
  | parenthesizedExpression _ => "ParenthesizedExpression"
  | spreadElement _ => "SpreadElement"
  | yieldExpression _ _ => "YieldExpression"
  | awaitExpression _ => "AwaitExpression"
  | importExpression _ => "ImportExpression"
  | metaProperty _ _ => "MetaProperty"
  | objectPattern _ => "ObjectPattern"
  | arrayPattern _ => "ArrayPattern"
  | assignmentPattern _ _ => "AssignmentPattern"
  | restElement _ => "RestElement"
  | methodDefinition _ _ _ _ => "MethodDefinition"
  | propertyDefinition _ _ _ => "PropertyDefinition"
  | staticBlock _ => "StaticBlock"

-- ---------------------------------------------------------------------------
-- Nodes
-- ---------------------------------------------------------------------------

/-- A node of a syntax tree: the part of the text it covers, and its form. -/
inductive Node where
  | mk (span : Span) (form : Form Node)

instance : Inhabited Node := ⟨.mk default .emptyStatement⟩

namespace Node

def span : Node → Span
  | mk s _ => s

def form : Node → Form Node
  | mk _ f => f

/-- The parts of a node that are there, in source order. -/
def kids (n : Node) : List Node := n.form.children.filterMap id

/-- The name of an identifier. -/
def identifierName? (n : Node) : Option String :=
  match n.form with
  | .identifier name => some name
  | _ => none

/-- A part of a function is smaller than the function. -/
theorem sizeOf_child_lt_function {f : FunctionParts Node} {c : Node}
    (h : some c ∈ f.children) : sizeOf c < sizeOf f := by
  have hl : ∀ l : List Node, c ∈ l → sizeOf c < sizeOf l := fun _ => List.sizeOf_lt_of_mem
  simp only [FunctionParts.children, List.cons_append, List.mem_cons, List.mem_append,
    List.mem_map, List.not_mem_nil, Option.some.injEq, exists_eq_right, or_false] at h
  cases f
  simp only [FunctionParts.mk.sizeOf_spec]
  grind

/-- A part of a class is smaller than the class. -/
theorem sizeOf_child_lt_class {f : ClassParts Node} {c : Node} (h : some c ∈ f.children) :
    sizeOf c < sizeOf f := by
  have hl : ∀ l : List Node, c ∈ l → sizeOf c < sizeOf l := fun _ => List.sizeOf_lt_of_mem
  simp only [ClassParts.children, List.mem_cons, List.mem_map, Option.some.injEq,
    exists_eq_right] at h
  cases f
  simp only [ClassParts.mk.sizeOf_spec]
  grind

/-- The expression of a computed key is smaller than the key. -/
theorem sizeOf_child_lt_key {k : PropertyKey Node} {c : Node} (h : some c ∈ k.children) :
    sizeOf c < sizeOf k := by
  cases k <;> simp_all [PropertyKey.children]

/-- A part of a form is smaller than the form. -/
theorem sizeOf_child_lt {f : Form Node} {c : Node} (h : some c ∈ f.children) :
    sizeOf c < sizeOf f := by
  have hl : ∀ l : List Node, c ∈ l → sizeOf c < sizeOf l := fun _ => List.sizeOf_lt_of_mem
  have ho : ∀ l : List (Option Node), some c ∈ l → sizeOf c < sizeOf l := by
    intro l hc
    have := List.sizeOf_lt_of_mem hc
    simp only [Option.some.sizeOf_spec] at this
    omega
  have hf := @sizeOf_child_lt_function (c := c)
  have hc := @sizeOf_child_lt_class (c := c)
  have hk := @sizeOf_child_lt_key (c := c)
  cases f
  all_goals
    simp only [Form.children, List.mem_cons, List.mem_append, List.mem_map, List.not_mem_nil,
      Option.some.injEq, exists_eq_right, or_false] at h
  all_goals
    simp
    grind

/-- A part of a node is smaller than the node. -/
theorem sizeOf_kid_lt {n c : Node} (h : c ∈ n.kids) : sizeOf c < sizeOf n := by
  obtain ⟨s, f⟩ := n
  simp only [kids, form, List.mem_filterMap, id_eq] at h
  obtain ⟨o, ho, rfl⟩ := h
  have := sizeOf_child_lt ho
  simp only [mk.sizeOf_spec]
  omega

end Node

end ModuleBundler

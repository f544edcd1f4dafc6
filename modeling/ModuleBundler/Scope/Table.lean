import ModuleBundler.Scope.NameSet

/-!
# ModuleBundler — tables of scopes

The scopes of a statement, numbered in the order in which they were opened. The
first one, number 0, is the root. Each other one knows its parent, and is either
a block scope or not. Names that are not declared for a block move up to the
nearest scope that is none.

Numbers are plain data: a table may be asked about scopes that it does not have,
and be given parents that do not exist yet. Chains of parents are followed for
as many links as there are scopes, which is all of a chain that ends.
-/

namespace ModuleBundler

/-- A scope: its parent, how far it is from the root, whether it is a block
scope, and the names bound in it. -/
structure Scope where
  parent : Option Nat
  depth : Nat
  isBlock : Bool
  names : NameSet
  deriving Inhabited

/-- A scope without names. -/
def Scope.bare (parent : Option Nat) (depth : Nat) (isBlock : Bool) : Scope :=
  ⟨parent, depth, isBlock, .empty⟩

/-- Whether a name is bound in a scope itself. -/
def Scope.hasOwn (s : Scope) (name : String) : Bool := s.names.contains name

/-- The scope that a table begins with. -/
def Scope.root : Scope := .bare none 0 false

/-- Scopes by number. -/
structure ScopeTable where
  scopes : Array Scope
  deriving Inhabited

namespace ScopeTable

/-- The number of the root scope. -/
def rootId : Nat := 0

/-- A table that holds a root scope only. -/
def initial : ScopeTable := ⟨#[.root]⟩

/-- The number of scopes. -/
def size (t : ScopeTable) : Nat := t.scopes.size

/-- The scope of a number, if there is one. -/
def get? (t : ScopeTable) (id : Nat) : Option Scope := t.scopes[id]?

/-- The root scope. -/
def root (t : ScopeTable) : Scope := (t.get? rootId).getD .root

/-- The parent of a scope. -/
def parent? (t : ScopeTable) (id : Nat) : Option Nat := (t.get? id).bind Scope.parent

/-- Opens a scope under a parent. Its number is the next one. -/
def push (t : ScopeTable) (parent : Nat) (isBlock : Bool) : ScopeTable :=
  let depth := (t.get? parent).elim 0 (·.depth + 1)
  ⟨t.scopes.push (.bare (some parent) depth isBlock)⟩

/-- The nearest scope from a number upward that is no block scope, after at most
the given number of links. -/
def nonBlockFrom (t : ScopeTable) : Nat → Nat → Nat
  | 0, id => id
  | n + 1, id =>
    match t.get? id with
    | some ⟨some parent, _, true, _⟩ => nonBlockFrom t n parent
    | _ => id

/-- The scope that a name lands in when it is declared in a scope. -/
def landing (t : ScopeTable) (id : Nat) (isBlockDeclaration : Bool) : Nat :=
  if isBlockDeclaration then id else t.nonBlockFrom t.size id

/-- Binds a name in a scope of the table. -/
def bind (t : ScopeTable) (id : Nat) (name : String) : ScopeTable :=
  ⟨t.scopes.modify id fun s => { s with names := s.names.insert name }⟩

/-- Declares a name in a scope: binds it where it lands. -/
def add (t : ScopeTable) (id : Nat) (name : String) (isBlockDeclaration : Bool) : ScopeTable :=
  t.bind (t.landing id isBlockDeclaration) name

/-- The nearest scope from a number upward that binds a name itself, after at
most the given number of scopes. -/
def findFrom (t : ScopeTable) (name : String) : Nat → Nat → Option Nat
  | 0, _ => none
  | n + 1, id =>
    match t.get? id with
    | none => none
    | some s => if s.hasOwn name then some id else s.parent.bind (findFrom t name n)

/-- The nearest scope from a number upward that binds a name itself. -/
def find? (t : ScopeTable) (id : Nat) (name : String) : Option Nat := t.findFrom name t.size id

/-- Whether a name is bound in a scope or around it. -/
def contains (t : ScopeTable) (id : Nat) (name : String) : Bool := (t.find? id name).isSome

end ScopeTable

end ModuleBundler

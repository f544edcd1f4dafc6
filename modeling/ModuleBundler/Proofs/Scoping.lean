import Mathlib.Data.List.Basic
import ModuleBundler.Module.Statement

/-!
# ModuleBundler — scoping as a matter of the tree

Which names of a statement are free can be said of its tree alone, without tables
of scopes and traversals: what is declared in a node lands in a scope around it,
and a scope makes its names visible in the kids of the node that opens it.

* `ScopingRules` — the points in which the analysis is simpler than ECMAScript.
* `Node.patternNames`, `Node.declared`, `Node.opening?` — the rules of single nodes, written
  out form by form; `declared_hoisting` and `opening?_hoisting` say that the analysis
  follows them.
* `Node.outward` — the declarations that leave a node.
* `Node.freeNames` — the names of identifiers that no scope within the node binds.
-/

namespace ModuleBundler

-- ---------------------------------------------------------------------------
-- Rules
-- ---------------------------------------------------------------------------

/-- The points in which rules of scoping may differ. -/
structure ScopingRules where
  /-- Functions and classes belong to the block they are declared in, and not to
  the function around it. -/
  blocksHoldFunctions : Bool
  /-- A static block of a class keeps what is declared with `var` in it. -/
  staticBlocksHoldVars : Bool
  /-- Parameters do not see what the body of their function declares. -/
  parametersApart : Bool
  /-- The discriminant of a switch does not see what the cases declare. -/
  discriminantApart : Bool
  deriving DecidableEq, Repr

namespace ScopingRules

/-- The rules of ECMAScript modules. -/
def ecmaScript : ScopingRules := ⟨true, true, true, true⟩

/-- The rules of the analysis. -/
def hoisting : ScopingRules := ⟨false, false, false, false⟩

end ScopingRules

/-- A declared name, and whether it is declared for the block around it. -/
structure DeclaredName where
  isBlockScoped : Bool
  name : String
  deriving DecidableEq, Repr

/-- Whether a scope keeps a declaration that reaches it: a block scope keeps those
for the block, another one all. -/
def ScopeOpening.keeps (o : ScopeOpening) (d : DeclaredName) : Bool :=
  !o.isBlock || d.isBlockScoped

namespace Node

variable (rules : ScopingRules)

-- ---------------------------------------------------------------------------
-- Single nodes
-- ---------------------------------------------------------------------------

/-- The names that a pattern binds, in source order: an identifier is one, and the
other patterns have them where they store something. Keys, defaults and members that
are stored into bind nothing. -/
def patternNames : Node → List String
  | mk _ (.identifier name) => [name]
  | mk _ (.objectPattern ps) => ps.flatMap patternNames
  | mk _ (.property _ value _ _) => value.patternNames
  | mk _ (.arrayPattern es) => es.flatMap fun e => e.attach.elim [] fun ⟨p, _⟩ => p.patternNames
  | mk _ (.assignmentPattern target _) => target.patternNames
  | mk _ (.restElement target) => target.patternNames
  | mk _ (.parenthesizedExpression target) => target.patternNames
  | _ => []
termination_by n => sizeOf n
decreasing_by
  all_goals try decreasing_tactic
  have := List.sizeOf_lt_of_mem ‹_ ∈ es›
  simp_all
  omega

/-- The name of a function or class, if it has one. -/
def nameGiven : Option Node → List String
  | some (mk _ (.identifier name)) => [name]
  | _ => []

/-- The names that a declarator declares. -/
def namesDeclared (n : Node) : List String :=
  match n.form with
  | .variableDeclarator target _ => target.patternNames
  | _ => []

/-- What a node declares in the scope around it. The names of functions and classes go
where the rules say, those of `let` and `const` belong to the block and those of `var`
do not. -/
def declared (n : Node) : List DeclaredName :=
  match n.form with
  | .functionDeclaration f => (nameGiven f.name).map (.mk rules.blocksHoldFunctions)
  | .classDeclaration c => (nameGiven c.name).map (.mk rules.blocksHoldFunctions)
  | .variableDeclaration .varDecl ds => (ds.flatMap namesDeclared).map (.mk false)
  | .variableDeclaration .letDecl ds => (ds.flatMap namesDeclared).map (.mk true)
  | .variableDeclaration .constDecl ds => (ds.flatMap namesDeclared).map (.mk true)
  | _ => []

/-- The scope that a node opens. Functions and arrows open one that is no block scope
and has their parameters in it, and for a function expression its own name too. Blocks,
static blocks, loops with a head, switches, handlers with their parameter, and class
expressions that have a name, with that name, open block scopes. -/
def opening? (n : Node) : Option ScopeOpening :=
  match n.form with
  | .functionDeclaration f => some ⟨false, f.params.flatMap patternNames⟩
  | .functionExpression f => some ⟨false, nameGiven f.name ++ f.params.flatMap patternNames⟩
  | .arrowFunction params _ _ => some ⟨false, params.flatMap patternNames⟩
  | .blockStatement _ => some ⟨true, []⟩
  | .staticBlock _ => some ⟨!rules.staticBlocksHoldVars, []⟩
  | .forStatement _ _ _ _ => some ⟨true, []⟩
  | .forInStatement _ _ _ => some ⟨true, []⟩
  | .forOfStatement _ _ _ _ => some ⟨true, []⟩
  | .switchStatement _ _ => some ⟨true, []⟩
  | .catchClause none _ => some ⟨true, []⟩
  | .catchClause (some param) _ => some ⟨true, param.patternNames⟩
  | .classExpression ⟨some (mk _ (.identifier name)), _, _⟩ => some ⟨true, [name]⟩
  | _ => none

/-- The kids of a node that do not see what is declared in the other ones. -/
def apart (n : Node) : List Node :=
  match n.form with
  | .functionDeclaration f | .functionExpression f =>
    if rules.parametersApart then f.name.toList ++ f.params else []
  | .arrowFunction params _ _ => if rules.parametersApart then params else []
  | .switchStatement discriminant _ => if rules.discriminantApart then [discriminant] else []
  | _ => []

/-- The other kids of a node. -/
def inside (n : Node) : List Node := n.kids.drop (n.apart rules).length

theorem filterMap_children_function (f : FunctionParts Node) :
    f.children.filterMap id = f.name.toList ++ f.params ++ [f.body] := by
  rw [FunctionParts.children, List.filterMap_append, List.filterMap_cons]
  cases f.name <;> simp

theorem apart_isPrefix (n : Node) : n.apart rules <+: n.kids := by
  obtain ⟨span, f⟩ := n
  have hcond : ∀ (b : Bool) {l m : List Node}, l <+: m → (if b then l else []) <+: m := by
    intro b l m h
    cases b
    · exact List.nil_prefix
    · exact h
  rw [apart]
  split <;> rename_i heq
  · obtain rfl : f = _ := heq
    exact hcond _ ⟨[_], (filterMap_children_function _).symm⟩
  · obtain rfl : f = _ := heq
    exact hcond _ ⟨[_], (filterMap_children_function _).symm⟩
  · rename_i params body _
    obtain rfl : f = _ := heq
    refine hcond _ ⟨[body], ?_⟩
    simp [kids, form, Form.children, List.filterMap_append]
  · rename_i discriminant cases
    obtain rfl : f = _ := heq
    refine hcond _ ⟨cases, ?_⟩
    simp [kids, form, Form.children]
  · exact List.nil_prefix

theorem apart_append_inside (n : Node) : n.apart rules ++ n.inside rules = n.kids :=
  List.prefix_iff_eq_append.1 (n.apart_isPrefix rules)

theorem mem_kids_of_mem_apart {n c : Node} (h : c ∈ n.apart rules) : c ∈ n.kids :=
  (n.apart_isPrefix rules).subset h

theorem mem_kids_of_mem_inside {n c : Node} (h : c ∈ n.inside rules) : c ∈ n.kids :=
  List.mem_of_mem_drop h

-- ---------------------------------------------------------------------------
-- Trees
-- ---------------------------------------------------------------------------

/-- The declarations that leave a node, in source order: its own, and those of its
kids that no scope of the node keeps. -/
def outward (n : Node) : List DeclaredName :=
  let inner := n.kids.attach.flatMap fun c => outward c.1
  n.declared rules ++
    match n.opening? rules with
    | none => inner
    | some o => inner.filter fun d => !o.keeps d
termination_by sizeOf n
decreasing_by exact sizeOf_kid_lt c.2

/-- The names that are bound in the scope that a node opens. -/
def scopeNames (n : Node) (o : ScopeOpening) : List String :=
  o.names ++ ((n.kids.flatMap (outward rules)).filter o.keeps).map DeclaredName.name

/-- The names of the identifiers in a node that no scope within the node binds, in
source order. -/
def freeNames (n : Node) : List String :=
  match n.form with
  | .identifier name => [name]
  | _ =>
    let first := (n.apart rules).attach.flatMap fun c => freeNames c.1
    let others := (n.inside rules).attach.flatMap fun c => freeNames c.1
    match n.opening? rules with
    | none => first ++ others
    | some o => first.filter (· ∉ o.names) ++ others.filter (· ∉ n.scopeNames rules o)
termination_by sizeOf n
decreasing_by
  · exact sizeOf_kid_lt (mem_kids_of_mem_apart rules c.2)
  · exact sizeOf_kid_lt (mem_kids_of_mem_inside rules c.2)

theorem flatMap_attach {α β : Type} (l : List α) (f : α → List β) :
    (l.attach.flatMap fun c => f c.1) = l.flatMap f := by
  rw [← List.flatMap_map, List.attach_map_subtype_val]

theorem outward_eq (n : Node) : n.outward rules = n.declared rules ++
    match n.opening? rules with
    | none => n.kids.flatMap (outward rules)
    | some o => (n.kids.flatMap (outward rules)).filter fun d => !o.keeps d := by
  rw [outward, flatMap_attach _ (outward rules)]

theorem form_eq_of_identifierName {n : Node} {name : String} (h : n.identifierName? = some name) :
    n.form = .identifier name := by
  unfold identifierName? at h
  split at h
  · rename_i heq
    rw [heq, Option.some.inj h]
  · cases h

theorem form_ne_of_identifierName {n : Node} (h : n.identifierName? = none) (name : String) :
    n.form ≠ .identifier name := by
  intro hform
  rw [identifierName?, hform] at h
  cases h

theorem freeNames_of_identifier {n : Node} {name : String} (h : n.identifierName? = some name) :
    n.freeNames rules = [name] := by
  rw [freeNames, form_eq_of_identifierName h]

theorem freeNames_eq {n : Node} (h : n.identifierName? = none) : n.freeNames rules =
    match n.opening? rules with
    | none => n.kids.flatMap (freeNames rules)
    | some o => ((n.apart rules).flatMap (freeNames rules)).filter (· ∉ o.names) ++
        ((n.inside rules).flatMap (freeNames rules)).filter (· ∉ n.scopeNames rules o) := by
  rw [freeNames]
  split
  · rename_i name hform
    exact absurd hform (form_ne_of_identifierName h name)
  · simp only [flatMap_attach _ (freeNames rules)]
    rw [← apart_append_inside rules n, List.flatMap_append]

-- ---------------------------------------------------------------------------
-- The rules of the analysis
-- ---------------------------------------------------------------------------

/-- A pattern that is no identifier binds what its parts bind. -/
theorem patternNames_eq_flatMap {n : Node} (h : n.identifierName? = none) :
    n.patternNames = n.targets.flatMap patternNames := by
  obtain ⟨span, f⟩ := n
  cases f with
  | identifier name => cases h
  | arrayPattern es =>
    show (mk span (.arrayPattern es)).patternNames = (es.filterMap id).flatMap patternNames
    rw [patternNames, List.filterMap_eq_flatMap_toList, List.flatMap_assoc]
    refine List.flatMap_congr fun e _ => ?_
    cases e with
    | none => rfl
    | some p => exact (List.flatMap_singleton patternNames p).symm
  | _ => simp [patternNames, targets, form]

theorem patternNames_eq_boundNames (n : Node) : n.patternNames = n.boundNames := by
  fun_induction boundNames n with
  | case1 n name h =>
    obtain ⟨span, f⟩ := n
    obtain rfl : f = .identifier name := form_eq_of_identifierName h
    rw [patternNames]
  | case2 n h ih =>
    rw [patternNames_eq_flatMap h, ← flatMap_attach]
    exact List.flatMap_congr fun c _ => ih c

theorem flatMap_patternNames (ps : List Node) : ps.flatMap patternNames = parameterNames ps :=
  List.flatMap_congr fun p _ => p.patternNames_eq_boundNames

theorem nameGiven_eq_ownName (name : Option Node) : nameGiven name = ownName name := by
  match name with
  | none => rfl
  | some (mk span f) => cases f <;> rfl

theorem flatMap_namesDeclared (ds : List Node) :
    ds.flatMap namesDeclared = ds.flatMap declaratorNames := by
  refine List.flatMap_congr fun d _ => ?_
  obtain ⟨span, f⟩ := d
  cases f with
  | variableDeclarator target value => exact target.patternNames_eq_boundNames
  | _ => rfl

/-- The analysis declares what the rules say. -/
theorem declared_hoisting (n : Node) : n.declared .hoisting =
    n.declares.names.map (.mk n.declares.isBlockScoped) := by
  obtain ⟨span, f⟩ := n
  cases f with
  | functionDeclaration f => exact congrArg (List.map _) (nameGiven_eq_ownName f.name)
  | classDeclaration c => exact congrArg (List.map _) (nameGiven_eq_ownName c.name)
  | variableDeclaration kind ds =>
    cases kind <;> exact congrArg (List.map _) (flatMap_namesDeclared ds)
  | _ => rfl

/-- The analysis opens the scopes that the rules say. -/
theorem opening?_hoisting (n : Node) : n.opening? .hoisting = n.opensScope? := by
  obtain ⟨span, f⟩ := n
  cases f with
  | functionDeclaration f => simp only [opening?, opensScope?, form, flatMap_patternNames]
  | functionExpression f =>
    simp only [opening?, opensScope?, form, flatMap_patternNames, nameGiven_eq_ownName]
  | arrowFunction params body isAsync =>
    simp only [opening?, opensScope?, form, flatMap_patternNames]
  | catchClause param body =>
    cases param with
    | none => rfl
    | some param =>
      simp only [opening?, opensScope?, form, patternNames_eq_boundNames, Option.elim_some]
  | classExpression c =>
    obtain ⟨name, superclass, members⟩ := c
    cases name with
    | none => rfl
    | some name =>
      obtain ⟨nameSpan, f⟩ := name
      cases f <;> rfl
  | _ => rfl

theorem apart_hoisting (n : Node) : n.apart .hoisting = [] := by
  rw [apart]
  split <;> rfl

theorem inside_hoisting (n : Node) : n.inside .hoisting = n.kids := by
  rw [inside, apart_hoisting]
  rfl

/-- The names of the identifiers in a statement that neither a scope within the
statement binds nor the statement itself. -/
def statementFreeNames (n : Node) : List String :=
  (n.freeNames rules).filter (· ∉ (n.outward rules).map DeclaredName.name)

end Node

end ModuleBundler

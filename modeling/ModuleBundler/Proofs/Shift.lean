import Mathlib.Data.List.Infix
import ModuleBundler.Proofs.PropertyNames
import ModuleBundler.Proofs.Traversal

/-!
# ModuleBundler — trees of a text that begins later

What is written in front of a text moves all offsets in its tree, and leaves the tree as it
is otherwise.

* `Node.shift` — a tree whose text begins later.
* `Node.shift_shift` — two shifts are one.
* `Node.toTarget_shift`, `Node.boundNames_shift` — patterns stay patterns and bind the same names.
-/

namespace ModuleBundler

-- ---------------------------------------------------------------------------
-- Spans, forms and trees
-- ---------------------------------------------------------------------------

/-- A span so many bytes later. -/
def Text.Span.shift (k : Nat) (s : Span) : Span := ⟨s.start + k, s.stop + k⟩

def ImportSpecifier.shift (k : Nat) (s : ImportSpecifier) : ImportSpecifier :=
  { s with span := s.span.shift k }

def ExportSpecifier.shift (k : Nat) (s : ExportSpecifier) : ExportSpecifier :=
  { s with span := s.span.shift k }

variable {α β γ : Type}

def PropertyKey.map (g : α → β) : PropertyKey α → PropertyKey β
  | .named name => .named name
  | .privateName name => .privateName name
  | .computed e => .computed (g e)

def FunctionParts.map (g : α → β) (f : FunctionParts α) : FunctionParts β :=
  ⟨f.name.map g, f.params.map g, g f.body, f.isAsync, f.isGenerator⟩

def ClassParts.map (g : α → β) (c : ClassParts α) : ClassParts β :=
  ⟨c.name.map g, c.superClass.map g, c.members.map g⟩

/-- A form with other parts, and with the spans that it holds itself so many bytes later. -/
def Form.shift (k : Nat) (g : α → β) : Form α → Form β
  | program body => program (body.map g)
  | variableDeclaration kind ds => variableDeclaration kind (ds.map g)
  | variableDeclarator target value => variableDeclarator (g target) (value.map g)
  | functionDeclaration f => functionDeclaration (f.map g)
  | classDeclaration c => classDeclaration (c.map g)
  | expressionStatement e => expressionStatement (g e)
  | blockStatement body => blockStatement (body.map g)
  | emptyStatement => emptyStatement
  | debuggerStatement => debuggerStatement
  | ifStatement t c a => ifStatement (g t) (g c) (a.map g)
  | forStatement i t u b => forStatement (i.map g) (t.map g) (u.map g) (g b)
  | forInStatement l r b => forInStatement (g l) (g r) (g b)
  | forOfStatement l r b isAwait => forOfStatement (g l) (g r) (g b) isAwait
  | whileStatement t b => whileStatement (g t) (g b)
  | doWhileStatement b t => doWhileStatement (g b) (g t)
  | returnStatement a => returnStatement (a.map g)
  | breakStatement label => breakStatement label
  | continueStatement label => continueStatement label
  | throwStatement a => throwStatement (g a)
  | tryStatement b h f => tryStatement (g b) (h.map g) (f.map g)
  | catchClause p b => catchClause (p.map g) (g b)
  | switchStatement d cs => switchStatement (g d) (cs.map g)
  | switchCase t ss => switchCase (t.map g) (ss.map g)
  | labeledStatement label b => labeledStatement label (g b)
  | withStatement o b => withStatement (g o) (g b)
  | importDeclaration specifiers source =>
    importDeclaration (specifiers.map (·.shift k)) source
  | exportNamed d specifiers source =>
    exportNamed (d.map g) (specifiers.map (·.shift k)) source
  | exportDefault d => exportDefault (g d)
  | exportAll exported source => exportAll exported source
  | identifier name => identifier name
  | propertyName name => propertyName name
  | privateName name => privateName name
  | literal value => literal value
  | templateLiteral quasis es => templateLiteral quasis (es.map g)
  | taggedTemplate t q => taggedTemplate (g t) (g q)
  | thisExpression => thisExpression
  | superExpression => superExpression
  | arrayExpression es => arrayExpression (es.map (·.map g))
  | objectExpression ps => objectExpression (ps.map g)
  | property key value kind shorthand => property (key.map g) (g value) kind shorthand
  | functionExpression f => functionExpression (f.map g)
  | arrowFunction ps b isAsync => arrowFunction (ps.map g) (g b) isAsync
  | classExpression c => classExpression (c.map g)
  | unaryExpression op a => unaryExpression op (g a)
  | updateExpression op isLeading a => updateExpression op isLeading (g a)
  | binaryExpression op l r => binaryExpression op (g l) (g r)
  | assignmentExpression op l r => assignmentExpression op (g l) (g r)
  | conditionalExpression t c a => conditionalExpression (g t) (g c) (g a)
  | callExpression c as isOptional => callExpression (g c) (as.map g) isOptional
  | newExpression c as => newExpression (g c) (as.map g)
  | memberExpression o p isComputed isOptional =>
    memberExpression (g o) (g p) isComputed isOptional
  | sequenceExpression es => sequenceExpression (es.map g)
  | parenthesizedExpression e => parenthesizedExpression (g e)
  | spreadElement a => spreadElement (g a)
  | yieldExpression a isDelegate => yieldExpression (a.map g) isDelegate
  | awaitExpression a => awaitExpression (g a)
  | importExpression source => importExpression (g source)
  | metaProperty object name => metaProperty object name
  | objectPattern ps => objectPattern (ps.map g)
  | arrayPattern es => arrayPattern (es.map (·.map g))
  | assignmentPattern l r => assignmentPattern (g l) (g r)
  | restElement a => restElement (g a)
  | methodDefinition key value kind isStatic =>
    methodDefinition (key.map g) (g value) kind isStatic
  | propertyDefinition key value isStatic =>
    propertyDefinition (key.map g) (value.map g) isStatic
  | staticBlock body => staticBlock (body.map g)

-- ---------------------------------------------------------------------------
-- Parts
-- ---------------------------------------------------------------------------

section Parts

variable (k l : Nat) (g : α → β) (h : β → γ)

theorem PropertyKey.map_map (key : PropertyKey α) :
    (key.map g).map h = key.map (h ∘ g) := by
  cases key <;> rfl

theorem FunctionParts.map_map (f : FunctionParts α) :
    (f.map g).map h = f.map (h ∘ g) := by
  simp [FunctionParts.map]

theorem ClassParts.map_map (c : ClassParts α) :
    (c.map g).map h = c.map (h ∘ g) := by
  simp [ClassParts.map]

theorem Text.Span.shift_shift (s : Span) : (s.shift k).shift l = s.shift (k + l) := by
  simp [shift, Nat.add_assoc]

theorem Form.shift_shift (f : Form α) :
    (f.shift k g).shift l h = f.shift (k + l) (h ∘ g) := by
  cases f <;> simp [Form.shift, PropertyKey.map_map, FunctionParts.map_map, ClassParts.map_map,
    ImportSpecifier.shift, ExportSpecifier.shift, Text.Span.shift_shift, Function.comp_def]

end Parts

section Congr

variable {g h : α → β}

theorem PropertyKey.map_congr {key : PropertyKey α}
    (hgh : ∀ c, some c ∈ key.children → g c = h c) : key.map g = key.map h := by
  cases key <;> simp_all [PropertyKey.map, PropertyKey.children]

theorem FunctionParts.map_congr {f : FunctionParts α}
    (hgh : ∀ c, some c ∈ f.children → g c = h c) : f.map g = f.map h := by
  have hname : f.name.map g = f.name.map h :=
    Option.map_congr fun c hc => hgh c (by simp [FunctionParts.children, hc])
  simp_all [FunctionParts.map, FunctionParts.children]

theorem ClassParts.map_congr {c : ClassParts α}
    (hgh : ∀ a, some a ∈ c.children → g a = h a) : c.map g = c.map h := by
  have hname : c.name.map g = c.name.map h :=
    Option.map_congr fun a ha => hgh a (by simp [ClassParts.children, ha])
  have hsuper : c.superClass.map g = c.superClass.map h :=
    Option.map_congr fun a ha => hgh a (by simp [ClassParts.children, ha])
  simp_all [ClassParts.map, ClassParts.children]

/-- What a form is shifted by matters on its parts only. -/
theorem Form.shift_congr (k : Nat) {f : Form α}
    (hgh : ∀ c, some c ∈ f.children → g c = h c) : f.shift k g = f.shift k h := by
  have hoption : ∀ o : Option α, (∀ c, o = some c → g c = h c) → o.map g = o.map h :=
    fun _ => Option.map_congr
  have hlist : ∀ l : List α, (∀ c ∈ l, g c = h c) → l.map g = l.map h :=
    fun _ => List.map_congr_left
  have hholes : ∀ l : List (Option α), (∀ c, some c ∈ l → g c = h c) →
      l.map (fun o => o.map g) = l.map fun o => o.map h :=
    fun l hl => List.map_congr_left fun o ho => hoption o fun c hc => hl c (hc ▸ ho)
  have hkey := @PropertyKey.map_congr α β g h
  have hfunction := @FunctionParts.map_congr α β g h
  have hclass := @ClassParts.map_congr α β g h
  cases f
  all_goals simp only [Form.shift, Form.children, List.mem_cons, List.mem_append, List.mem_map,
    List.not_mem_nil, Option.some.injEq, exists_eq_right, or_false] at hgh ⊢
  all_goals grind

end Congr

namespace Node

variable (k l : Nat)

/-- A tree whose text begins so many bytes later. -/
def shift (k : Nat) (n : Node) : Node :=
  .mk (n.span.shift k) (n.form.shift k fun c => if c.size < n.size then c.shift k else c)
termination_by n.size

theorem shift_eq (n : Node) : n.shift k = .mk (n.span.shift k) (n.form.shift k (shift k)) := by
  rw [shift]
  congr 1
  refine Form.shift_congr k fun c hc => if_pos (size_kid_lt ?_)
  exact List.mem_filterMap.2 ⟨_, hc, rfl⟩

@[simp] theorem shift_mk (span : Text.Span) (form : Form Node) :
    (mk span form).shift k = mk (span.shift k) (form.shift k (shift k)) :=
  shift_eq k _

@[simp] theorem span_shift (n : Node) : (n.shift k).span = n.span.shift k := by
  rw [shift_eq]
  rfl

theorem form_shift (n : Node) : (n.shift k).form = n.form.shift k (shift k) := by
  rw [shift_eq]
  rfl

theorem shift_shift (n : Node) : (n.shift k).shift l = n.shift (k + l) := by
  induction n using kids_induction with
  | h n ih =>
    rw [shift_eq k, shift_mk, shift_eq (k + l), Text.Span.shift_shift, Form.shift_shift]
    congr 1
    exact Form.shift_congr _ fun c hc => ih c (List.mem_filterMap.2 ⟨_, hc, rfl⟩)

-- ---------------------------------------------------------------------------
-- Patterns
-- ---------------------------------------------------------------------------

theorem toTarget_shift (n : Node) : (n.shift k).toTarget = n.toTarget.shift k := by
  fun_induction toTarget n with
  | case1 s ps ih => simp_all [Form.shift, toTarget]
  | case2 s es ih =>
    simp only [shift_mk, Form.shift, toTarget, List.map_map]
    refine congrArg _ (congrArg _ (List.map_congr_left fun e he => ?_))
    cases e with
    | none => rfl
    | some element => simp [ih _ he element rfl]
  | case3 s key value kind shorthand ih => simp_all [Form.shift, toTarget]
  | case4 s argument ih => simp_all [Form.shift, toTarget]
  | case5 s argument ih => simp_all [Form.shift, toTarget]
  | case6 s left right ih => simp_all [Form.shift, toTarget]
  | case7 n hobject harray hproperty hspread hrest hassign =>
    obtain ⟨span, form⟩ := n
    cases form
    case objectExpression => exact (hobject _ _ rfl).elim
    case arrayExpression => exact (harray _ _ rfl).elim
    case property => exact (hproperty _ _ _ _ _ rfl).elim
    case spreadElement => exact (hspread _ _ rfl).elim
    case restElement => exact (hrest _ _ rfl).elim
    case assignmentExpression op left right =>
      have hop : op ≠ .punct .assign := by
        rintro rfl
        exact hassign _ _ _ rfl
      rw [shift_mk, Form.shift]
      unfold toTarget
      split <;> simp_all
    all_goals
      clear hobject harray hproperty hspread hrest hassign
      simp only [shift_mk, Form.shift, toTarget]

theorem identifierName?_shift (n : Node) : (n.shift k).identifierName? = n.identifierName? := by
  unfold identifierName?
  rw [form_shift]
  cases n.form <;> rfl

theorem targets_shift (n : Node) : (n.shift k).targets = n.targets.map (shift k) := by
  unfold targets
  rw [form_shift]
  cases n.form <;> simp [Form.shift, List.filterMap_map, List.map_filterMap]

theorem boundNames_shift (n : Node) : (n.shift k).boundNames = n.boundNames := by
  induction n using kids_induction with
  | h n ih =>
    rw [boundNames, boundNames, identifierName?_shift]
    cases n.identifierName? with
    | some name => rfl
    | none =>
      have hflat : ∀ m : Node, (m.targets.attach.flatMap fun c => boundNames c.1) =
          m.targets.flatMap boundNames := fun m => by
        rw [← List.flatMap_map, List.attach_map_subtype_val]
      simp only [hflat, targets_shift, List.flatMap_map]
      exact List.flatMap_congr fun c hc => ih c (mem_kids_of_mem_targets hc)

end Node

end ModuleBundler

import ModuleBundler.Proofs.Depth

/-!
# ModuleBundler — what a tree says of its tokens

A tree accounts for a run of tokens if each of them is either a mark, such as a
bracket or a reserved word, or one of the words that the tree has in their order.
Bindings and references stand in the tree with the span of their token; keys,
labels and words like `async` with their text only.

One part of a text is in no tree: the second argument of a dynamic import is read
and dropped. The tokens of it are those of an expression, but its bindings and
references are lost.

* `Node.pieces` — what a node says of its tokens, in source order.
* `Spells` — a run of tokens, and what each is taken as, for a list of pieces.
* `Spells.names` — the names among the tokens are the identifiers of the tree.
* `Spells.toTarget` — a literal and the pattern it stands for have the same tokens.
-/

namespace ModuleBundler

open Text (Span)

-- ---------------------------------------------------------------------------
-- Tokens and their roles
-- ---------------------------------------------------------------------------

/-- What a token is taken as. -/
inductive Role where
  /-- A bracket, a reserved word, a piece of a template and the like. -/
  | mark
  /-- A binding or a reference. -/
  | name
  /-- A key, a label, a literal, a word like `async`, or a word of the clause of
  an import or export. -/
  | word
  /-- A binding or a reference in what is dropped. -/
  | lost
  deriving DecidableEq, Repr

/-- A token and what it is taken as. -/
structure Use where
  role : Role
  token : Token

/-- A token of what is dropped. -/
def Use.drop (u : Use) : Use := if u.role = .name then { u with role := .lost } else u

/-- Tokens that are neither names nor literals. -/
def TokenKind.isMark : TokenKind → Bool
  | .name | .string | .number | .bigInt | .unknown | .endOfFile => false
  | .word .awaitKw | .word .yieldKw => true
  | k => !k.isContextual

-- ---------------------------------------------------------------------------
-- Pieces
-- ---------------------------------------------------------------------------

/-- What a node says of some of its tokens. -/
inductive Piece where
  | node (n : Node)
  | name (span : Span) (value : String)
  | word (value : String)
  /-- The clause of an import or export, and the words in it. -/
  | clause (words : List String)
  /-- What is read and dropped. -/
  | dropped

/-- A word that stands there or not. -/
def wordIf (isThere : Bool) (value : String) : List Piece := if isThere then [.word value] else []

def Literal.pieces : Literal → List Piece
  | .string v | .number v | .bigInt v => [.word v]
  | _ => []

def PropertyKey.pieces : PropertyKey Node → List Piece
  | .named name => [.word name]
  | .privateName _ => []
  | .computed e => [.node e]

/-- The word before the key of an accessor. -/
def PropertyKind.pieces : PropertyKind → List Piece
  | .getter => [.word "get"]
  | .setter => [.word "set"]
  | _ => []

def MethodKind.pieces : MethodKind → List Piece
  | .getter => [.word "get"]
  | .setter => [.word "set"]
  | _ => []

/-- The parts of a function, after the word `async` and a key. -/
def FunctionParts.pieces (f : FunctionParts Node) : List Piece :=
  (f.children.filterMap id).map .node

/-- The words of a name of an import list. -/
def ImportSpecifier.words (s : ImportSpecifier) : List String := ["as", s.imported, s.localName]

/-- The words of a name of an export list. -/
def ExportSpecifier.words (s : ExportSpecifier) : List String := ["as", s.localName, s.exported]

namespace Node

/-- What a method says of its tokens from its key on. A word `async` stands before the key. -/
def methodPieces (key : PropertyKey Node) (n : Node) : List Piece :=
  match n.form with
  | .functionExpression f => wordIf f.isAsync "async" ++ key.pieces ++ f.pieces
  | _ => key.pieces ++ [.node n]

/-- What a node says of its tokens, in source order. -/
def pieces (n : Node) : List Piece :=
  match n.form with
  | .identifier v => [.name n.span v]
  | .propertyName v | .metaProperty _ v => [.word v]
  | .literal l => l.pieces
  | .breakStatement l | .continueStatement l => l.toList.map .word
  | .labeledStatement l b => [.word l, .node b]
  | .variableDeclaration .letDecl ds => .word "let" :: ds.map .node
  | .functionDeclaration f | .functionExpression f => wordIf f.isAsync "async" ++ f.pieces
  | .arrowFunction ps b isAsync => wordIf isAsync "async" ++ ps.map .node ++ [.node b]
  | .forOfStatement l r b _ => [.node l, .word "of", .node r, .node b]
  | .property (.named _) v _ true => [.node v]
  | .property k v .init _ => k.pieces ++ [.node v]
  | .property k v kind _ => kind.pieces ++ v.methodPieces k
  | .methodDefinition k v kind isStatic =>
    wordIf isStatic "static" ++ kind.pieces ++ v.methodPieces k
  | .propertyDefinition k v isStatic =>
    wordIf isStatic "static" ++ k.pieces ++ v.toList.map .node
  | .staticBlock b => .word "static" :: b.map .node
  | .importDeclaration specifiers source =>
    [.clause (specifiers.flatMap ImportSpecifier.words ++ ["from", source])]
  | .exportNamed none specifiers source =>
    [.clause (specifiers.flatMap ExportSpecifier.words ++ "from" :: source.toList)]
  | .exportAll exported source => [.clause ("as" :: exported.toList ++ ["from", source])]
  | .importExpression source => [.node source, .dropped]
  | _ => n.kids.map .node

end Node

/-- Tokens, and what they are taken as, for a list of pieces. -/
inductive Spells : List Piece → List Use → Prop
  | nil : Spells [] []
  /-- A mark may stand anywhere. -/
  | mark {t : Token} {ps : List Piece} {us : List Use} (hmark : t.kind.isMark = true)
      (rest : Spells ps us) : Spells ps (⟨.mark, t⟩ :: us)
  | name {t : Token} {ps : List Piece} {us : List Use} (hname : t.isBindingName = true)
      (rest : Spells ps us) : Spells (.name t.span t.value :: ps) (⟨.name, t⟩ :: us)
  | word {t : Token} {ps : List Piece} {us : List Use} (rest : Spells ps us) :
      Spells (.word t.value :: ps) (⟨.word, t⟩ :: us)
  | clause {words : List String} {ts : List Token} {ps : List Piece} {us : List Use}
      (hwords : ∀ t ∈ ts, t.kind.isMark = true ∨ t.value ∈ words) (rest : Spells ps us) :
      Spells (.clause words :: ps) (ts.map (⟨.word, ·⟩) ++ us)
  | node {n : Node} {ps : List Piece} {us : List Use} (rest : Spells (n.pieces ++ ps) us) :
      Spells (.node n :: ps) us
  /-- Nothing was dropped. -/
  | kept {ps : List Piece} {us : List Use} (rest : Spells ps us) : Spells (.dropped :: ps) us
  /-- An expression was dropped. -/
  | dropped {e : Node} {ps : List Piece} {vs us : List Use} (hlost : Spells [.node e] vs)
      (rest : Spells ps us) : Spells (.dropped :: ps) (vs.map Use.drop ++ us)

namespace Spells

variable {ps qs : List Piece} {us vs : List Use}

theorem append (h : Spells ps us) (h' : Spells qs vs) : Spells (ps ++ qs) (us ++ vs) := by
  induction h with
  | nil => exact h'
  | mark hmark _ ih => exact .mark hmark ih
  | name hname _ ih => exact .name hname ih
  | word _ ih => exact .word ih
  | clause hwords _ ih =>
    rw [List.append_assoc]
    exact .clause hwords ih
  | node _ ih => exact .node (by rwa [List.append_assoc] at ih)
  | kept _ ih => exact .kept ih
  | dropped hlost _ _ ih =>
    rw [List.append_assoc]
    exact .dropped hlost ih

end Spells

-- ---------------------------------------------------------------------------
-- Literals reread as patterns
-- ---------------------------------------------------------------------------

/-- A piece, and that of the same node or of the pattern it stands for. -/
inductive Rereads : Piece → Piece → Prop
  | same (p : Piece) : Rereads p p
  | node (n : Node) : Rereads (.node n) (.node n.toTarget)

theorem Rereads.forall_same (ps : List Piece) : List.Forall₂ Rereads ps ps :=
  List.forall₂_same.2 fun _ _ => .same _

namespace Node

theorem methodPieces_toTarget (key : PropertyKey Node) (n : Node) :
    List.Forall₂ Rereads (n.methodPieces key) (n.toTarget.methodPieces key) := by
  have hother : ∀ m : Node, (∀ f, m.form ≠ .functionExpression f) →
      m.methodPieces key = key.pieces ++ [.node m] := by
    intro m hm
    unfold methodPieces
    split
    · exact absurd ‹_› (hm _)
    · rfl
  by_cases hn : ∃ f, n.form = .functionExpression f
  · -- a function is not reread
    obtain ⟨f, hf⟩ := hn
    obtain ⟨s, form⟩ := n
    obtain rfl : form = .functionExpression f := hf
    have hsame : (mk s (.functionExpression f)).toTarget = mk s (.functionExpression f) := by
      unfold toTarget
      rfl
    rw [hsame]
    exact Rereads.forall_same _
  · have ht : ∀ f, n.toTarget.form ≠ .functionExpression f := by
      fun_cases toTarget n with
      | case7 => exact fun f hf => hn ⟨f, hf⟩
      | _ =>
        intro f hf
        cases hf
    rw [hother n fun f hf => hn ⟨f, hf⟩, hother n.toTarget ht]
    exact List.rel_append (Rereads.forall_same _) (.cons (.node _) .nil)

/-- The pattern that a literal stands for says the same of its tokens. -/
theorem pieces_toTarget (n : Node) : List.Forall₂ Rereads n.pieces n.toTarget.pieces := by
  have hkids : List.Forall₂ Rereads (n.kids.map Piece.node) (n.toTarget.kids.map Piece.node) := by
    refine List.forall₂_map_left_iff.2 (List.forall₂_map_right_iff.2 ?_)
    refine n.kids_toTarget.imp ?_
    rintro c t (rfl | rfl)
    · exact .same _
    · exact .node c
  fun_cases toTarget n with
  | case1 s ps =>
    unfold toTarget at hkids
    exact hkids
  | case2 s es =>
    unfold toTarget at hkids
    exact hkids
  | case3 s key value kind shorthand =>
    have hplain : List.Forall₂ Rereads (key.pieces ++ [.node value])
        (key.pieces ++ [.node value.toTarget]) :=
      List.rel_append (Rereads.forall_same _) (.cons (.node _) .nil)
    have hmethod : List.Forall₂ Rereads (kind.pieces ++ value.methodPieces key)
        (kind.pieces ++ value.toTarget.methodPieces key) :=
      List.rel_append (Rereads.forall_same _) (value.methodPieces_toTarget key)
    have hshort : List.Forall₂ Rereads [.node value] [.node value.toTarget] :=
      .cons (.node _) .nil
    cases key <;> cases kind <;> cases shorthand <;>
      first | exact hshort | exact hplain | exact hmethod
  | case4 s argument => exact .cons (.node _) .nil
  | case5 s argument => exact .cons (.node _) .nil
  | case6 s left right => exact .cons (.node _) (.cons (.same _) .nil)
  | case7 => exact Rereads.forall_same _

end Node

namespace Spells

variable {ps qs : List Piece} {us vs : List Use}

theorem reread (h : Spells ps us) (hps : List.Forall₂ Rereads ps qs) : Spells qs us := by
  induction h generalizing qs with
  | nil =>
    cases hps
    exact .nil
  | mark hmark _ ih => exact .mark hmark (ih hps)
  | name hname _ ih =>
    obtain ⟨q, qs, hq, hqs, rfl⟩ := List.forall₂_cons_left_iff.1 hps
    cases hq
    exact .name hname (ih hqs)
  | word _ ih =>
    obtain ⟨q, qs, hq, hqs, rfl⟩ := List.forall₂_cons_left_iff.1 hps
    cases hq
    exact .word (ih hqs)
  | clause hwords _ ih =>
    obtain ⟨q, qs, hq, hqs, rfl⟩ := List.forall₂_cons_left_iff.1 hps
    cases hq
    exact .clause hwords (ih hqs)
  | @node n _ _ _ ih =>
    obtain ⟨q, qs, hq, hqs, rfl⟩ := List.forall₂_cons_left_iff.1 hps
    cases hq with
    | same => exact .node (ih (List.rel_append (Rereads.forall_same _) hqs))
    | node => exact .node (ih (List.rel_append n.pieces_toTarget hqs))
  | kept _ ih =>
    obtain ⟨q, qs, hq, hqs, rfl⟩ := List.forall₂_cons_left_iff.1 hps
    cases hq
    exact .kept (ih hqs)
  | dropped hlost _ _ ih =>
    obtain ⟨q, qs, hq, hqs, rfl⟩ := List.forall₂_cons_left_iff.1 hps
    cases hq
    exact .dropped hlost (ih hqs)

/-- A literal and the pattern that it stands for have the same tokens. -/
theorem toTarget {n : Node} (h : Spells [.node n] us) : Spells [.node n.toTarget] us :=
  h.reread (.cons (.node n) .nil)

end Spells

-- ---------------------------------------------------------------------------
-- Names
-- ---------------------------------------------------------------------------

namespace Node

/-- The identifiers of a tree, in the order of a traversal. -/
def identifiers (n : Node) : List Node := n.preorder.filter (·.identifierName?.isSome)

theorem identifiers_eq (n : Node) : n.identifiers =
    (if n.identifierName?.isSome then [n] else []) ++ n.kids.flatMap identifiers := by
  have hkids : (n.kids.flatMap preorder).filter (·.identifierName?.isSome) =
      n.kids.flatMap identifiers := List.filter_flatMap
  unfold identifiers
  rw [preorder_eq, List.filter_cons]
  split
  · rw [hkids]
    rfl
  · exact hkids

end Node

/-- The identifiers that a piece tells of. -/
def Piece.identifiers : Piece → List Node
  | .node n => n.identifiers
  | .name span value => [.mk span (.identifier value)]
  | _ => []

@[simp] theorem flatMap_identifiers_nodes (l : List Node) :
    (l.map Piece.node).flatMap Piece.identifiers = l.flatMap Node.identifiers := by
  rw [List.flatMap_map]
  rfl

@[simp] theorem flatMap_identifiers_wordIf (isThere : Bool) (value : String) :
    (wordIf isThere value).flatMap Piece.identifiers = [] := by
  cases isThere <;> rfl

@[simp] theorem PropertyKey.flatMap_identifiers (key : PropertyKey Node) :
    key.pieces.flatMap Piece.identifiers =
      (key.children.filterMap id).flatMap Node.identifiers := by
  cases key <;> rfl

@[simp] theorem Literal.flatMap_identifiers (l : Literal) :
    l.pieces.flatMap Piece.identifiers = [] := by
  cases l <;> rfl

@[simp] theorem PropertyKind.flatMap_identifiers (kind : PropertyKind) :
    kind.pieces.flatMap Piece.identifiers = [] := by
  cases kind <;> rfl

@[simp] theorem MethodKind.flatMap_identifiers (kind : MethodKind) :
    kind.pieces.flatMap Piece.identifiers = [] := by
  cases kind <;> rfl

@[simp] theorem FunctionParts.flatMap_identifiers (f : FunctionParts Node) :
    f.pieces.flatMap Piece.identifiers =
      (f.children.filterMap id).flatMap Node.identifiers :=
  flatMap_identifiers_nodes _

@[simp] theorem flatMap_identifiers_words (l : List String) :
    (l.map Piece.word).flatMap Piece.identifiers = [] := by
  rw [List.flatMap_map]
  exact List.flatMap_eq_nil_iff.2 fun _ _ => rfl

namespace Node

theorem identifiers_methodPieces (key : PropertyKey Node) (n : Node) :
    (n.methodPieces key).flatMap Piece.identifiers =
      (key.children.filterMap id).flatMap identifiers ++ n.identifiers := by
  obtain ⟨s, form⟩ := n
  unfold methodPieces
  split
  · rename_i f hform
    obtain rfl : form = .functionExpression f := hform
    rw [identifiers_eq (mk s _)]
    simp [FunctionParts.pieces, flatMap_identifiers_nodes, identifierName?, kids, Node.form,
      Form.children]
  · simp [Piece.identifiers]

/-- What a node says of its tokens tells of the identifiers in it. -/
theorem identifiers_pieces (n : Node) : n.pieces.flatMap Piece.identifiers = n.identifiers := by
  rw [identifiers_eq]
  unfold pieces
  split
  case h_1 v hform =>
    obtain ⟨s, form⟩ := n
    obtain rfl : form = .identifier v := hform
    rfl
  case h_13 name v kind hform =>
    simp [identifierName?, kids, hform, Form.children, PropertyKey.children, Piece.identifiers]
  case h_17 key value isStatic hform =>
    cases value <;> simp [identifierName?, kids, hform, Form.children, Piece.identifiers]
  all_goals
    simp [identifierName?, kids, Form.children, Piece.identifiers, identifiers_methodPieces, *]

end Node

namespace Spells

variable {ps : List Piece} {us : List Use}

/-- The names among the tokens are the identifiers of the pieces, in their order. -/
theorem names (h : Spells ps us) :
    List.Forall₂ (fun n u => n.identifierName? = some u.token.value ∧ n.span = u.token.span)
      (ps.flatMap Piece.identifiers) (us.filter (·.role = .name)) := by
  induction h with
  | nil => exact .nil
  | mark _ _ ih => exact ih
  | name _ _ ih => exact .cons ⟨rfl, rfl⟩ ih
  | word _ ih => exact ih
  | @clause words ts _ _ _ _ ih =>
    have hnone : (ts.map (⟨.word, ·⟩ : Token → Use)).filter (·.role = .name) = [] := by
      refine List.filter_eq_nil_iff.2 fun u hu => ?_
      obtain ⟨t, -, rfl⟩ := List.mem_map.1 hu
      exact nofun
    rw [List.filter_append, hnone]
    exact ih
  | @node n _ _ _ ih =>
    rw [List.flatMap_append, n.identifiers_pieces] at ih
    exact ih
  | kept _ ih => exact ih
  | @dropped e _ vs _ _ _ _ ih =>
    have hnone : (vs.map Use.drop).filter (·.role = .name) = [] := by
      refine List.filter_eq_nil_iff.2 fun u hu => ?_
      obtain ⟨v, -, rfl⟩ := List.mem_map.1 hu
      unfold Use.drop
      split <;> simp_all
    rw [List.filter_append, hnone]
    exact ih

end Spells

end ModuleBundler

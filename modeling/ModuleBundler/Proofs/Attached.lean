import ModuleBundler.Proofs.Accounts

/-!
# ModuleBundler — the rules attach what they read

Each rule of the grammar attaches what it reads to the node it gives: the tokens it
takes are those of the node. The rules come in the order of the grammar. Two of them
take a token before it is known what it is: a key of an object literal or pattern that
turns out to be a name as well, and a literal that turns out to be a pattern.

* `Completes.rule` — from the phrases inside a rule to the rule.
* `Completes.read` — every phrase, however many rounds are given.
* `Completes.moduleItem` — the items of a module.
-/

namespace ModuleBundler

namespace Grammar

namespace Completes

section Words

variable {s : State}

-- ---------------------------------------------------------------------------
-- Tokens and names
-- ---------------------------------------------------------------------------

theorem endOfStatement : Completes s [] Grammar.endOfStatement fun _ => [] :=
  .accepting rfl (fun _ _ => .pure rfl) fun _ => .look <| .ite (fun _ => .pure rfl) fun _ => .fail

theorem bindingName : Completes s [] Grammar.bindingName fun v => [.word v] :=
  .look <| .ite (fun h => .takeValue (.of_isBindingName h)) fun _ => .fail

theorem anyName : Completes s [] Grammar.anyName fun v => [.word v] :=
  .look <| .ite (fun h => .takeValue (.of_kind _ h rfl rfl)) fun _ => .fail

/-- The name of a binding has the span of its token. -/
theorem identifier : Completes s [] Grammar.identifier fun n => [.node n] := by
  intro text c n t hs h
  obtain ⟨start, _, hpos, h⟩ := bind_ok h
  cases hpos
  obtain ⟨name, u, hname, h⟩ := bind_ok h
  cases h
  obtain ⟨_, _, hcur, hname⟩ := bind_ok hname
  cases hcur
  split at hname
  · rename_i hbinding
    cases hname
    have hnode : Completes s [] Grammar.advance fun _ =>
        [.node (.mk s.token.span (.identifier s.token.value))] :=
      .advance (.of_isBindingName hbinding) (.node (.name hbinding))
    exact hnode hs rfl
  · cases hname

theorem stringText : Completes s [] Grammar.stringText fun v => [.word v] :=
  .look <| .ite (fun h => .takeValue (.of_kind_eq (of_decide_eq_true h) rfl)) fun _ => .fail

theorem exportName : Completes s [] Grammar.exportName fun v => [.word v] :=
  .look <| .ite (fun h => .takeValue (.of_kind_eq (of_decide_eq_true h) rfl)) fun _ => .anyName

/-- A mark as a form without parts. -/
theorem word (hmark : s.token.kind.isMark = true) {form : Form Node}
    (hform : ∀ span, (Node.mk span form).pieces = []) :
    Completes s [] (Grammar.word form) fun n => [.node n] :=
  .look <| .skip (.advanceMark hmark) fun _ _ => .node fun _ => hform _

theorem literal (hs : s.token.Significant) {make : String → Literal}
    (hmake : ∀ v, (make v).pieces = [.word v]) :
    Completes s [] (Grammar.literal make) fun n => [.node n] :=
  .look <| .take (.takeValue hs) fun v _ => .node fun _ => hmake v

theorem sequence {operand : Parser Node}
    (hoperand : ∀ t, Completes t [] operand fun n => [.node n]) :
    Completes s [] (Grammar.sequence operand) fun n => [.node n] := by
  refine .look <| .take (.separatedNodes hoperand) fun es t => ?_
  split
  · exact .pure rfl
  · exact .node fun _ => nodes_map_some _

theorem optionalName (isRequired : Bool) :
    Completes s [] (Grammar.optionalName isRequired) fun o => o.toList.map .node :=
  .look <| .ite (fun _ => .take .identifier fun _ _ => .pure rfl) fun _ =>
    .ite (fun _ => .fail) fun _ => .pure rfl

theorem qualifier (word : Keyword) :
    Completes s [] (Grammar.qualifier word) fun isThere => wordIf isThere word.text := by
  refine .look <| .ite (fun h => ?_) fun _ => .pure rfl
  rw [Bool.and_eq_true, decide_eq_true_eq] at h
  exact .take (.advanceWord h.1) fun _ _ => .pure rfl

theorem accessorKind : Completes s [] Grammar.accessorKind PropertyKind.pieces := by
  refine .look <| .ite (fun h => ?_) fun _ => .ite (fun h => ?_) fun _ => .pure rfl
  · rw [Bool.and_eq_true, decide_eq_true_eq] at h
    exact .take (.advanceWord h.1) fun _ _ => .pure rfl
  · rw [Bool.and_eq_true, decide_eq_true_eq] at h
    exact .take (.advanceWord h.1) fun _ _ => .pure rfl

/-- What stands before a key. An accessor is not asynchronous. -/
theorem memberHead : Completes s [] Grammar.memberHead fun head =>
    head.kind.pieces ++ wordIf head.isAsync "async" := by
  refine .take (.qualifier _) fun isAsync _ => .skip (.accept rfl) fun isGenerator _ =>
    .ite (fun _ => .look (.pure rfl)) fun h => .take .accessorKind fun kind _ => .pure ?_
  obtain rfl : isAsync = false := by
    cases isAsync
    · rfl
    · exact absurd rfl h
  exact List.append_nil _

theorem memberName : Completes s [] Grammar.memberName fun n => [.node n] :=
  .look <| .look <| .ite (fun h => .word (Token.isMark_of_kind_eq h rfl) fun _ => rfl)
    fun _ => .take .anyName fun _ _ => .node fun _ => rfl

theorem metaProperty (start : Nat) (object property : String) :
    Completes s [] (Grammar.metaProperty start object property) fun n => [.node n] :=
  .take .anyName fun name _ => .ite (fun h => .node fun _ => by rw [h]; rfl) fun _ => .fail

end Words

section Operators

variable {k : TokenKind}

theorem isMark_of_isUnaryOperator (h : isUnaryOperator k = true) : k.isMark = true := by
  unfold isUnaryOperator at h
  split at h <;> first | rfl | cases h

theorem isMark_of_isUpdateOperator (h : isUpdateOperator k = true) : k.isMark = true := by
  unfold isUpdateOperator at h
  split at h <;> first | rfl | cases h

theorem isMark_of_isAssignment (h : k.isAssignment = true) : k.isMark = true := by
  unfold TokenKind.isAssignment at h
  split at h <;> first | rfl | cases h

/-- What binds two operands is a mark. -/
theorem isMark_of_precedence {above : Nat} (h : above < precedence k) : k.isMark = true := by
  unfold precedence at h
  split at h <;> first | rfl | exact absurd h (Nat.not_lt_zero _)

end Operators

section Rules

variable {s : State} {g : Reading} (hg : ∀ phrase t, Completes t [] (g phrase) fun n => [.node n])
include hg

-- ---------------------------------------------------------------------------
-- Keys, patterns and parameters
-- ---------------------------------------------------------------------------

theorem expression : Completes s [] (Grammar.expression g) fun n => [.node n] :=
  .sequence fun _ => hg _ _

theorem propertyKey : Completes s [] (Grammar.propertyKey g) PropertyKey.pieces := by
  refine .look ?_
  split
  · case _ hk => exact .take (.takeValue (.of_kind_eq hk rfl)) fun _ _ => .pure rfl
  · case _ hk => exact .take (.takeValue (.of_kind_eq hk rfl)) fun _ _ => .pure rfl
  · case _ hk => exact .take (.takeValue (.of_kind_eq hk rfl)) fun _ _ => .pure rfl
  · case _ hk =>
    exact .skip (.takeMark (Token.isMark_of_kind_eq hk rfl)) fun _ _ => .pure rfl
  · case _ hk =>
    exact .skip (.advanceMark (Token.isMark_of_kind_eq hk rfl)) fun _ _ =>
      .take (.allowIn (hg _ _)) fun _ _ => .skip (.expect rfl) fun _ _ => .pure rfl
  · exact .take .anyName fun _ _ => .pure rfl

omit hg in
/-- Where the name of a binding stands, a key is this token and nothing more. -/
theorem propertyKey_ok (hname : s.token.isBindingName = true) {key : PropertyKey Node} {t : State}
    (h : Grammar.propertyKey g s = .ok key t) :
    key = .named s.token.value ∧
      t = { s with token := s.token.next, lastStop := s.token.stop.offset } := by
  obtain ⟨k, _, hkind, h⟩ := bind_ok h
  cases hkind
  have hother : ∀ {k}, s.token.kind = k → k.isContextual = false → k ≠ .name → False := by
    rintro k rfl hk hne
    unfold Token.isBindingName at hname
    split at hname <;> simp_all
  generalize hk : s.token.kind = k at h
  split at h
  · exact (hother hk rfl nofun).elim
  · exact (hother hk rfl nofun).elim
  · exact (hother hk rfl nofun).elim
  · exact (hother hk rfl nofun).elim
  · exact (hother hk rfl nofun).elim
  · obtain ⟨v, u, hany, h⟩ := bind_ok h
    cases h
    obtain ⟨k, _, hkind, hany⟩ := bind_ok hany
    cases hkind
    split at hany
    · cases hany
      exact ⟨rfl, rfl⟩
    · cases hany

omit hg in
/-- The name of a binding as a key, taken as a name. -/
theorem shorthandKey (hname : s.token.isBindingName = true) :
    Completes s [] (Grammar.propertyKey g) fun _ =>
      [.node (.mk s.token.span (.identifier s.token.value))] := by
  intro text c key t hs h
  obtain ⟨-, rfl⟩ := propertyKey_ok hname h
  have htaken : Completes s [] Grammar.advance fun _ =>
      [.node (.mk s.token.span (.identifier s.token.value))] :=
    .advance (.of_isBindingName hname) (.node (.name hname))
  exact htaken hs rfl

/-- What follows a key. If the key is the name of a binding it may be taken as a name. -/
theorem keyed {β : Type} {pre : List Piece} {f : PropertyKey Node → Parser β}
    {Q : β → List Piece}
    (hf : ∀ key t, Completes t (pre ++ key.pieces) (f key) Q ∨ s.token.isBindingName = true ∧
      (key = .named s.token.value → t.lastStop = s.token.stop.offset →
        Completes t (pre ++ [.node (.mk s.token.span (.identifier s.token.value))]) (f key) Q)) :
    Completes s pre (Grammar.propertyKey g >>= f) Q := by
  by_cases hname : s.token.isBindingName = true
  · refine .either (propertyKey hg) (shorthandKey hname) fun key t hkey => ?_
    obtain ⟨rfl, rfl⟩ := propertyKey_ok hname hkey
    exact (hf _ _).imp_right fun h => h.2 rfl rfl
  · exact .take (propertyKey hg) fun key t => (hf key t).resolve_right fun h => hname h.1

omit hg in
theorem withDefault (start : Nat) (target : Node) {value : Parser Node}
    (hvalue : ∀ t, Completes t [] value fun n => [.node n]) :
    Completes s [.node target] (Grammar.withDefault start target value) fun n => [.node n] :=
  .accepting rfl (fun _ _ => .take (hvalue _) fun _ _ => .node fun _ => rfl) fun _ => .pure rfl

theorem bindingElement : Completes s [] (Grammar.bindingElement g) fun n => [.node n] :=
  .look <| .take (hg _ _) fun _ _ => .withDefault _ _ fun _ => .allowIn (hg _ _)

theorem restElement : Completes s [] (Grammar.restElement g) fun n => [.node n] :=
  .look <| .skip (.expect rfl) fun _ _ => .take (hg _ _) fun _ _ => .node fun _ => rfl

theorem patternProperty : Completes s [] (Grammar.patternProperty g) fun n => [.node n] := by
  refine .look <| .look <| keyed hg fun key t => ?_
  by_cases hcolon : t.token.kind = .punct .colon
  · refine .inl <| .accepting rfl (fun _ _ => ?_) fun h => absurd hcolon h
    exact .take (bindingElement hg) fun _ _ => .node fun _ => by cases key <;> rfl
  by_cases hname : s.token.isBindingName = true
  · refine .inr ⟨hname, fun hkey hstop => ?_⟩
    subst hkey
    refine .accepting rfl (fun h => absurd h hcolon) fun _ =>
      .ite (fun _ => .look ?_) fun _ => .fail
    rw [hstop]
    exact .bind (.withDefault _ _ fun _ => .allowIn (hg _ _)) fun _ _ => .node fun _ => rfl
  · exact .inl <| .accepting rfl (fun h => absurd h hcolon) fun _ =>
      .ite (fun h => absurd h hname) fun _ => .fail

theorem propertyEntry : Completes s [] (Grammar.propertyEntry g) fun e => [.node e.value] :=
  .look <| .ite (fun _ => .take (restElement hg) fun _ _ => .pure rfl)
    fun _ => .take (patternProperty hg) fun _ _ => .pure rfl

theorem objectPattern : Completes s [] (Grammar.objectPattern g) fun n => [.node n] :=
  .look <| .skip (.expect rfl) fun _ _ => .take (.nodesUntil fun _ => propertyEntry hg)
    fun _ _ => .skip (.expect rfl) fun _ _ => .node fun _ => nodes_map_some _

theorem elementEntry : Completes s [] (Grammar.elementEntry g) fun e =>
    e.value.toList.map .node :=
  .accepting rfl (fun _ _ => .pure rfl) fun _ =>
    .look <| .ite (fun _ => .take (restElement hg) fun _ _ => .pure rfl)
      fun _ => .take (bindingElement hg) fun _ _ => .pure rfl

theorem arrayPattern : Completes s [] (Grammar.arrayPattern g) fun n => [.node n] :=
  .look <| .skip (.expect rfl) fun _ _ => .take (.partsUntil fun _ => elementEntry hg)
    fun _ _ => .skip (.expect rfl) fun _ _ => .node fun _ => rfl

theorem bindingTarget : Completes s [] (Grammar.bindingTarget g) fun n => [.node n] := by
  refine .nested (.look ?_)
  split
  · exact objectPattern hg
  · exact arrayPattern hg
  · exact .identifier

theorem parameterEntry : Completes s [] (Grammar.parameterEntry g) fun e => [.node e.value] :=
  .look <| .ite (fun _ => .take (restElement hg) fun _ _ => .pure rfl)
    fun _ => .take (bindingElement hg) fun _ _ => .pure rfl

theorem parameters : Completes s [] (Grammar.parameters g) fun ps => ps.map .node :=
  .skip (.expect rfl) fun _ _ =>
    .take (.allowIn (.nodesUntil fun _ => parameterEntry hg)) fun _ _ =>
      .skip (.expect rfl) fun _ _ => .pure rfl

-- ---------------------------------------------------------------------------
-- Functions and classes
-- ---------------------------------------------------------------------------

theorem bracedStatement : Completes s [] (Grammar.bracedStatement g) fun n => [.node n] :=
  .look <| .ite (fun _ => .fail) fun _ => hg _ _

theorem bracedStatements : Completes s [] (Grammar.bracedStatements g) fun ns => ns.map .node :=
  .skip (.expect rfl) fun _ _ => .take (.manyNodes fun _ => bracedStatement hg) fun _ _ =>
    .skip (.expect rfl) fun _ _ => .pure rfl

theorem block : Completes s [] (Grammar.block g) fun n => [.node n] :=
  .look <| .take (bracedStatements hg) fun _ _ => .node fun _ => nodes_map_some _

theorem functionBody : Completes s [] (Grammar.functionBody g) fun n => [.node n] :=
  .nested (.allowIn (block hg))

/-- The word `async`, if any, is taken. -/
theorem functionParts (isAsync nameRequired : Bool) :
    Completes s (wordIf isAsync "async") (Grammar.functionParts g isAsync nameRequired) fun f =>
      wordIf f.isAsync "async" ++ f.pieces :=
  .skip (.expect rfl) fun _ _ => .skip (.accept rfl) fun _ _ =>
    .take (.optionalName _) fun name _ => .take (parameters hg) fun _ _ =>
      .take (functionBody hg) fun _ _ => .pure <| by
        cases name <;> simp [FunctionParts.pieces, FunctionParts.children]

theorem functionDeclaration (start : Nat) (isAsync nameRequired : Bool) :
    Completes s (wordIf isAsync "async")
      (Grammar.functionDeclaration g start isAsync nameRequired) fun n => [.node n] :=
  .bind (functionParts hg _ _) fun _ _ => .node fun _ => rfl

theorem functionExpression (start : Nat) (isAsync : Bool) :
    Completes s (wordIf isAsync "async") (Grammar.functionExpression g start isAsync)
      fun n => [.node n] :=
  .bind (functionParts hg _ _) fun _ _ => .node fun _ => rfl

/-- A method behind its key, which stands behind the word `async`, if any. -/
theorem methodFunction (before : List Piece) (key : PropertyKey Node) (isAsync isGenerator : Bool) :
    Completes s (before ++ wordIf isAsync "async" ++ key.pieces)
      (Grammar.methodFunction g isAsync isGenerator) fun n => before ++ n.methodPieces key :=
  .look <| .take (parameters hg) fun _ _ => .take (functionBody hg) fun _ _ => .done <| by
    simp [Node.methodPieces, Node.form, FunctionParts.pieces, FunctionParts.children]

omit hg in
theorem pieces_methodKind (head : MemberHead) (key : PropertyKey Node) (isStatic : Bool) :
    (methodKind head key isStatic).pieces = head.kind.pieces := by
  obtain ⟨isAsync, isGenerator, kind⟩ := head
  unfold methodKind
  dsimp only
  split
  · rfl
  · rfl
  · split <;> cases kind <;> first | rfl | contradiction
  · cases kind <;> first | rfl | contradiction

omit hg in
/-- Before the key of a field there is nothing. -/
theorem pieces_of_not_isMethod {head : MemberHead} (h : ¬head.isMethod = true) :
    head.kind.pieces ++ wordIf head.isAsync "async" = [] := by
  obtain ⟨isAsync, isGenerator, kind⟩ := head
  simp only [MemberHead.isMethod, Bool.or_eq_true, decide_eq_true_eq, not_or, Bool.not_eq_true,
    not_not] at h
  obtain ⟨⟨rfl, -⟩, rfl⟩ := h
  rfl

theorem methodOrField (start : Nat) (isStatic : Bool) :
    Completes s (wordIf isStatic "static") (Grammar.methodOrField g start isStatic)
      fun n => [.node n] := by
  refine .take .memberHead fun head t => .take (propertyKey hg) fun key t => ?_
  refine .look <| .ite (fun _ => ?_) fun _ => .ite (fun _ => .fail) fun hfield => ?_
  · rw [← List.append_assoc (wordIf isStatic "static")]
    refine .bind (methodFunction hg _ key _ _) fun value _ => .node fun _ => ?_
    rw [← pieces_methodKind head key isStatic]
    rfl
  · rw [pieces_of_not_isMethod hfield, List.append_nil]
    have hend : ∀ value t, Completes t
        (wordIf isStatic "static" ++ key.pieces ++ value.toList.map .node) (do
          Grammar.endOfStatement
          Grammar.nodeFrom start (.propertyDefinition key value isStatic)) fun n => [.node n] :=
      fun _ _ => .skip .endOfStatement fun _ _ => .node fun _ => rfl
    refine .accepting rfl (fun _ _ => ?_) fun _ => ?_
    · exact .take (.map (hg _ _) fun _ => rfl) hend
    · exact .take (.pure rfl) hend

theorem classMember : Completes s [] (Grammar.classMember g) fun n => [.node n] := by
  refine .look <| .look <| .ite (fun h => ?_) fun _ => ?_
  · rw [Bool.and_eq_true, decide_eq_true_eq] at h
    exact .take (.advanceWord h.1) fun _ _ =>
      .take (bracedStatements hg) fun _ _ => .node fun _ => rfl
  · exact .take (.qualifier _) fun isStatic _ => methodOrField hg _ isStatic

theorem bracedMember : Completes s [] (Grammar.bracedMember g) fun o => o.toList.map .node :=
  .accepting rfl (fun _ _ => .pure rfl) fun _ => .look <| .ite (fun _ => .fail) fun _ =>
    .take (classMember hg) fun _ _ => .pure rfl

theorem classBody : Completes s [] (Grammar.classBody g) fun ns => ns.map .node :=
  .skip (.expect rfl) fun _ _ => .take (.manyParts fun _ => bracedMember hg) fun _ _ =>
    .skip (.expect rfl) fun _ _ => .pure rfl

theorem classParts (nameRequired : Bool) :
    Completes s [] (Grammar.classParts g nameRequired) fun c =>
      (c.children.filterMap id).map .node := by
  refine .skip (.expect rfl) fun _ _ => .take (.optionalName _) fun name _ => ?_
  have hbody : ∀ (superClass : Option Node) t,
      Completes t (name.toList.map .node ++ superClass.toList.map .node) (do
        let members ← Grammar.nested (Grammar.allowIn (Grammar.classBody g))
        return (⟨name, superClass, members⟩ : ClassParts Node)) fun c =>
          (c.children.filterMap id).map .node :=
    fun superClass _ => .take (.nested (.allowIn (classBody hg))) fun _ _ => .pure <| by
      cases name <;> cases superClass <;> simp [ClassParts.children]
  refine .accepting rfl (fun _ _ => ?_) fun _ => ?_
  · exact .take (.map (hg _ _) fun _ => rfl) hbody
  · exact .take (.pure rfl) hbody

theorem classDeclaration (nameRequired : Bool) :
    Completes s [] (Grammar.classDeclaration g nameRequired) fun n => [.node n] :=
  .look <| .take (classParts hg _) fun _ _ => .node fun _ => rfl

theorem classExpression : Completes s [] (Grammar.classExpression g) fun n => [.node n] :=
  .look <| .take (classParts hg _) fun _ _ => .node fun _ => rfl

-- ---------------------------------------------------------------------------
-- Primary expressions
-- ---------------------------------------------------------------------------

omit hg in
/-- A slash is read anew as a regular expression. -/
theorem regex : Completes s [] Grammar.regex fun n => [.node n] := by
  intro text c n t hs h
  obtain ⟨_, s', hread, h⟩ := bind_ok h
  cases hread
  obtain ⟨isRegex, _, hat, h⟩ := bind_ok h
  cases hat
  split at h
  · rename_i hk
    have hmark := Token.isMark_of_kind_eq (of_decide_eq_true hk) rfl
    cases h
    refine ⟨_, _, .single hs.asRegex.token (Token.significant_of_isMark hmark), hs.asRegex.taken,
      fun us hus => hus.append (.node (.mark hmark))⟩
  · cases h

omit hg in
/-- The piece behind a substitution is read anew, and is a mark as well. -/
theorem pieceRound_ok {quasis : List String} {es : List Node} {r} {t : State}
    (h : Grammar.pieceRound quasis es s = .ok r t) :
    t = { s with token := s.token.asTemplate } ∧ t.token.kind.isMark = true ∧
      ((∃ quasis, r = .inl (quasis, es)) ∨ ∃ quasis, r = .inr (quasis, es.reverse)) := by
  obtain ⟨_, s', hread, h⟩ := bind_ok h
  cases hread
  obtain ⟨piece, _, hcur, h⟩ := bind_ok h
  cases hcur
  dsimp only at h
  generalize hk : s.token.asTemplate.kind = kind at h
  split at h
  · cases h
    exact ⟨rfl, Token.isMark_of_kind_eq hk rfl, .inl ⟨_, rfl⟩⟩
  · cases h
    exact ⟨rfl, Token.isMark_of_kind_eq hk rfl, .inr ⟨_, rfl⟩⟩
  · cases h

theorem substituted : Completes s [] (Grammar.substituted g) fun n => [.node n] :=
  .take (.allowIn (expression hg)) fun _ _ => .look <| .ite (fun _ => .fail) fun _ => .pure rfl

/-- The pieces of a template are marks. The last one is the current token behind all
substitutions. -/
theorem substitutions_ok {text : String} {c : Text.Cursor} {n : Nat}
    {x parts : List String × List Node} {t : State} (hs : s.Holds text c)
    (hmark : s.token.kind.isMark = true)
    (h : Grammar.loop (Grammar.substitutionRound g) n x s = .ok parts t) :
    ∃ d ts, Reads c ts d ∧ t.Holds text d ∧ t.token.kind.isMark = true ∧
      ∀ us, Spelt (x.2.reverse.map .node) us → Spelt (parts.2.map .node) (us ++ ts) := by
  induction n generalizing c s x with
  | zero => cases h
  | succ n ih =>
    obtain ⟨quasis, es⟩ := x
    obtain ⟨r, u, hround, h⟩ := bind_ok h
    obtain ⟨_, s₁, hadv, hround⟩ := bind_ok hround
    cases hadv
    obtain ⟨e, s₂, hexp, hround⟩ := bind_ok hround
    obtain ⟨d, ts, hreads, hstands, hspelt⟩ := substituted hg hs.taken hexp
    obtain ⟨rfl, hnext, hr⟩ := pieceRound_ok hround
    have hreads : Reads c (s.token :: ts) d :=
      .cons hs.token (Token.significant_of_isMark hmark) hreads
    have hmore : ∀ us, Spelt (es.reverse.map .node) us →
        Spelt ((e :: es).reverse.map .node) (us ++ s.token :: ts) := by
      intro us hus
      have h := (hus.append (.mark hmark)).append (hspelt [] .nil)
      simpa using h
    obtain ⟨quasis', rfl⟩ | ⟨quasis', rfl⟩ := hr
    · obtain ⟨d', ts', hreads', hholds, hlast, hrest⟩ := ih hstands.asTemplate hnext h
      refine ⟨d', _, hreads.append hreads', hholds, hlast, fun us hus => ?_⟩
      rw [← List.append_assoc]
      exact hrest _ (hmore us hus)
    · cases h
      exact ⟨d, _, hreads, hstands.asTemplate, hnext, hmore⟩

/-- A template takes its pieces, and what is substituted between them. -/
theorem templateLiteral (hmark : s.token.kind.isMark = true) :
    Completes s [] (Grammar.templateLiteral g) fun n => [.node n] := by
  intro text c n t hs h
  obtain ⟨start, _, hpos, h⟩ := bind_ok h
  cases hpos
  obtain ⟨first, _, hcur, h⟩ := bind_ok h
  cases hcur
  split at h
  · obtain ⟨bound, _, hrounds, h⟩ := bind_ok h
    cases hrounds
    obtain ⟨parts, u, hsub, h⟩ := bind_ok h
    rw [substitutions_eq] at hsub
    obtain ⟨d, ts, hreads, hholds, hlast, hspelt⟩ := substitutions_ok hg hs.holds hmark hsub
    cases h
    refine ⟨_, ts ++ [u.token],
      hreads.append (.single hholds.token (Token.significant_of_isMark hlast)), hholds.taken,
      fun us hus => hus.append (.node ?_)⟩
    have hpieces : Spelt (parts.2.map .node) (ts ++ [u.token]) := by
      have h := (hspelt [] .nil).append (.mark hlast)
      simpa using h
    simpa [Node.pieces, Node.form, Node.kids, Form.children] using hpieces
  · have hwhole : Completes s [] (do
        Grammar.advance
        Grammar.nodeFrom s.token.start.offset (.templateLiteral [s.token.value] []))
        fun n => [.node n] :=
      .skip (.advanceMark hmark) fun _ _ => .node fun _ => rfl
    exact hwhole hs h

-- ---------------------------------------------------------------------------
-- Groups
-- ---------------------------------------------------------------------------

theorem inParentheses : Completes s [] (Grammar.inParentheses g) fun n => [.node n] :=
  .skip (.expect rfl) fun _ _ => .take (.allowIn (expression hg)) fun _ _ =>
    .skip (.expect rfl) fun _ _ => .pure rfl

theorem parenthesized : Completes s [] (Grammar.parenthesized g) fun n => [.node n] :=
  .look <| .take (inParentheses hg) fun _ _ => .node fun _ => rfl

theorem spreadable : Completes s [] (Grammar.spreadable g) fun n => [.node n] :=
  .look <| .accepting rfl (fun _ _ => .take (hg _ _) fun _ _ => .node fun _ => rfl)
    fun _ => hg _ _

theorem literalEntry : Completes s [] (Grammar.literalEntry g) fun e =>
    e.value.toList.map .node :=
  .accepting rfl (fun _ _ => .pure rfl) fun _ =>
    .take (.allowIn (spreadable hg)) fun _ _ => .pure rfl

theorem arrayLiteral : Completes s [] (Grammar.arrayLiteral g) fun n => [.node n] :=
  .look <| .skip (.expect rfl) fun _ _ => .take (.partsUntil fun _ => literalEntry hg)
    fun _ _ => .skip (.expect rfl) fun _ _ => .node fun _ => rfl

theorem arguments : Completes s [] (Grammar.arguments g) fun ns => ns.map .node :=
  .skip (.expect rfl) fun _ _ =>
    .take (.nodesUntil fun _ => .map (.allowIn (spreadable hg)) fun _ => rfl) fun _ _ =>
      .skip (.expect rfl) fun _ _ => .pure rfl

theorem propertyAfter (start : Nat) (head : MemberHead) :
    Completes s (head.kind.pieces ++ wordIf head.isAsync "async")
      (Grammar.propertyAfter g start head) fun n => [.node n] := by
  refine .look <| .look <| keyed hg fun key t => ?_
  by_cases hshort : t.token.kind ≠ .punct .openParen ∧ t.token.kind ≠ .punct .colon ∧
      s.token.isBindingName = true
  · obtain ⟨hparen, hcolon, hname⟩ := hshort
    refine .inr ⟨hname, fun hkey hstop => ?_⟩
    subst hkey
    refine .look <| .ite (fun h => absurd (of_decide_eq_true h) hparen) fun _ =>
      .ite (fun _ => .fail) fun hfield => .accepting rfl (fun h => absurd h hcolon) fun _ =>
        .ite (fun _ => .look ?_) fun _ => .fail
    rw [pieces_of_not_isMethod hfield, List.nil_append, hstop]
    exact .bind (.withDefault _ _ fun _ => hg _ _) fun _ _ => .node fun _ => rfl
  · refine .inl <| .look <| .ite (fun _ => ?_) fun hparen => .ite (fun _ => .fail) fun hfield => ?_
    · refine .bind (methodFunction hg _ key _ _) fun value _ => .node fun _ => ?_
      obtain ⟨isAsync, isGenerator, kind⟩ := head
      cases kind <;> cases key <;> rfl
    · rw [pieces_of_not_isMethod hfield, List.nil_append]
      refine .accepting rfl (fun _ _ => ?_) fun hcolon => .ite (fun hname => ?_) fun _ => .fail
      · exact .take (hg _ _) fun _ _ => .node fun _ => by cases key <;> rfl
      · exact absurd ⟨fun h => hparen (decide_eq_true h), hcolon, hname⟩ hshort

theorem objectProperty : Completes s [] (Grammar.objectProperty g) fun n => [.node n] :=
  .look <| .accepting rfl (fun _ _ => .take (hg _ _) fun _ _ => .node fun _ => rfl)
    fun _ => .take .memberHead fun head _ => propertyAfter hg _ head

theorem objectLiteral : Completes s [] (Grammar.objectLiteral g) fun n => [.node n] :=
  .look <| .skip (.expect rfl) fun _ _ =>
    .take (.nodesUntil fun _ => .map (.allowIn (objectProperty hg)) fun _ => rfl) fun _ _ =>
      .skip (.expect rfl) fun _ _ => .node fun _ => nodes_map_some _

-- ---------------------------------------------------------------------------
-- Primary expressions
-- ---------------------------------------------------------------------------

theorem primary : Completes s [] (Grammar.primary g) fun n => [.node n] := by
  refine .look <| .look ?_
  split
  · case _ hk => exact .word (Token.isMark_of_kind_eq hk rfl) fun _ => rfl
  · case _ hk => exact .word (Token.isMark_of_kind_eq hk rfl) fun _ => rfl
  · case _ hk => exact .word (Token.isMark_of_kind_eq hk rfl) fun _ => rfl
  · case _ hk => exact .word (Token.isMark_of_kind_eq hk rfl) fun _ => rfl
  · case _ hk => exact .literal (.of_kind_eq hk rfl) fun _ => rfl
  · case _ hk => exact .literal (.of_kind_eq hk rfl) fun _ => rfl
  · case _ hk => exact .literal (.of_kind_eq hk rfl) fun _ => rfl
  · case _ hk => exact .word (Token.isMark_of_kind_eq hk rfl) fun _ => rfl
  · exact .regex
  · exact .regex
  · case _ hk => exact templateLiteral hg (Token.isMark_of_kind_eq hk rfl)
  · case _ hk => exact templateLiteral hg (Token.isMark_of_kind_eq hk rfl)
  · exact parenthesized hg
  · exact arrayLiteral hg
  · exact objectLiteral hg
  · exact functionExpression hg _ false
  · exact classExpression hg
  · case _ hk =>
    refine .ite (fun _ => ?_) fun _ => .identifier
    exact .take (.advanceWord hk) fun _ _ => functionExpression hg _ true
  · exact .ite (fun _ => .identifier) fun _ => .fail

-- ---------------------------------------------------------------------------
-- Expressions
-- ---------------------------------------------------------------------------

theorem computedMember : Completes s [] (Grammar.computedMember g) fun n => [.node n] :=
  .skip (.expect rfl) fun _ _ => .take (.allowIn (expression hg)) fun _ _ =>
    .skip (.expect rfl) fun _ _ => .pure rfl

theorem optionalAccess (start : Nat) (e : Node) :
    Completes s [.node e] (Grammar.optionalAccess g start e) fun n => [.node n] := by
  refine .look ?_
  split
  · exact .take (arguments hg) fun _ _ => .node fun _ => congrArg (_ :: ·) (nodes_map_some _)
  · exact .take (computedMember hg) fun _ _ => .node fun _ => rfl
  · exact .take .memberName fun _ _ => .node fun _ => rfl

/-- A round goes on from what is accessed to the access. -/
theorem accessRound (start : Nat) (calls : Bool) (x : Bool × Node) :
    Completes s [.node x.2] (Grammar.accessRound g start calls x)
      (Sum.elim (fun x => [.node x.2]) fun n => [.node n]) := by
  refine .look ?_
  split
  · case _ hk =>
    exact .skip (.advanceMark (Token.isMark_of_kind_eq hk rfl)) fun _ _ =>
      .take .memberName fun _ _ => .bind (.node fun _ => rfl) fun _ _ => .pure rfl
  · case _ hk =>
    refine .ite (fun _ => ?_) fun _ => .pure rfl
    exact .skip (.advanceMark (Token.isMark_of_kind_eq hk rfl)) fun _ _ =>
      .bind (optionalAccess hg _ _) fun _ _ => .pure rfl
  · exact .take (computedMember hg) fun _ _ => .bind (.node fun _ => rfl) fun _ _ => .pure rfl
  · case _ hk =>
    refine .ite (fun _ => .fail) fun _ => ?_
    exact .take (templateLiteral hg (Token.isMark_of_kind_eq hk rfl)) fun _ _ =>
      .bind (.node fun _ => rfl) fun _ _ => .pure rfl
  · case _ hk =>
    refine .ite (fun _ => .fail) fun _ => ?_
    exact .take (templateLiteral hg (Token.isMark_of_kind_eq hk rfl)) fun _ _ =>
      .bind (.node fun _ => rfl) fun _ _ => .pure rfl
  · refine .ite (fun _ => ?_) fun _ => .pure rfl
    exact .take (arguments hg) fun _ _ =>
      .bind (.node fun _ => congrArg (_ :: ·) (nodes_map_some _)) fun _ _ => .pure rfl
  · exact .pure rfl

theorem accesses (start : Nat) (calls : Bool) (n : Nat) (isOptional : Bool) (e : Node) :
    Completes s [.node e] (Grammar.accesses g start calls n isOptional e) fun n => [.node n] := by
  rw [accesses_eq]
  exact .loop (fun x _ => accessRound hg start calls x) n (isOptional, e)

theorem construction : Completes s [] (Grammar.construction g) fun n => [.node n] := by
  refine .look <| .skip (.expect rfl) fun _ _ =>
    .accepting rfl (fun _ _ => .metaProperty _ _ _) fun _ => .look <| .look ?_
  have hrest : ∀ calleeStart start (callee : Node) t, Completes t [.node callee] (do
      let callee ← Grammar.accesses g calleeStart false (← Grammar.rounds) false callee
      let values ← if ← Grammar.isAt (.punct .openParen) then Grammar.arguments g
        else Pure.pure []
      Grammar.nodeFrom start (.newExpression callee values)) fun n => [.node n] := by
    refine fun _ _ _ _ => .look <| .bind (accesses hg _ _ _ _ _) fun callee _ =>
      .look <| .ite (fun _ => ?_) fun _ => ?_
    · exact .take (arguments hg) fun _ _ => .node fun _ => congrArg (_ :: ·) (nodes_map_some _)
    · exact .look (.node fun _ => rfl)
  split
  · exact .take (hg _ _) (hrest _ _)
  · case _ hk => exact .take (.word (Token.isMark_of_kind_eq hk rfl) fun _ => rfl) (hrest _ _)
  · exact .take (primary hg) (hrest _ _)

/-- The second argument of an import is read and dropped. -/
theorem importExpression : Completes s [] (Grammar.importExpression g) fun n => [.node n] := by
  refine .look <| .skip (.expect rfl) fun _ _ =>
    .accepting rfl (fun _ _ => .metaProperty _ _ _) fun _ =>
      .skip (.expect rfl) fun _ _ => .take (.allowIn (hg _ _)) fun source _ => ?_
  have hend : ∀ start t, Completes t [.node source, .dropped] (do
      Grammar.expect (.punct .closeParen)
      Grammar.nodeFrom start (.importExpression source)) fun n => [.node n] :=
    fun _ _ => .skip (.expect rfl) fun _ _ => .node fun _ => rfl
  have hsingle : ∀ start t, Completes t [.node source] (do
      Grammar.expect (.punct .closeParen)
      Grammar.nodeFrom start (.importExpression source)) fun n => [.node n] := by
    refine fun start t => (hend start t).conv (fun us hus => ?_) fun _ _ h => h
    have h := hus.append .kept
    rwa [List.append_nil] at h
  have hdropped : ∀ t, Completes t [] (Grammar.allowIn (g .assignment)) fun _ => [.dropped] :=
    fun t => (Completes.allowIn (hg _ _)).conv (fun _ h => h) fun _ _ h => h.dropped
  refine .accepting rfl (fun _ _ => .look <| .ite (fun _ => ?_) fun _ => hsingle _ _)
    fun _ => hsingle _ _
  exact .take (hdropped _) fun _ _ => .skip (.accept rfl) fun _ _ => hend _ _

theorem leftHandSide : Completes s [] (Grammar.leftHandSide g) fun n => [.node n] := by
  refine .look <| .look ?_
  have hrest : ∀ start (e : Node) t, Completes t [.node e] (do
      Grammar.accesses g start true (← Grammar.rounds) false e) fun n => [.node n] :=
    fun _ _ _ => .look (accesses hg _ _ _ _ _)
  split
  · exact .take (construction hg) (hrest _)
  · case _ hk => exact .take (.word (Token.isMark_of_kind_eq hk rfl) fun _ => rfl) (hrest _)
  · exact .take (importExpression hg) (hrest _)
  · exact .take (primary hg) (hrest _)

theorem updated : Completes s [] (Grammar.updated g) fun n => [.node n] := by
  refine .look <| .take (leftHandSide hg) fun _ _ => .look <| .ite (fun h => ?_) fun _ => .pure rfl
  rw [Bool.and_eq_true] at h
  exact .skip (.advanceMark (isMark_of_isUpdateOperator h.1)) fun _ _ => .node fun _ => rfl

theorem unary : Completes s [] (Grammar.unary g) fun n => [.node n] := by
  refine .nested <| .look <| .look ?_
  have hoperand : ∀ {s : State} (form : Node → Form Node) start, s.token.kind.isMark = true →
      (∀ span e, (Node.mk span (form e)).pieces = [.node e]) →
      Completes s [] (do
        Grammar.advance
        Grammar.nodeFrom start (form (← g .unary))) fun n => [.node n] :=
    fun _ _ hmark hform => .skip (.advanceMark hmark) fun _ _ => .take (hg _ _) fun _ _ =>
      .node fun _ => hform _ _
  refine .ite (fun h => hoperand _ _ (isMark_of_isUnaryOperator h) fun _ _ => rfl) fun _ =>
    .ite (fun h => hoperand _ _ (isMark_of_isUpdateOperator h) fun _ _ => rfl) fun _ =>
      .ite (fun h => hoperand _ _ (Token.isMark_of_kind_eq h rfl) fun _ _ => rfl)
        fun _ => updated hg

/-- A round goes on from the left operand to the whole. -/
theorem operationRound (start above : Nat) (left : Node) :
    Completes s [.node left] (Grammar.operationRound g start above left)
      (Sum.elim (fun n => [.node n]) fun n => [.node n]) := by
  refine .look <| .look <| .ite (fun h => ?_) fun _ => .pure rfl
  rw [Bool.and_eq_true, decide_eq_true_eq] at h
  exact .skip (.advanceMark (isMark_of_precedence h.1)) fun _ _ => .take (hg _ _) fun _ _ =>
    .bind (.node fun _ => rfl) fun _ _ => .pure rfl

theorem binary (above : Nat) : Completes s [] (Grammar.binary g above) fun n => [.node n] := by
  refine .look <| .take (unary hg) fun left _ => .look ?_
  rw [operations_eq]
  exact .loop (fun x _ => operationRound hg _ above x) _ left

theorem conditional : Completes s [] (Grammar.conditional g) fun n => [.node n] :=
  .look <| .take (binary hg 0) fun _ _ =>
    .accepting rfl
      (fun _ _ => .take (.allowIn (hg _ _)) fun _ _ => .skip (.expect rfl) fun _ _ =>
        .take (hg _ _) fun _ _ => .node fun _ => rfl)
      fun _ => .pure rfl

theorem yieldExpression : Completes s [] (Grammar.yieldExpression g) fun n => [.node n] := by
  have hvalue : ∀ start delegates t, Completes t [] (do
      Grammar.nodeFrom start (.yieldExpression (some (← g .assignment)) delegates))
      fun n => [.node n] :=
    fun _ _ _ => .take (hg _ _) fun _ _ => .node fun _ => rfl
  exact .look <| .skip (.expect rfl) fun _ _ => .look <| .ite (fun _ => .node fun _ => rfl)
    fun _ => .accepting rfl (fun _ _ => hvalue _ _ _) fun _ => .look <|
      .ite (fun _ => hvalue _ _ _) fun _ => .node fun _ => rfl

theorem arrowBody : Completes s [] (Grammar.arrowBody g) fun n => [.node n] :=
  .look <| .ite (fun _ => functionBody hg) fun _ => hg _ _

theorem arrowEnd (start : Nat) (isAsync : Bool) (params : List Node) :
    Completes s (wordIf isAsync "async" ++ params.map .node)
      (Grammar.arrowEnd g start isAsync params) fun n => [.node n] :=
  .look <| .ite (fun _ => .fail) fun _ => .skip (.expect rfl) fun _ _ =>
    .take (arrowBody hg) fun _ _ => .node fun _ => rfl

theorem arrowParts (start : Nat) (isAsync : Bool) :
    Completes s (wordIf isAsync "async") (Grammar.arrowParts g start isAsync) fun n => [.node n] :=
  .look <| .ite (fun _ => .take (parameters hg) fun _ _ => arrowEnd hg _ _ _)
    fun _ => .take (.map .identifier fun _ => rfl) fun _ _ => arrowEnd hg _ _ _

theorem arrowFunction : Completes s [] (Grammar.arrowFunction g) fun n => [.node n] := by
  refine .look <| .look <| .ite (fun h => ?_) fun h => ?_
  · rw [h]
    rw [Bool.and_eq_true, decide_eq_true_eq] at h
    exact .take (.advanceWord h.1) fun _ _ => arrowParts hg _ true
  · rw [eq_false_of_ne_true h]
    exact arrowParts hg _ false

/-- What is assigned to has the same tokens as the literal that it was read as. -/
theorem assignment : Completes s [] (Grammar.assignment g) fun n => [.node n] := by
  refine .nested <| .look <| .ite (fun _ => yieldExpression hg) fun _ => .look <|
    .ite (fun _ => arrowFunction hg) fun _ => .look <| .take (conditional hg) fun left t =>
      .look <| .ite (fun h => ?_) fun _ => .pure rfl
  have htarget : ∀ us, Spelt [.node left] us →
      Spelt [.node (if t.token.kind = .punct .assign then left.toTarget else left)] us := by
    intro us hus
    split
    · exact hus.toTarget
    · exact hus
  refine Completes.conv (P := fun n => [.node n]) ?_ htarget fun _ _ h => h
  exact .skip (.advanceMark (isMark_of_isAssignment h)) fun _ _ => .take (hg _ _) fun _ _ =>
    .node fun _ => rfl

-- ---------------------------------------------------------------------------
-- Statements
-- ---------------------------------------------------------------------------

theorem declarator : Completes s [] (Grammar.declarator g) fun n => [.node n] :=
  .look <| .take (hg _ _) fun _ _ =>
    .accepting rfl (fun _ _ => .take (.map (hg _ _) fun _ => rfl) fun _ _ => .node fun _ => rfl)
      fun _ => .look (.node fun _ => rfl)

omit hg in
/-- Takes the word that begins a variable declaration. Only `let` is no mark. -/
theorem variableKind {kind : VariableKind} (h : variableKind? s.token.kind = some kind) :
    Completes s [] Grammar.advance fun _ => wordIf (kind = .letDecl) "let" := by
  unfold variableKind? at h
  split at h
  · case _ hk =>
    cases h
    exact .advanceMark (Token.isMark_of_kind_eq hk rfl)
  · case _ hk =>
    cases h
    exact .advanceWord hk
  · case _ hk =>
    cases h
    exact .advanceMark (Token.isMark_of_kind_eq hk rfl)
  · cases h

omit hg in
theorem pieces_variableDeclaration (span : Text.Span) (kind : VariableKind) (ds : List Node) :
    (Node.mk span (.variableDeclaration kind ds)).pieces =
      wordIf (kind = .letDecl) "let" ++ ds.map .node := by
  cases kind <;> simp [Node.pieces, Node.form, Node.kids, Form.children, wordIf]

omit hg in
theorem variableDeclaration_ok {n : Node} {t : State}
    (h : Grammar.variableDeclaration g s = .ok n t) :
    ∃ kind ds, n.form = .variableDeclaration kind ds := by
  obtain ⟨start, _, hpos, h⟩ := bind_ok h
  cases hpos
  obtain ⟨k, _, hkind, h⟩ := bind_ok h
  cases hkind
  generalize variableKind? s.token.kind = kind? at h
  split at h
  · cases h
  · obtain ⟨_, u, hadv, h⟩ := bind_ok h
    obtain ⟨ds, v, hds, h⟩ := bind_ok h
    cases h
    exact ⟨_, ds, rfl⟩

theorem variableDeclaration : Completes s [] (Grammar.variableDeclaration g) Node.pieces := by
  refine .look <| .look ?_
  split
  · exact .fail
  · case _ kind hk =>
    refine .take (.variableKind hk) fun _ _ => .take (.separatedNodes fun _ => declarator hg)
      fun ds _ => .done fun us hus => ?_
    rwa [pieces_variableDeclaration]

theorem variableStatement : Completes s [] (Grammar.variableStatement g) fun n => [.node n] := by
  refine .bindOk (.allowIn (variableDeclaration hg)) fun d t hd =>
    .skip .endOfStatement fun _ _ => .node fun _ => ?_
  obtain ⟨u, hd, -⟩ := withIn_ok hd
  obtain ⟨kind, ds, hform⟩ := variableDeclaration_ok hd
  obtain ⟨span, form⟩ := d
  obtain rfl : form = .variableDeclaration kind ds := hform
  rw [pieces_variableDeclaration]
  exact pieces_variableDeclaration _ kind ds

theorem expressionStatement :
    Completes s [] (Grammar.expressionStatement g) fun n => [.node n] :=
  .look <| .take (.allowIn (.sequence fun _ => assignment hg)) fun _ _ =>
    .skip .endOfStatement fun _ _ => .node fun _ => rfl

theorem ifStatement : Completes s [] (Grammar.ifStatement g) fun n => [.node n] :=
  .look <| .skip (.expect rfl) fun _ _ => .take (inParentheses hg) fun _ _ =>
    .take (hg _ _) fun _ _ =>
      .accepting rfl (fun _ _ => .take (.map (hg _ _) fun _ => rfl) fun _ _ => .node fun _ => rfl)
        fun _ => .look (.node fun _ => rfl)

theorem whileStatement : Completes s [] (Grammar.whileStatement g) fun n => [.node n] :=
  .look <| .skip (.expect rfl) fun _ _ => .take (inParentheses hg) fun _ _ =>
    .take (hg _ _) fun _ _ => .node fun _ => rfl

theorem doStatement : Completes s [] (Grammar.doStatement g) fun n => [.node n] :=
  .look <| .skip (.expect rfl) fun _ _ => .take (hg _ _) fun _ _ =>
    .skip (.expect rfl) fun _ _ => .take (inParentheses hg) fun _ _ =>
      .skip (.accept rfl) fun _ _ => .node fun _ => rfl

theorem forFirst : Completes s [] (Grammar.forFirst g) fun o => o.toList.map .node := by
  refine .look ?_
  have hdeclaration : ∀ t, Completes t []
      (some <$> Grammar.withIn true (Grammar.variableDeclaration g)) fun o => o.toList.map .node :=
    fun _ => .map ((Completes.withIn (variableDeclaration hg)).conv (fun _ h => h)
      fun _ _ h => h.node) fun _ => rfl
  have hexpression : ∀ t, Completes t [] (some <$> Grammar.withIn true (Grammar.expression g))
      fun o => o.toList.map .node :=
    fun _ => .map (.withIn (expression hg)) fun _ => rfl
  split
  · exact .pure rfl
  · exact hdeclaration _
  · exact hdeclaration _
  · exact .ite (fun _ => hdeclaration _) fun _ => hexpression _
  · exact hexpression _

theorem clauseBefore (ending : Punctuator) :
    Completes s [] (Grammar.clauseBefore g ending) fun o => o.toList.map .node := by
  have hend : ∀ (clause : Option Node) t, Completes t (clause.toList.map .node) (do
      Grammar.expect (.punct ending)
      return clause) fun o => o.toList.map .node :=
    fun _ _ => .skip (.expect rfl) fun _ _ => .pure rfl
  exact .look <| .ite (fun _ => .look (hend none _)) fun _ =>
    .take (.map (.allowIn (expression hg)) fun _ => rfl) hend

theorem forClauses (start : Nat) (first : Option Node) :
    Completes s (first.toList.map .node) (Grammar.forClauses g start first) fun n => [.node n] :=
  .skip (.expect rfl) fun _ _ => .take (clauseBefore hg _) fun test _ =>
    .take (clauseBefore hg _) fun update _ => .take (hg _ _) fun _ _ => .node fun _ => by
      cases first <;> cases test <;> cases update <;> rfl

theorem forOf (hof : s.token.kind = .word .ofKw) (start : Nat) (isAwait : Bool) (left : Node) :
    Completes s [.node left] (Grammar.forOf g start isAwait left) fun n => [.node n] := by
  refine Completes.conv (P := fun n => [.node n]) ?_ (fun _ h => h.toTarget) fun _ _ h => h
  exact .take (.advanceWord hof) fun _ _ => .take (.allowIn (hg _ _)) fun _ _ =>
    .skip (.expect rfl) fun _ _ => .take (hg _ _) fun _ _ => .node fun _ => rfl

theorem forIn (hmark : s.token.kind.isMark = true) (start : Nat) (left : Node) :
    Completes s [.node left] (Grammar.forIn g start left) fun n => [.node n] := by
  refine Completes.conv (P := fun n => [.node n]) ?_ (fun _ h => h.toTarget) fun _ _ h => h
  exact .skip (.advanceMark hmark) fun _ _ => .take (.allowIn (expression hg)) fun _ _ =>
    .skip (.expect rfl) fun _ _ => .take (hg _ _) fun _ _ => .node fun _ => rfl

theorem forStatement : Completes s [] (Grammar.forStatement g) fun n => [.node n] := by
  refine .look <| .skip (.expect rfl) fun _ _ => .skip (.accept rfl) fun isAwait _ =>
    .skip (.expect rfl) fun _ _ => .take (forFirst hg) fun first _ => .look ?_
  split
  · case _ hk => exact forOf hg hk _ _ _
  · case _ hk => exact forIn hg (Token.isMark_of_kind_eq hk rfl) _ _
  · exact forClauses hg _ _

theorem returnStatement : Completes s [] (Grammar.returnStatement g) fun n => [.node n] := by
  have hend : ∀ start (argument : Option Node) t, Completes t (argument.toList.map .node) (do
      Grammar.endOfStatement
      Grammar.nodeFrom start (.returnStatement argument)) fun n => [.node n] :=
    fun _ argument _ => .skip .endOfStatement fun _ _ => .node fun _ => by
      cases argument <;> rfl
  exact .look <| .skip (.expect rfl) fun _ _ => .look <|
    .ite (fun _ => .look (hend _ none _)) fun _ =>
      .take (.map (.allowIn (expression hg)) fun _ => rfl) (hend _)

omit hg in
theorem jumpStatement (hmark : s.token.kind.isMark = true) {make : Option String → Form Node}
    (hmake : ∀ span label, (Node.mk span (make label)).pieces = label.toList.map .word) :
    Completes s [] (Grammar.jumpStatement make) fun n => [.node n] := by
  have hend : ∀ start label t, Completes t (label.toList.map .word) (do
      Grammar.endOfStatement
      Grammar.nodeFrom start (make label)) fun n => [.node n] :=
    fun _ _ _ => .skip .endOfStatement fun _ _ => .node fun _ => hmake _ _
  refine .look <| .skip (.advanceMark hmark) fun _ _ => .look <| .ite (fun h => ?_) fun _ =>
    .look (hend _ none _)
  rw [Bool.and_eq_true] at h
  exact .take (.map (.takeValue (.of_isBindingName h.1)) fun _ => rfl) (hend _)

theorem throwStatement : Completes s [] (Grammar.throwStatement g) fun n => [.node n] := by
  have hvalue : ∀ start t, Completes t [] (do
      let argument ← Grammar.allowIn (Grammar.expression g)
      Grammar.endOfStatement
      Grammar.nodeFrom start (.throwStatement argument)) fun n => [.node n] :=
    fun _ _ => .take (.allowIn (expression hg)) fun _ _ => .skip .endOfStatement fun _ _ =>
      .node fun _ => rfl
  exact .look <| .skip (.expect rfl) fun _ _ => .look <|
    .ite (fun _ => .fail) fun _ => hvalue _ _

theorem catchClause (hmark : s.token.kind.isMark = true) :
    Completes s [] (Grammar.catchClause g) fun n => [.node n] := by
  have hbody : ∀ start (param : Option Node) t, Completes t (param.toList.map .node) (do
      let body ← Grammar.block g
      Grammar.nodeFrom start (.catchClause param body)) fun n => [.node n] :=
    fun _ param _ => .take (block hg) fun _ _ => .node fun _ => by cases param <;> rfl
  exact .look <| .skip (.advanceMark hmark) fun _ _ =>
    .accepting rfl
      (fun _ _ => .take (hg _ _) fun target _ => .skip (.expect rfl) fun _ _ =>
        .look (hbody _ (some target) _))
      fun _ => .look (hbody _ none _)

theorem tryStatement : Completes s [] (Grammar.tryStatement g) fun n => [.node n] := by
  have hend : ∀ start body (handler finalizer : Option Node) t,
      Completes t (.node body :: handler.toList.map .node ++ finalizer.toList.map .node) (do
        if handler.isNone && finalizer.isNone then Grammar.fail .handlerExpected
        Grammar.nodeFrom start (.tryStatement body handler finalizer)) fun n => [.node n] :=
    fun _ _ handler finalizer _ => .ite (fun _ => .fail) fun _ => .node fun _ => by
      cases handler <;> cases finalizer <;> rfl
  have hfinalizer : ∀ start body (handler : Option Node) t,
      Completes t (.node body :: handler.toList.map .node) (do
        let finalizer ← if ← Grammar.accept (.word .finallyKw) then some <$> Grammar.block g
          else Pure.pure none
        if handler.isNone && finalizer.isNone then Grammar.fail .handlerExpected
        Grammar.nodeFrom start (.tryStatement body handler finalizer)) fun n => [.node n] :=
    fun _ _ _ _ => .accepting rfl
      (fun _ _ => .take (.map (block hg) fun _ => rfl) (hend _ _ _))
      fun _ => .take (.pure rfl) (hend _ _ _)
  refine .look <| .skip (.expect rfl) fun _ _ => .take (block hg) fun body _ => .look <|
    .ite (fun h => ?_) fun _ => .look (hfinalizer _ _ none _)
  have hmark := Token.isMark_of_kind_eq (of_decide_eq_true h) rfl
  exact .take (.map (catchClause hg hmark) fun _ => rfl) (hfinalizer _ _)

theorem caseTest : Completes s [] (Grammar.caseTest g) fun o => o.toList.map .node := by
  refine .look ?_
  split
  · case _ hk =>
    exact .skip (.advanceMark (Token.isMark_of_kind_eq hk rfl)) fun _ _ =>
      .map (.allowIn (expression hg)) fun _ => rfl
  · case _ hk => exact .skip (.advanceMark (Token.isMark_of_kind_eq hk rfl)) fun _ _ => .pure rfl
  · exact .fail

theorem switchCase : Completes s [] (Grammar.switchCase g) fun n => [.node n] :=
  .look <| .take (caseTest hg) fun test _ => .skip (.expect rfl) fun _ _ =>
    .take (.manyNodes fun _ => hg _ _) fun _ _ => .node fun _ => by
      cases test <;> simp [Node.pieces, Node.form, Node.kids, Form.children]

theorem switchStatement : Completes s [] (Grammar.switchStatement g) fun n => [.node n] :=
  .look <| .skip (.expect rfl) fun _ _ => .take (inParentheses hg) fun _ _ =>
    .skip (.expect rfl) fun _ _ => .take (.manyNodes fun _ => switchCase hg) fun _ _ =>
      .skip (.expect rfl) fun _ _ => .node fun _ => congrArg (_ :: ·) (nodes_map_some _)

theorem withStatement : Completes s [] (Grammar.withStatement g) fun n => [.node n] :=
  .look <| .skip (.expect rfl) fun _ _ => .take (inParentheses hg) fun _ _ =>
    .take (hg _ _) fun _ _ => .node fun _ => rfl

theorem labeledStatement : Completes s [] (Grammar.labeledStatement g) fun n => [.node n] :=
  .look <| .take .bindingName fun _ _ => .skip (.expect rfl) fun _ _ =>
    .take (hg _ _) fun _ _ => .node fun _ => rfl

omit hg in
theorem debuggerStatement (hmark : s.token.kind.isMark = true) :
    Completes s [] Grammar.debuggerStatement fun n => [.node n] :=
  .look <| .skip (.advanceMark hmark) fun _ _ => .skip .endOfStatement fun _ _ =>
    .node fun _ => rfl

theorem otherStatement (t : Token) :
    Completes s [] (Grammar.otherStatement g t) fun n => [.node n] :=
  .ite (fun _ => labeledStatement hg) fun _ => expressionStatement hg

theorem statement : Completes s [] (Grammar.statement g) fun n => [.node n] := by
  refine .nested (.look ?_)
  split
  · exact block hg
  · case _ hk => exact .word (Token.isMark_of_kind_eq hk rfl) fun _ => rfl
  · exact variableStatement hg
  · exact variableStatement hg
  · exact .ite (fun _ => variableStatement hg) fun _ => otherStatement hg _
  · exact functionDeclaration hg _ false _
  · case _ hk =>
    refine .ite (fun _ => ?_) fun _ => otherStatement hg _
    exact .take (.advanceWord hk) fun _ _ => functionDeclaration hg _ true _
  · exact classDeclaration hg _
  · exact ifStatement hg
  · exact forStatement hg
  · exact whileStatement hg
  · exact doStatement hg
  · exact returnStatement hg
  · case _ hk => exact .jumpStatement (Token.isMark_of_kind_eq hk rfl) fun _ _ => rfl
  · case _ hk => exact .jumpStatement (Token.isMark_of_kind_eq hk rfl) fun _ _ => rfl
  · exact throwStatement hg
  · exact tryStatement hg
  · exact switchStatement hg
  · exact withStatement hg
  · case _ hk => exact .debuggerStatement (Token.isMark_of_kind_eq hk rfl)
  · exact .ite (fun _ => otherStatement hg _) fun _ => .fail
  · exact .fail
  · exact otherStatement hg _

-- ---------------------------------------------------------------------------
-- The grammar
-- ---------------------------------------------------------------------------

theorem rule (phrase : Phrase) : Completes s [] (Grammar.rule g phrase) fun n => [.node n] := by
  cases phrase with
  | assignment => exact assignment hg
  | unary => exact unary hg
  | binary above => exact binary hg above
  | construction => exact construction hg
  | leftHandSide => exact leftHandSide hg
  | statement => exact statement hg
  | bindingTarget => exact bindingTarget hg

omit hg in
/-- The induction over the grammar: each phrase is read by its rule, and the phrases
inside it with one round less. -/
theorem read (k : Nat) (phrase : Phrase) (s : State) :
    Completes s [] (Grammar.read k phrase) fun n => [.node n] := by
  induction k generalizing phrase s with
  | zero => exact .exhausted
  | succ k ih => exact rule ih phrase

-- ---------------------------------------------------------------------------
-- Imports, exports and modules
-- ---------------------------------------------------------------------------

omit hg

theorem fromClause :
    Completes s [] Grammar.fromClause fun source => [.word "from", .word source] :=
  .take .expectWord fun _ _ => .take .stringText fun _ _ =>
    .skip .endOfStatement fun _ _ => .pure rfl

theorem importSpecifier :
    Completes s [] Grammar.importSpecifier fun specifier => [.clause specifier.words] :=
  .look <| .look <| .take .exportName fun _ _ =>
    .acceptingWord
      (fun _ => .take .bindingName fun _ _ => .done fun _ h => h.clause <| by
        simp [Piece.Among, ImportSpecifier.words, Keyword.text])
      (.ite (fun _ => .done fun _ h => h.clause (by simp [Piece.Among, ImportSpecifier.words]))
        fun _ => .fail)

theorem namedImports : Completes s [] Grammar.namedImports fun specifiers =>
    [.clause (specifiers.flatMap ImportSpecifier.words)] :=
  .skip (.expect rfl) fun _ _ =>
    .take (.clausesUntil ImportSpecifier.words fun _ => .map .importSpecifier fun _ => rfl)
      fun _ _ => .skip (.expect rfl) fun _ _ => .pure rfl

theorem namespaceImport (hmark : s.token.kind.isMark = true) :
    Completes s [] Grammar.namespaceImport fun specifier => [.clause specifier.words] :=
  .look <| .skip (.advanceMark hmark) fun _ _ => .take .expectWord fun _ _ =>
    .take .bindingName fun _ _ => .done fun _ h => h.clause <| by
      simp [Piece.Among, ImportSpecifier.words, Keyword.text]

theorem furtherImports : Completes s [] Grammar.furtherImports fun specifiers =>
    [.clause (specifiers.flatMap ImportSpecifier.words)] := by
  refine .look ?_
  split
  · case _ hk => exact .map (.namespaceImport (Token.isMark_of_kind_eq hk rfl)) fun _ => by simp
  · exact .namedImports
  · exact .fail

theorem importSpecifiers : Completes s [] Grammar.importSpecifiers fun specifiers =>
    [.clause (specifiers.flatMap ImportSpecifier.words)] :=
  .look <| .ite
    (fun _ => .look <| .take .bindingName fun _ _ => .look <|
      .accepting rfl
        (fun _ _ => .take .furtherImports fun _ _ => .done fun _ h => h.clause <| by
          simp +contextual [Piece.Among, ImportSpecifier.words, List.subset_def])
        fun _ => .done fun _ h => h.clause <| by simp [Piece.Among, ImportSpecifier.words])
    fun _ => .furtherImports

theorem importDeclaration : Completes s [] Grammar.importDeclaration fun n => [.node n] :=
  .look <| .skip (.expect rfl) fun _ _ => .look <| .ite
    (fun _ => .take .stringText fun _ _ => .skip .endOfStatement fun _ _ =>
      .clauseNode (fun _ => rfl) (by simp [Piece.Among]))
    fun _ => .take .importSpecifiers fun _ _ => .take .fromClause fun _ _ =>
      .clauseNode (fun _ => rfl) (by simp [Piece.Among])

theorem exportSpecifier :
    Completes s [] Grammar.exportSpecifier fun specifier => [.clause specifier.words] :=
  .look <| .take .exportName fun _ _ =>
    .acceptingWord
      (fun _ => .take .exportName fun _ _ => .done fun _ h => h.clause <| by
        simp [Piece.Among, ExportSpecifier.words, Keyword.text])
      (.look <| .done fun _ h => h.clause <| by simp [Piece.Among, ExportSpecifier.words])

theorem exportList (start : Nat) :
    Completes s [] (Grammar.exportList start) fun n => [.node n] :=
  .skip (.expect rfl) fun _ _ =>
    .take (.clausesUntil ExportSpecifier.words fun _ => .map .exportSpecifier fun _ => rfl)
      fun specifiers _ => .skip (.expect rfl) fun _ _ => .look <| .ite
        (fun _ => .take .fromClause fun _ _ => .clauseNode (fun _ => rfl) (by simp [Piece.Among]))
        fun _ => .skip .endOfStatement fun _ _ => .clauseNode (fun _ => rfl) (by simp [Piece.Among])

theorem exportAll (hmark : s.token.kind.isMark = true) (start : Nat) :
    Completes s [] (Grammar.exportAll start) fun n => [.node n] := by
  have hsource : ∀ (exported : Option String) t,
      Completes t [.clause ("as" :: exported.toList)] (do
        let source ← Grammar.fromClause
        Grammar.nodeFrom start (.exportAll exported source)) fun n => [.node n] :=
    fun _ _ => .take .fromClause fun _ _ => .clauseNode (fun _ => rfl) (by simp [Piece.Among])
  refine .skip (.advanceMark hmark) fun _ _ => .acceptingWord
    (fun _ => .take (P := fun o : Option String => o.toList.map .word)
      (.map .exportName fun _ => rfl) fun exported _ => ?_) (.look ?_)
  · refine (hsource exported _).conv (fun _ h => h.clause ?_) fun _ _ h => h
    cases exported <;> simp [Piece.Among, Keyword.text]
  · exact (hsource none _).conv (fun _ h => h.clause nofun) fun _ _ h => h

variable (hg : ∀ phrase t, Completes t [] (g phrase) fun n => [.node n])
include hg

theorem defaultValue : Completes s [] (Grammar.defaultValue g) fun n => [.node n] := by
  refine .look ?_
  split
  · exact functionDeclaration hg _ false _
  · exact classDeclaration hg _
  · refine .ite (fun h => ?_) fun _ => ?_
    · rw [Bool.and_eq_true, decide_eq_true_eq] at h
      exact .take (.advanceWord h.1) fun _ _ => functionDeclaration hg _ true _
    · exact .take (.allowIn (hg _ _)) fun _ _ => .skip .endOfStatement fun _ _ => .pure rfl

theorem exportedDeclaration (start : Nat) :
    Completes s [] (Grammar.exportedDeclaration g start) fun n => [.node n] :=
  .take (hg _ _) fun _ _ => .node fun _ => rfl

theorem exportDeclaration : Completes s [] (Grammar.exportDeclaration g) fun n => [.node n] := by
  refine .look <| .skip (.expect rfl) fun _ _ => .look ?_
  split
  · case _ hk => exact .exportAll (Token.isMark_of_kind_eq hk rfl) _
  · exact .exportList _
  · case _ hk =>
    exact .skip (.advanceMark (Token.isMark_of_kind_eq hk rfl)) fun _ _ =>
      .take (defaultValue hg) fun _ _ => .node fun _ => rfl
  · exact exportedDeclaration hg _
  · exact exportedDeclaration hg _
  · exact exportedDeclaration hg _
  · exact exportedDeclaration hg _
  · exact exportedDeclaration hg _
  · exact .ite (fun _ => exportedDeclaration hg _) fun _ => .fail
  · exact .fail

theorem moduleItem : Completes s [] (Grammar.moduleItem g) fun n => [.node n] := by
  refine .look ?_
  split
  · exact .ite (fun _ => hg _ _) fun _ => .importDeclaration
  · exact exportDeclaration hg
  · exact hg _ _

end Rules

end Completes

end Grammar

end ModuleBundler

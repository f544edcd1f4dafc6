import ModuleBundler.Proofs.Echoes
import ModuleBundler.Proofs.Layout

/-!
# ModuleBundler — the rules on a framed text

Each rule of the grammar is echoed by itself, over readings of the phrases inside it that echo
each other. The rules come in the order of the grammar.

* `Echo.rule` — from the phrases inside a rule to the rule.
* `Echo.read` — every phrase, however many rounds are given in either text.
-/

namespace ModuleBundler.Grammar

namespace Echo

variable {F : Frame} {s s' : State}

theorem mapSome {α β : Type} {p : Parser α} {p' : Parser β} {φ : α → β}
    (hp : Echo F s s' p p' φ) :
    Echo F s s' (some <$> p) (some <$> p') (Option.map φ) :=
  hp.map fun _ => rfl

section Words

-- ---------------------------------------------------------------------------
-- Tokens and names
-- ---------------------------------------------------------------------------

theorem endOfStatement : Echo F s s' Grammar.endOfStatement Grammar.endOfStatement id :=
  .accepting rfl (fun _ _ _ => .pure rfl) fun _ =>
    .current <| .ite (fun _ => .pure rfl) fun _ => .fail

theorem bindingName : Echo F s s' Grammar.bindingName Grammar.bindingName id :=
  .current <| .ite (fun h => .takeValue (.of_isBindingName h)) fun _ => .fail

theorem anyName : Echo F s s' Grammar.anyName Grammar.anyName id :=
  .kind <| .ite (fun h => .takeValue (.of_kind _ h rfl rfl)) fun _ => .fail

theorem identifier : Echo F s s' Grammar.identifier Grammar.identifier (Node.shift F.width) :=
  .position <| bindingName.bind fun _ _ _ => .node rfl

theorem word (hsig : s.token.Significant) {form form' : Form Node}
    (hform : form' = form.shift F.width (Node.shift F.width)) :
    Echo F s s' (Grammar.word form) (Grammar.word form') (Node.shift F.width) :=
  .position <| (advance hsig).bind fun _ _ _ => .node hform

theorem literal (hsig : s.token.Significant) (make : String → Literal) :
    Echo F s s' (Grammar.literal make) (Grammar.literal make) (Node.shift F.width) :=
  .position <| (takeValue hsig).bind fun _ _ _ => .node rfl

theorem sequence {p p' : Parser Node} (hp : ∀ t t', Echo F t t' p p' (Node.shift F.width)) :
    Echo F s s' (Grammar.sequence p) (Grammar.sequence p') (Node.shift F.width) := by
  refine .position <| (separated hp).bind fun es _ _ => ?_
  match es with
  | [] => exact .node rfl
  | [e] => exact .pure rfl
  | e :: e' :: es => exact .node rfl

theorem optionalName (isRequired : Bool) : Echo F s s' (Grammar.optionalName isRequired)
    (Grammar.optionalName isRequired) (Option.map (Node.shift F.width)) :=
  .current <| .ite (fun _ => identifier.bind fun _ _ _ => .pure rfl) fun _ =>
    .ite (fun _ => .fail) fun _ => .pure rfl

theorem qualifier (word : Keyword) :
    Echo F s s' (Grammar.qualifier word) (Grammar.qualifier word) id := by
  refine .current <| .iteOf (fun hs hsig => ?_) (fun h => ?_) fun _ => .pure rfl
  · rw [Token.qualifiesMember_within (hs.pos hsig)]
    rfl
  · rw [Bool.and_eq_true, decide_eq_true_eq] at h
    exact (advance (.of_kind_eq h.1 rfl)).bind fun _ _ _ => .pure rfl

theorem accessorKind : Echo F s s' Grammar.accessorKind Grammar.accessorKind id := by
  have hcondition : ∀ word, s.Framed F s' → s.token.Significant →
      (((s.token.within F).kind = .word word && (s.token.within F).qualifiesAccessor) = true ↔
        (s.token.kind = .word word && s.token.qualifiesAccessor) = true) := by
    intro word hs hsig
    rw [Token.qualifiesAccessor, Token.next_beginsKey_within (hs.pos hsig)]
    rfl
  refine .current <| .iteOf (hcondition _) (fun h => ?_) fun _ =>
    .iteOf (hcondition _) (fun h => ?_) fun _ => .pure rfl
  all_goals
    rw [Bool.and_eq_true, decide_eq_true_eq] at h
    exact (advance (.of_kind_eq h.1 rfl)).bind fun _ _ _ => .pure rfl

theorem memberHead : Echo F s s' Grammar.memberHead Grammar.memberHead id :=
  (qualifier _).bind fun _ _ _ => (accept rfl).bind fun _ _ _ =>
    .ite (fun _ => .pure rfl) fun _ => accessorKind.bind fun _ _ _ => .pure rfl

theorem memberName : Echo F s s' Grammar.memberName Grammar.memberName (Node.shift F.width) :=
  .current <| .position <| .ite (fun h => word (.of_kind_eq h rfl) rfl)
    fun _ => anyName.bind fun _ _ _ => .node rfl

theorem metaProperty {a : Nat} (object property : String) :
    Echo F s s' (Grammar.metaProperty a object property)
      (Grammar.metaProperty (a + F.width) object property) (Node.shift F.width) :=
  anyName.bind fun _ _ _ => .ite (fun _ => .node rfl) fun _ => .fail

end Words

section Rules

variable {g g' : Reading}
  (hg : ∀ phrase t t', Echo F t t' (g phrase) (g' phrase) (Node.shift F.width))
include hg

-- ---------------------------------------------------------------------------
-- Keys, patterns and parameters
-- ---------------------------------------------------------------------------

theorem expression :
    Echo F s s' (Grammar.expression g) (Grammar.expression g') (Node.shift F.width) :=
  .sequence fun _ _ => hg _ _ _

theorem propertyKey : Echo F s s' (Grammar.propertyKey g) (Grammar.propertyKey g')
    (PropertyKey.map (Node.shift F.width)) := by
  refine .kind ?_
  split
  · case _ hk => exact (takeValue (.of_kind_eq hk rfl)).bind fun _ _ _ => .pure rfl
  · case _ hk => exact (takeValue (.of_kind_eq hk rfl)).bind fun _ _ _ => .pure rfl
  · case _ hk => exact (takeValue (.of_kind_eq hk rfl)).bind fun _ _ _ => .pure rfl
  · case _ hk => exact (takeValue (.of_kind_eq hk rfl)).bind fun _ _ _ => .pure rfl
  · case _ hk =>
    exact (advance (.of_kind_eq hk rfl)).bind fun _ _ _ => (allowIn (hg _ _ _)).bind fun _ _ _ =>
      (expect rfl).bind fun _ _ _ => .pure rfl
  · exact anyName.bind fun _ _ _ => .pure rfl

omit hg in
theorem withDefault {a : Nat} (target : Node) {p p' : Parser Node}
    (hp : ∀ t t', Echo F t t' p p' (Node.shift F.width)) :
    Echo F s s' (Grammar.withDefault a target p)
      (Grammar.withDefault (a + F.width) (target.shift F.width) p') (Node.shift F.width) :=
  .accepting rfl (fun _ _ _ => (hp _ _).bind fun _ _ _ => .node rfl) fun _ => .pure rfl

theorem bindingElement :
    Echo F s s' (Grammar.bindingElement g) (Grammar.bindingElement g') (Node.shift F.width) :=
  .position <| (hg _ _ _).bind fun _ _ _ => withDefault _ fun _ _ => allowIn (hg _ _ _)

theorem restElement :
    Echo F s s' (Grammar.restElement g) (Grammar.restElement g') (Node.shift F.width) :=
  .position <| (expect rfl).bind fun _ _ _ => (hg _ _ _).bind fun _ _ _ => .node rfl

theorem patternProperty :
    Echo F s s' (Grammar.patternProperty g) (Grammar.patternProperty g') (Node.shift F.width) :=
  .position <| .current <| (propertyKey hg).bind fun _ _ _ =>
    .accepting rfl (fun _ _ _ => (bindingElement hg).bind fun _ _ _ => .node rfl) fun _ =>
      .ite (fun _ => (node rfl).bind fun _ _ _ =>
        (withDefault _ fun _ _ => allowIn (hg _ _ _)).bind fun _ _ _ => .node rfl) fun _ => .fail

theorem propertyEntry : Echo F s s' (Grammar.propertyEntry g) (Grammar.propertyEntry g')
    (Entry.map (Node.shift F.width)) :=
  .isAt <| .ite (fun _ => (restElement hg).bind fun _ _ _ => .pure rfl)
    fun _ => (patternProperty hg).bind fun _ _ _ => .pure rfl

theorem objectPattern :
    Echo F s s' (Grammar.objectPattern g) (Grammar.objectPattern g') (Node.shift F.width) :=
  .position <| (expect rfl).bind fun _ _ _ => (listUntil fun _ _ => propertyEntry hg).bind
    fun _ _ _ => (expect rfl).bind fun _ _ _ => .node rfl

theorem elementEntry : Echo F s s' (Grammar.elementEntry g) (Grammar.elementEntry g')
    (Entry.map (Option.map (Node.shift F.width))) :=
  .accepting rfl (fun _ _ _ => .pure rfl) fun _ =>
    .isAt <| .ite (fun _ => (restElement hg).bind fun _ _ _ => .pure rfl)
      fun _ => (bindingElement hg).bind fun _ _ _ => .pure rfl

theorem arrayPattern :
    Echo F s s' (Grammar.arrayPattern g) (Grammar.arrayPattern g') (Node.shift F.width) :=
  .position <| (expect rfl).bind fun _ _ _ => (listUntil fun _ _ => elementEntry hg).bind
    fun _ _ _ => (expect rfl).bind fun _ _ _ => .node rfl

theorem bindingTarget :
    Echo F s s' (Grammar.bindingTarget g) (Grammar.bindingTarget g') (Node.shift F.width) := by
  refine .nested fun _ _ => .kind ?_
  split
  · exact objectPattern hg
  · exact arrayPattern hg
  · exact .identifier

theorem parameterEntry : Echo F s s' (Grammar.parameterEntry g) (Grammar.parameterEntry g')
    (Entry.map (Node.shift F.width)) :=
  .isAt <| .ite (fun _ => (restElement hg).bind fun _ _ _ => .pure rfl)
    fun _ => (bindingElement hg).bind fun _ _ _ => .pure rfl

theorem parameters : Echo F s s' (Grammar.parameters g) (Grammar.parameters g')
    (List.map (Node.shift F.width)) :=
  (expect rfl).bind fun _ _ _ => (allowIn (listUntil fun _ _ => parameterEntry hg)).bind
    fun _ _ _ => (expect rfl).bind fun _ _ _ => .pure rfl

-- ---------------------------------------------------------------------------
-- Functions and classes
-- ---------------------------------------------------------------------------

theorem bracedStatement :
    Echo F s s' (Grammar.bracedStatement g) (Grammar.bracedStatement g') (Node.shift F.width) :=
  .isAt <| .ite (fun _ => .fail) fun _ => hg _ _ _

theorem bracedStatements : Echo F s s' (Grammar.bracedStatements g) (Grammar.bracedStatements g')
    (List.map (Node.shift F.width)) :=
  (expect rfl).bind fun _ _ _ => (many fun _ _ => bracedStatement hg).bind fun _ _ _ =>
    (expect rfl).bind fun _ _ _ => .pure rfl

theorem block : Echo F s s' (Grammar.block g) (Grammar.block g') (Node.shift F.width) :=
  .position <| (bracedStatements hg).bind fun _ _ _ => .node rfl

theorem functionBody :
    Echo F s s' (Grammar.functionBody g) (Grammar.functionBody g') (Node.shift F.width) :=
  .nested fun _ _ => .allowIn (block hg)

theorem functionParts (isAsync nameRequired : Bool) :
    Echo F s s' (Grammar.functionParts g isAsync nameRequired)
      (Grammar.functionParts g' isAsync nameRequired) (FunctionParts.map (Node.shift F.width)) :=
  (expect rfl).bind fun _ _ _ => (accept rfl).bind fun _ _ _ =>
    (optionalName _).bind fun _ _ _ => (parameters hg).bind fun _ _ _ =>
      (functionBody hg).bind fun _ _ _ => .pure rfl

theorem functionDeclaration {a : Nat} (isAsync nameRequired : Bool) :
    Echo F s s' (Grammar.functionDeclaration g a isAsync nameRequired)
      (Grammar.functionDeclaration g' (a + F.width) isAsync nameRequired) (Node.shift F.width) :=
  (functionParts hg _ _).bind fun _ _ _ => .node rfl

theorem functionExpression {a : Nat} (isAsync : Bool) :
    Echo F s s' (Grammar.functionExpression g a isAsync)
      (Grammar.functionExpression g' (a + F.width) isAsync) (Node.shift F.width) :=
  (functionParts hg _ _).bind fun _ _ _ => .node rfl

theorem methodFunction (isAsync isGenerator : Bool) :
    Echo F s s' (Grammar.methodFunction g isAsync isGenerator)
      (Grammar.methodFunction g' isAsync isGenerator) (Node.shift F.width) :=
  .position <| (parameters hg).bind fun _ _ _ => (functionBody hg).bind fun _ _ _ => .node rfl

omit hg in
theorem methodKind_map (head : MemberHead) (key : PropertyKey Node) (isStatic : Bool)
    (φ : Node → Node) :
    methodKind head (key.map φ) isStatic = methodKind head key isStatic := by
  obtain ⟨isAsync, isGenerator, kind⟩ := head
  cases kind <;> cases key <;> rfl

theorem methodOrField {a : Nat} (isStatic : Bool) :
    Echo F s s' (Grammar.methodOrField g a isStatic)
      (Grammar.methodOrField g' (a + F.width) isStatic) (Node.shift F.width) := by
  refine memberHead.bind fun head _ _ => (propertyKey hg).bind fun key _ _ => .isAt <|
    .ite (fun _ => (methodFunction hg _ _).bind fun _ _ _ => ?_) fun _ => .ite (fun _ => .fail)
      fun _ => .accepting rfl (fun _ _ _ => ?_) fun _ => ?_
  · rw [id, methodKind_map]
    exact .node rfl
  · exact (mapSome (hg _ _ _)).bind fun value _ _ => endOfStatement.bind fun _ _ _ => .node rfl
  · exact endOfStatement.bind fun _ _ _ => .node rfl

theorem classMember :
    Echo F s s' (Grammar.classMember g) (Grammar.classMember g') (Node.shift F.width) := by
  refine .current <| .position <| .iteOf (fun hs hsig => ?_) (fun h => ?_) fun _ =>
    (qualifier _).bind fun _ _ _ => methodOrField hg _
  · have hnext : (s.token.within F).next.kind = .punct .openBrace ↔
        s.token.next.kind = .punct .openBrace :=
      Token.next_kind_within (hs.pos hsig) rfl (by decide)
    rw [decide_eq_decide.2 hnext]
    rfl
  · rw [Bool.and_eq_true, decide_eq_true_eq] at h
    exact (advance (.of_kind_eq h.1 rfl)).bind fun _ _ _ =>
      (bracedStatements hg).bind fun _ _ _ => .node rfl

theorem bracedMember : Echo F s s' (Grammar.bracedMember g) (Grammar.bracedMember g')
    (Option.map (Node.shift F.width)) :=
  .accepting rfl (fun _ _ _ => .pure rfl) fun _ => .isAt <| .ite (fun _ => .fail) fun _ =>
    (classMember hg).bind fun _ _ _ => .pure rfl

theorem classBody : Echo F s s' (Grammar.classBody g) (Grammar.classBody g')
    (List.map (Node.shift F.width)) :=
  (expect rfl).bind fun _ _ _ => (many fun _ _ => bracedMember hg).bind fun members _ _ =>
    (expect rfl).bind fun _ _ _ => .pure (by simp [List.filterMap_map, List.map_filterMap])

theorem classParts (nameRequired : Bool) : Echo F s s' (Grammar.classParts g nameRequired)
    (Grammar.classParts g' nameRequired) (ClassParts.map (Node.shift F.width)) := by
  refine (expect rfl).bind fun _ _ _ => (optionalName _).bind fun name _ _ =>
    .accepting rfl (fun _ _ _ => ?_) fun _ => ?_
  · exact (mapSome (hg _ _ _)).bind fun superClass _ _ =>
      (nested fun _ _ => .allowIn (classBody hg)).bind fun _ _ _ => .pure rfl
  · exact (nested fun _ _ => .allowIn (classBody hg)).bind fun _ _ _ => .pure rfl

theorem classDeclaration (nameRequired : Bool) :
    Echo F s s' (Grammar.classDeclaration g nameRequired)
      (Grammar.classDeclaration g' nameRequired) (Node.shift F.width) :=
  .position <| (classParts hg _).bind fun _ _ _ => .node rfl

theorem classExpression :
    Echo F s s' (Grammar.classExpression g) (Grammar.classExpression g') (Node.shift F.width) :=
  .position <| (classParts hg _).bind fun _ _ _ => .node rfl

-- ---------------------------------------------------------------------------
-- Literals and templates
-- ---------------------------------------------------------------------------

omit hg in
theorem rereadRegex :
    Echo F s s' (Grammar.reread Token.asRegex) (Grammar.reread Token.asRegex) id :=
  .reread Token.asRegex_start (fun _ => .of_asRegex) (fun _ _ => Token.asRegex_within) fun _ =>
    .asRegex

omit hg in
theorem rereadTemplate :
    Echo F s s' (Grammar.reread Token.asTemplate) (Grammar.reread Token.asTemplate) id :=
  .reread Token.asTemplate_start (fun _ => .of_asTemplate)
    (fun _ ht hsig => (Token.asTemplate_framed ht.rest_ne_nil).1 hsig.known) fun _ => .asTemplate

omit hg in
theorem regex : Echo F s s' Grammar.regex Grammar.regex (Node.shift F.width) :=
  rereadRegex.bind fun _ _ _ => .isAt <| .ite
    (fun hk => literal (.of_kind_eq (of_decide_eq_true hk) rfl) _) fun _ => .fail

theorem substituted :
    Echo F s s' (Grammar.substituted g) (Grammar.substituted g') (Node.shift F.width) :=
  (allowIn (expression hg)).bind fun _ _ _ => .isAt <| .ite (fun _ => .fail) fun _ => .pure rfl

/-- The pieces of text and the nodes of a template. -/
def shiftPieces (k : Nat) (parts : List String × List Node) : List String × List Node :=
  (parts.1, parts.2.map (Node.shift k))

omit hg in
theorem pieceRound (quasis : List String) (es : List Node) :
    Echo F s s' (Grammar.pieceRound quasis es)
      (Grammar.pieceRound quasis (es.map (Node.shift F.width)))
      (Sum.map (shiftPieces F.width) (shiftPieces F.width)) := by
  refine rereadTemplate.bind fun _ _ _ => .current ?_
  dsimp only [Token.kind_within]
  split
  · exact .pure rfl
  · exact .pure (by simp [shiftPieces, Token.within])
  · exact .fail

theorem substitutions (hsig : s.token.kind.isMark = true) (n n' : Nat)
    (x : List String × List Node) :
    Echo F s s' (Grammar.loop (Grammar.substitutionRound g) n x)
      (Grammar.loop (Grammar.substitutionRound g') n' (shiftPieces F.width x))
      (shiftPieces F.width) := by
  refine loopFrom (fun t => t.token.kind.isMark = true) hsig (fun x _ _ ht => ?_)
    (fun x y t u ht h => ?_) n n' x
  · exact (advance (Token.significant_of_isMark ht)).bind fun _ _ _ =>
      (substituted hg).bind fun _ _ _ => pieceRound _ _
  · obtain ⟨_, _, -, h⟩ := bind_ok h
    obtain ⟨_, _, -, h⟩ := bind_ok h
    exact (Completes.pieceRound_ok h).2.1

omit hg in
/-- The piece that ends a template is the current token. -/
theorem isMark_of_substitutions {n : Nat} {x parts : List String × List Node} {t : State}
    (h : Grammar.loop (Grammar.substitutionRound g) n x s = .ok parts t) :
    t.token.kind.isMark = true := by
  induction n generalizing s x with
  | zero => cases h
  | succ n ih =>
    obtain ⟨r, u, hround, h⟩ := bind_ok h
    cases r with
    | inl y => exact ih h
    | inr b =>
      cases h
      obtain ⟨_, _, -, hround⟩ := bind_ok hround
      obtain ⟨_, _, -, hround⟩ := bind_ok hround
      exact (Completes.pieceRound_ok hround).2.1

theorem templateLiteral (hmark : s.token.kind.isMark = true) :
    Echo F s s' (Grammar.templateLiteral g) (Grammar.templateLiteral g') (Node.shift F.width) := by
  refine .position <| .current <| .ite (fun _ => ?_) fun _ => ?_
  · refine .rounds fun n n' => ?_
    rw [substitutions_eq, substitutions_eq]
    refine (substitutions hg hmark n n' ([s.token.value], [])).bindOk fun parts t t' h => ?_
    have hlast := Token.significant_of_isMark (isMark_of_substitutions h)
    exact (advance hlast).bind fun _ _ _ => .node rfl
  · exact .look (fun _ _ => rfl) <|
      (advance (Token.significant_of_isMark hmark)).bind fun _ _ _ => .node rfl

-- ---------------------------------------------------------------------------
-- Groups
-- ---------------------------------------------------------------------------

theorem inParentheses :
    Echo F s s' (Grammar.inParentheses g) (Grammar.inParentheses g') (Node.shift F.width) :=
  (expect rfl).bind fun _ _ _ => (allowIn (expression hg)).bind fun _ _ _ =>
    (expect rfl).bind fun _ _ _ => .pure rfl

theorem parenthesized :
    Echo F s s' (Grammar.parenthesized g) (Grammar.parenthesized g') (Node.shift F.width) :=
  .position <| (inParentheses hg).bind fun _ _ _ => .node rfl

theorem spreadable :
    Echo F s s' (Grammar.spreadable g) (Grammar.spreadable g') (Node.shift F.width) :=
  .position <| .accepting rfl (fun _ _ _ => (hg _ _ _).bind fun _ _ _ => .node rfl)
    fun _ => hg _ _ _

theorem literalEntry : Echo F s s' (Grammar.literalEntry g) (Grammar.literalEntry g')
    (Entry.map (Option.map (Node.shift F.width))) :=
  .accepting rfl (fun _ _ _ => .pure rfl) fun _ =>
    (allowIn (spreadable hg)).bind fun _ _ _ => .pure rfl

theorem arrayLiteral :
    Echo F s s' (Grammar.arrayLiteral g) (Grammar.arrayLiteral g') (Node.shift F.width) :=
  .position <| (expect rfl).bind fun _ _ _ => (listUntil fun _ _ => literalEntry hg).bind
    fun _ _ _ => (expect rfl).bind fun _ _ _ => .node rfl

theorem arguments : Echo F s s' (Grammar.arguments g) (Grammar.arguments g')
    (List.map (Node.shift F.width)) :=
  (expect rfl).bind fun _ _ _ =>
    (listUntil fun _ _ => .map (allowIn (spreadable hg)) fun _ => rfl).bind fun _ _ _ =>
      (expect rfl).bind fun _ _ _ => .pure rfl

-- ---------------------------------------------------------------------------
-- Object literals
-- ---------------------------------------------------------------------------

theorem propertyAfter {a : Nat} (head : MemberHead) :
    Echo F s s' (Grammar.propertyAfter g a head) (Grammar.propertyAfter g' (a + F.width) head)
      (Node.shift F.width) :=
  .position <| .current <| (propertyKey hg).bind fun _ _ _ => .isAt <|
    .ite (fun _ => (methodFunction hg _ _).bind fun _ _ _ => .node rfl) fun _ =>
      .ite (fun _ => .fail) fun _ =>
        .accepting rfl (fun _ _ _ => (hg _ _ _).bind fun _ _ _ => .node rfl) fun _ =>
          .ite (fun _ => (node rfl).bind fun _ _ _ =>
            (withDefault _ fun _ _ => hg _ _ _).bind fun _ _ _ => .node rfl) fun _ => .fail

theorem objectProperty :
    Echo F s s' (Grammar.objectProperty g) (Grammar.objectProperty g') (Node.shift F.width) :=
  .position <| .accepting rfl (fun _ _ _ => (hg _ _ _).bind fun _ _ _ => .node rfl)
    fun _ => memberHead.bind fun _ _ _ => propertyAfter hg _

theorem objectLiteral :
    Echo F s s' (Grammar.objectLiteral g) (Grammar.objectLiteral g') (Node.shift F.width) :=
  .position <| (expect rfl).bind fun _ _ _ =>
    (listUntil fun _ _ => .map (allowIn (objectProperty hg)) fun _ => rfl).bind fun _ _ _ =>
      (expect rfl).bind fun _ _ _ => .node rfl

-- ---------------------------------------------------------------------------
-- Primary expressions
-- ---------------------------------------------------------------------------

theorem primary : Echo F s s' (Grammar.primary g) (Grammar.primary g') (Node.shift F.width) := by
  refine .current <| .position ?_
  dsimp only [Token.kind_within]
  split
  · case _ hk => exact word (.of_kind_eq hk rfl) rfl
  · case _ hk => exact word (.of_kind_eq hk rfl) rfl
  · case _ hk => exact word (.of_kind_eq hk rfl) rfl
  · case _ hk => exact word (.of_kind_eq hk rfl) rfl
  · case _ hk => exact literal (.of_kind_eq hk rfl) _
  · case _ hk => exact literal (.of_kind_eq hk rfl) _
  · case _ hk => exact literal (.of_kind_eq hk rfl) _
  · case _ hk => exact word (.of_kind_eq hk rfl) rfl
  · exact regex
  · exact regex
  · case _ hk => exact templateLiteral hg (Token.isMark_of_kind_eq hk rfl)
  · case _ hk => exact templateLiteral hg (Token.isMark_of_kind_eq hk rfl)
  · exact parenthesized hg
  · exact arrayLiteral hg
  · exact objectLiteral hg
  · exact functionExpression hg false
  · exact classExpression hg
  · case _ hk =>
    refine .iteOf (fun hs hsig => ?_) (fun _ => ?_) fun _ => identifier
    · rw [Token.beginsAsyncFunction, Token.continuesWith_within (hs.pos hsig) rfl (by decide)]
      rfl
    · exact (advance (.of_kind_eq hk rfl)).bind fun _ _ _ => functionExpression hg true
  · exact .ite (fun _ => identifier) fun _ => .fail

-- ---------------------------------------------------------------------------
-- Member accesses and calls
-- ---------------------------------------------------------------------------

theorem computedMember :
    Echo F s s' (Grammar.computedMember g) (Grammar.computedMember g') (Node.shift F.width) :=
  (expect rfl).bind fun _ _ _ => (allowIn (expression hg)).bind fun _ _ _ =>
    (expect rfl).bind fun _ _ _ => .pure rfl

theorem optionalAccess {a : Nat} (e : Node) : Echo F s s' (Grammar.optionalAccess g a e)
    (Grammar.optionalAccess g' (a + F.width) (e.shift F.width)) (Node.shift F.width) := by
  refine .kind ?_
  split
  · exact (arguments hg).bind fun _ _ _ => .node rfl
  · exact (computedMember hg).bind fun _ _ _ => .node rfl
  · exact memberName.bind fun _ _ _ => .node rfl

/-- What is gathered in a chain of accesses. -/
def shiftAccess (k : Nat) (x : Bool × Node) : Bool × Node := (x.1, x.2.shift k)

theorem accessRound {a : Nat} (calls : Bool) (x : Bool × Node) :
    Echo F s s' (Grammar.accessRound g a calls x)
      (Grammar.accessRound g' (a + F.width) calls (shiftAccess F.width x))
      (Sum.map (shiftAccess F.width) (Node.shift F.width)) := by
  refine .kind ?_
  split
  · case _ hk =>
    exact (advance (.of_kind_eq hk rfl)).bind fun _ _ _ =>
      memberName.bind fun _ _ _ => (node rfl).bind fun _ _ _ => .pure rfl
  · case _ hk =>
    refine .ite (fun _ => ?_) fun _ => .pure rfl
    exact (advance (.of_kind_eq hk rfl)).bind fun _ _ _ =>
      (optionalAccess hg _).bind fun _ _ _ => .pure rfl
  · exact (computedMember hg).bind fun _ _ _ => (node rfl).bind fun _ _ _ => .pure rfl
  · case _ hk =>
    refine .ite (fun _ => .fail) fun _ => ?_
    exact (templateLiteral hg (Token.isMark_of_kind_eq hk rfl)).bind fun _ _ _ =>
      (node rfl).bind fun _ _ _ => .pure rfl
  · case _ hk =>
    refine .ite (fun _ => .fail) fun _ => ?_
    exact (templateLiteral hg (Token.isMark_of_kind_eq hk rfl)).bind fun _ _ _ =>
      (node rfl).bind fun _ _ _ => .pure rfl
  · refine .ite (fun _ => ?_) fun _ => .pure rfl
    exact (arguments hg).bind fun _ _ _ => (node rfl).bind fun _ _ _ => .pure rfl
  · exact .pure rfl

theorem accesses {a : Nat} (calls : Bool) (n n' : Nat) (isOptional : Bool) (e : Node) :
    Echo F s s' (Grammar.accesses g a calls n isOptional e)
      (Grammar.accesses g' (a + F.width) calls n' isOptional (e.shift F.width))
      (Node.shift F.width) := by
  rw [accesses_eq, accesses_eq]
  exact loop (fun x _ _ => accessRound hg calls x) n n' (isOptional, e)

theorem construction :
    Echo F s s' (Grammar.construction g) (Grammar.construction g') (Node.shift F.width) := by
  refine .position <| (expect rfl).bind fun _ t t' =>
    .accepting rfl (fun _ _ _ => metaProperty _ _) fun _ => .position <| .kind ?_
  have hrest : ∀ (callee : Node) u u', Echo F u u' (do
      let callee ←
        Grammar.accesses g t.token.start.offset false (← Grammar.rounds) false callee
      let values ← if ← Grammar.isAt (.punct .openParen) then Grammar.arguments g
        else Pure.pure []
      Grammar.nodeFrom s.token.start.offset (.newExpression callee values)) (do
      let callee ← Grammar.accesses g' (t.token.start.offset + F.width) false
        (← Grammar.rounds) false (callee.shift F.width)
      let values ← if ← Grammar.isAt (.punct .openParen) then Grammar.arguments g'
        else Pure.pure []
      Grammar.nodeFrom (s.token.start.offset + F.width) (.newExpression callee values))
      (Node.shift F.width) :=
    fun _ _ _ => .rounds fun _ _ => (accesses hg _ _ _ _ _).bind fun _ _ _ => .isAt <|
      .ite (fun _ => (arguments hg).bind fun _ _ _ => .node rfl) fun _ =>
        .look (fun _ _ => rfl) (.node rfl)
  split
  · exact (hg _ _ _).bind hrest
  · case _ hk => exact (word (.of_kind_eq hk rfl) rfl).bind hrest
  · exact (primary hg).bind hrest

theorem importExpression :
    Echo F s s' (Grammar.importExpression g) (Grammar.importExpression g')
      (Node.shift F.width) := by
  refine .position <| (expect rfl).bind fun _ _ _ =>
    .accepting rfl (fun _ _ _ => metaProperty _ _) fun _ =>
      (expect rfl).bind fun _ _ _ => (allowIn (hg _ _ _)).bind fun source _ _ => ?_
  have hend : ∀ t t', Echo F t t' (do
      Grammar.expect (.punct .closeParen)
      Grammar.nodeFrom s.token.start.offset (.importExpression source)) (do
      Grammar.expect (.punct .closeParen)
      Grammar.nodeFrom (s.token.start.offset + F.width)
        (.importExpression (source.shift F.width))) (Node.shift F.width) :=
    fun _ _ => (expect rfl).bind fun _ _ _ => .node rfl
  refine .accepting rfl (fun _ _ _ => .isAt <| .ite (fun _ => ?_) fun _ => hend _ _) fun _ =>
    hend _ _
  exact (allowIn (hg _ _ _)).bind fun _ _ _ => (accept rfl).bind fun _ _ _ => hend _ _

theorem leftHandSide :
    Echo F s s' (Grammar.leftHandSide g) (Grammar.leftHandSide g') (Node.shift F.width) := by
  refine .position <| .kind ?_
  have hrest : ∀ (e : Node) t t', Echo F t t' (do
      Grammar.accesses g s.token.start.offset true (← Grammar.rounds) false e) (do
      Grammar.accesses g' (s.token.start.offset + F.width) true (← Grammar.rounds) false
        (e.shift F.width)) (Node.shift F.width) :=
    fun _ _ _ => .rounds fun _ _ => accesses hg _ _ _ _ _
  split
  · exact (construction hg).bind hrest
  · case _ hk => exact (word (.of_kind_eq hk rfl) rfl).bind hrest
  · exact (importExpression hg).bind hrest
  · exact (primary hg).bind hrest

-- ---------------------------------------------------------------------------
-- Operators
-- ---------------------------------------------------------------------------

theorem updated :
    Echo F s s' (Grammar.updated g) (Grammar.updated g') (Node.shift F.width) := by
  refine .position <| (leftHandSide hg).bind fun _ _ _ => .current <| .ite (fun h => ?_) fun _ =>
    .pure rfl
  rw [Bool.and_eq_true] at h
  exact (advance (Token.significant_of_isMark (Completes.isMark_of_isUpdateOperator h.1))).bind
    fun _ _ _ => .node rfl

theorem unary : Echo F s s' (Grammar.unary g) (Grammar.unary g') (Node.shift F.width) := by
  refine .nested fun s s' => .position <| .kind ?_
  have hoperand : ∀ {s s' : State} {form : Node → Form Node}, s.token.kind.isMark = true →
      (∀ e, form (e.shift F.width) = (form e).shift F.width (Node.shift F.width)) →
      Echo F s s' (do
        Grammar.advance
        Grammar.nodeFrom s.token.start.offset (form (← g .unary))) (do
        Grammar.advance
        Grammar.nodeFrom (s.token.start.offset + F.width) (form (← g' .unary)))
        (Node.shift F.width) :=
    fun hmark hform => (advance (Token.significant_of_isMark hmark)).bind fun _ _ _ =>
      (hg _ _ _).bind fun _ _ _ => .node (hform _)
  refine .ite (fun h => hoperand (Completes.isMark_of_isUnaryOperator h) fun _ => rfl) fun _ =>
    .ite (fun h => hoperand (Completes.isMark_of_isUpdateOperator h) fun _ => rfl) fun _ =>
      .ite (fun h => hoperand (Token.isMark_of_kind_eq h rfl) fun _ => rfl) fun _ => updated hg

theorem operationRound {a : Nat} (above : Nat) (left : Node) :
    Echo F s s' (Grammar.operationRound g a above left)
      (Grammar.operationRound g' (a + F.width) above (left.shift F.width))
      (Sum.map (Node.shift F.width) (Node.shift F.width)) := by
  refine .kind <| .goesOn <| .ite (fun h => ?_) fun _ => .pure rfl
  rw [Bool.and_eq_true, decide_eq_true_eq] at h
  have hsig := Token.significant_of_isMark (Completes.isMark_of_precedence h.1)
  exact (advance hsig).bind fun _ _ _ => (hg _ _ _).bind fun _ _ _ =>
    (node rfl).bind fun _ _ _ => .pure rfl

theorem binary (above : Nat) :
    Echo F s s' (Grammar.binary g above) (Grammar.binary g' above) (Node.shift F.width) := by
  refine .position <| (unary hg).bind fun left _ _ => .rounds fun n n' => ?_
  rw [operations_eq, operations_eq]
  exact loop (fun x _ _ => operationRound hg above x) n n' left

-- ---------------------------------------------------------------------------
-- Conditions, functions and assignments
-- ---------------------------------------------------------------------------

theorem conditional :
    Echo F s s' (Grammar.conditional g) (Grammar.conditional g') (Node.shift F.width) :=
  .position <| (binary hg 0).bind fun _ _ _ => .accepting rfl
    (fun _ _ _ => (allowIn (hg _ _ _)).bind fun _ _ _ => (expect rfl).bind fun _ _ _ =>
      (hg _ _ _).bind fun _ _ _ => .node rfl)
    fun _ => .pure rfl

theorem yieldExpression :
    Echo F s s' (Grammar.yieldExpression g) (Grammar.yieldExpression g') (Node.shift F.width) := by
  have hvalue : ∀ delegates t t', Echo F t t' (do
      Grammar.nodeFrom s.token.start.offset
        (.yieldExpression (some (← g .assignment)) delegates)) (do
      Grammar.nodeFrom (s.token.start.offset + F.width)
        (.yieldExpression (some (← g' .assignment)) delegates)) (Node.shift F.width) :=
    fun _ _ _ => (hg _ _ _).bind fun _ _ _ => .node rfl
  exact .position <| (expect rfl).bind fun _ _ _ => .afterLineBreak <| .ite (fun _ => .node rfl)
    fun _ => .accepting rfl (fun _ _ _ => hvalue _ _ _) fun _ => .current <|
      .ite (fun _ => hvalue _ _ _) fun _ => .node rfl

theorem arrowBody :
    Echo F s s' (Grammar.arrowBody g) (Grammar.arrowBody g') (Node.shift F.width) :=
  .isAt <| .ite (fun _ => functionBody hg) fun _ => hg _ _ _

theorem arrowEnd (start : Nat) (isAsync : Bool) (params : List Node) :
    Echo F s s' (Grammar.arrowEnd g start isAsync params)
      (Grammar.arrowEnd g' (start + F.width) isAsync (params.map (Node.shift F.width)))
      (Node.shift F.width) :=
  .afterLineBreak <| .ite (fun _ => .fail) fun _ =>
    (expect rfl).bind fun _ _ _ => (arrowBody hg).bind fun _ _ _ => .node rfl

theorem arrowParts (start : Nat) (isAsync : Bool) :
    Echo F s s' (Grammar.arrowParts g start isAsync)
      (Grammar.arrowParts g' (start + F.width) isAsync) (Node.shift F.width) := by
  have hname : ∀ t t', Echo F t t' ((fun p => [p]) <$> Grammar.identifier)
      ((fun p => [p]) <$> Grammar.identifier) (List.map (Node.shift F.width)) :=
    fun _ _ => map identifier fun _ => rfl
  exact .isAt <| .ite (fun _ => (parameters hg).bind fun _ _ _ => arrowEnd hg _ _ _) fun _ =>
    (hname _ _).bind fun _ _ _ => arrowEnd hg _ _ _

theorem arrowFunction :
    Echo F s s' (Grammar.arrowFunction g) (Grammar.arrowFunction g') (Node.shift F.width) := by
  rw [Grammar.arrowFunction_eq, Grammar.arrowFunction_eq]
  have hparts : ∀ isAsync : Bool, (isAsync = true → s.token.Significant) → Echo F s s' (do
      if isAsync then Grammar.advance
      Grammar.arrowParts g s.token.start.offset isAsync) (do
      if isAsync then Grammar.advance
      Grammar.arrowParts g' (s.token.start.offset + F.width) isAsync) (Node.shift F.width) :=
    fun _ hsig => .ite
      (fun h => (advance (hsig h)).bind fun _ _ _ => arrowParts hg _ _) fun _ => arrowParts hg _ _
  refine .position <| .current <| .conv (fun hs hsig => ?_) (hparts _ fun h => ?_)
  · have hnext : (s.token.within F).next.kind = .punct .arrow ↔
        s.token.next.kind = .punct .arrow :=
      Token.next_kind_within (hs.pos hsig) rfl (by decide)
    simp only [Token.kind_within, hnext, ne_eq]
    rfl
  · rw [Bool.and_eq_true, decide_eq_true_eq] at h
    exact .of_kind_eq h.1 rfl

theorem assignment :
    Echo F s s' (Grammar.assignment g) (Grammar.assignment g') (Node.shift F.width) := by
  refine .nested fun _ _ => .isAt <| .ite (fun _ => yieldExpression hg) fun _ => .atArrowFunction <|
    .ite (fun _ => arrowFunction hg) fun _ => .position <| (conditional hg).bind fun left t t' =>
      .kind <| .ite (fun h => ?_) fun _ => .pure rfl
  have hsig := Token.significant_of_isMark (Completes.isMark_of_isAssignment h)
  refine (advance hsig).bind fun _ _ _ => (hg _ _ _).bind fun _ _ _ => .node ?_
  split <;> simp [Form.shift, Node.toTarget_shift]

-- ---------------------------------------------------------------------------
-- Variables and expressions
-- ---------------------------------------------------------------------------

theorem declarator :
    Echo F s s' (Grammar.declarator g) (Grammar.declarator g') (Node.shift F.width) :=
  .position <| (hg _ _ _).bind fun _ _ _ => .accepting rfl
    (fun _ _ _ => (mapSome (hg _ _ _)).bind fun _ _ _ => .node rfl)
    fun _ => .look (fun _ _ => rfl) (.node rfl)

theorem variableDeclaration : Echo F s s' (Grammar.variableDeclaration g)
    (Grammar.variableDeclaration g') (Node.shift F.width) := by
  refine .position <| .kind ?_
  split
  · exact .fail
  · case _ kind hk =>
    exact (advance (LaysOn.significant_of_variableKind hk)).bind fun _ _ _ =>
      (separated fun _ _ => declarator hg).bind fun _ _ _ => .node rfl

/-- The declaration is made anew, for it reaches over its semicolon. -/
theorem variableStatement : Echo F s s' (Grammar.variableStatement g)
    (Grammar.variableStatement g') (Node.shift F.width) := by
  refine (allowIn (variableDeclaration hg)).bind fun d _ _ => endOfStatement.bind fun _ _ _ => ?_
  rw [Node.span_shift, Node.form_shift]
  exact .node rfl

theorem expressionStatement : Echo F s s' (Grammar.expressionStatement g)
    (Grammar.expressionStatement g') (Node.shift F.width) :=
  .position <| (allowIn (sequence fun _ _ => assignment hg)).bind fun _ _ _ =>
    endOfStatement.bind fun _ _ _ => .node rfl

-- ---------------------------------------------------------------------------
-- Branches and loops
-- ---------------------------------------------------------------------------

theorem ifStatement :
    Echo F s s' (Grammar.ifStatement g) (Grammar.ifStatement g') (Node.shift F.width) :=
  .position <| (expect rfl).bind fun _ _ _ => (inParentheses hg).bind fun _ _ _ =>
    (hg _ _ _).bind fun _ _ _ => .accepting rfl
      (fun _ _ _ => (mapSome (hg _ _ _)).bind fun _ _ _ => .node rfl)
      fun _ => .look (fun _ _ => rfl) (.node rfl)

theorem whileStatement :
    Echo F s s' (Grammar.whileStatement g) (Grammar.whileStatement g') (Node.shift F.width) :=
  .position <| (expect rfl).bind fun _ _ _ => (inParentheses hg).bind fun _ _ _ =>
    (hg _ _ _).bind fun _ _ _ => .node rfl

theorem doStatement :
    Echo F s s' (Grammar.doStatement g) (Grammar.doStatement g') (Node.shift F.width) :=
  .position <| (expect rfl).bind fun _ _ _ => (hg _ _ _).bind fun _ _ _ =>
    (expect rfl).bind fun _ _ _ => (inParentheses hg).bind fun _ _ _ =>
      (accept rfl).bind fun _ _ _ => .node rfl

theorem forFirst : Echo F s s' (Grammar.forFirst g) (Grammar.forFirst g')
    (Option.map (Node.shift F.width)) := by
  have hdeclaration : ∀ t t', Echo F t t'
      (some <$> Grammar.withIn true (Grammar.variableDeclaration g))
      (some <$> Grammar.withIn true (Grammar.variableDeclaration g'))
      (Option.map (Node.shift F.width)) :=
    fun _ _ => mapSome (withIn (variableDeclaration hg))
  have hexpression : ∀ t t', Echo F t t' (some <$> Grammar.withIn true (Grammar.expression g))
      (some <$> Grammar.withIn true (Grammar.expression g')) (Option.map (Node.shift F.width)) :=
    fun _ _ => mapSome (withIn (expression hg))
  refine .current ?_
  dsimp only [Token.kind_within]
  split
  · exact .pure rfl
  · exact hdeclaration _ _
  · exact hdeclaration _ _
  · refine .iteOf (fun hs hsig => ?_) (fun _ => hdeclaration _ _) fun _ => hexpression _ _
    rw [Token.beginsLetDeclaration_within (hs.pos hsig)]
  · exact hexpression _ _

theorem clauseBefore (ending : Punctuator) : Echo F s s' (Grammar.clauseBefore g ending)
    (Grammar.clauseBefore g' ending) (Option.map (Node.shift F.width)) := 
  .isAt <| .ite
    (fun _ => .look (fun _ _ => rfl) ((expect rfl).bind fun _ _ _ => .pure rfl)) fun _ =>
    (mapSome (allowIn (expression hg))).bind fun _ _ _ => (expect rfl).bind fun _ _ _ => .pure rfl

theorem forClauses {a : Nat} (first : Option Node) : Echo F s s' (Grammar.forClauses g a first)
    (Grammar.forClauses g' (a + F.width) (first.map (Node.shift F.width)))
    (Node.shift F.width) :=
  (expect rfl).bind fun _ _ _ => (clauseBefore hg _).bind fun _ _ _ =>
    (clauseBefore hg _).bind fun _ _ _ => (hg _ _ _).bind fun _ _ _ => .node rfl

theorem forOf {a : Nat} (hof : s.token.kind = .word .ofKw) (isAwait : Bool) (left : Node) :
    Echo F s s' (Grammar.forOf g a isAwait left)
      (Grammar.forOf g' (a + F.width) isAwait (left.shift F.width)) (Node.shift F.width) :=
  (advance (.of_kind_eq hof rfl)).bind fun _ _ _ => (allowIn (hg _ _ _)).bind fun _ _ _ =>
    (expect rfl).bind fun _ _ _ => (hg _ _ _).bind fun _ _ _ => .node <| by
      rw [Node.toTarget_shift]
      rfl

theorem forIn {a : Nat} (hin : s.token.kind = .word .inKw) (left : Node) :
    Echo F s s' (Grammar.forIn g a left) (Grammar.forIn g' (a + F.width) (left.shift F.width))
      (Node.shift F.width) :=
  (advance (.of_kind_eq hin rfl)).bind fun _ _ _ => (allowIn (expression hg)).bind fun _ _ _ =>
    (expect rfl).bind fun _ _ _ => (hg _ _ _).bind fun _ _ _ => .node <| by
      rw [Node.toTarget_shift]
      rfl

theorem forStatement :
    Echo F s s' (Grammar.forStatement g) (Grammar.forStatement g') (Node.shift F.width) := by
  refine .position <| (expect rfl).bind fun _ _ _ => (accept rfl).bind fun _ _ _ =>
    (expect rfl).bind fun _ _ _ => (forFirst hg).bind fun first t t' => .kind ?_
  generalize hk : t.token.kind = k
  cases first with
  | none =>
    dsimp only [Option.map_none]
    split
    · case _ h => cases h
    · case _ h => cases h
    · exact forClauses hg none
  | some left =>
    split
    · case _ h =>
      cases h
      exact forOf hg hk _ left
    · case _ h =>
      cases h
      exact forIn hg hk left
    · case _ hof hin =>
      split
      · exact absurd rfl (hof left rfl)
      · exact absurd rfl (hin left rfl)
      · exact forClauses hg (some left)

-- ---------------------------------------------------------------------------
-- Jumps
-- ---------------------------------------------------------------------------

theorem returnStatement :
    Echo F s s' (Grammar.returnStatement g) (Grammar.returnStatement g') (Node.shift F.width) := by
  have hend : ∀ (argument : Option Node) t t', Echo F t t' (do
      Grammar.endOfStatement
      Grammar.nodeFrom s.token.start.offset (.returnStatement argument)) (do
      Grammar.endOfStatement
      Grammar.nodeFrom (s.token.start.offset + F.width)
        (.returnStatement (argument.map (Node.shift F.width)))) (Node.shift F.width) :=
    fun _ _ _ => endOfStatement.bind fun _ _ _ => .node rfl
  exact .position <| (expect rfl).bind fun _ _ _ => .current <| .ite
    (fun _ => .look (fun _ _ => rfl) (hend none _ _)) fun _ =>
      (mapSome (allowIn (expression hg))).bind hend

omit hg in
theorem jumpStatement (hsig : s.token.Significant) (make : Option String → Form Node)
    (hmake : ∀ label, make label = (make label).shift F.width (Node.shift F.width)) :
    Echo F s s' (Grammar.jumpStatement make) (Grammar.jumpStatement make) (Node.shift F.width) := by
  have hend : ∀ label t t', Echo F t t' (do
      Grammar.endOfStatement
      Grammar.nodeFrom s.token.start.offset (make label)) (do
      Grammar.endOfStatement
      Grammar.nodeFrom (s.token.start.offset + F.width) (make label)) (Node.shift F.width) :=
    fun _ _ _ => endOfStatement.bind fun _ _ _ => .node (hmake _)
  refine .position <| (advance hsig).bind fun _ t t' => .current <| .ite (fun h => ?_) fun _ =>
    .look (fun _ _ => rfl) (hend none _ _)
  rw [Bool.and_eq_true] at h
  have hlabel : Echo F t t' (some <$> Grammar.takeValue) (some <$> Grammar.takeValue) id :=
    map (takeValue (.of_isBindingName h.1)) fun _ => rfl
  exact hlabel.bind hend

theorem throwStatement :
    Echo F s s' (Grammar.throwStatement g) (Grammar.throwStatement g') (Node.shift F.width) :=
  .position <| (expect rfl).bind fun _ _ _ => .afterLineBreak <| .ite (fun _ => .fail) fun _ =>
    (allowIn (expression hg)).bind fun _ _ _ => endOfStatement.bind fun _ _ _ => .node rfl

-- ---------------------------------------------------------------------------
-- Blocks with handlers, and switches
-- ---------------------------------------------------------------------------

theorem catchClause (hsig : s.token.Significant) :
    Echo F s s' (Grammar.catchClause g) (Grammar.catchClause g') (Node.shift F.width) :=
  .position <| (advance hsig).bind fun _ _ _ => .accepting rfl
    (fun _ _ _ => (hg _ _ _).bind fun _ _ _ => (expect rfl).bind fun _ _ _ =>
      .look (fun _ _ => rfl) ((block hg).bind fun _ _ _ => .node rfl))
    fun _ => .look (fun _ _ => rfl) ((block hg).bind fun _ _ _ => .node rfl)

theorem tryStatement :
    Echo F s s' (Grammar.tryStatement g) (Grammar.tryStatement g') (Node.shift F.width) := by
  have hend : ∀ (body : Node) (handler finalizer : Option Node) t t', Echo F t t' (do
      if handler.isNone && finalizer.isNone then Grammar.fail .handlerExpected
      Grammar.nodeFrom s.token.start.offset (.tryStatement body handler finalizer)) (do
      if (handler.map (Node.shift F.width)).isNone && (finalizer.map (Node.shift F.width)).isNone
        then Grammar.fail .handlerExpected
      Grammar.nodeFrom (s.token.start.offset + F.width) (.tryStatement (body.shift F.width)
        (handler.map (Node.shift F.width)) (finalizer.map (Node.shift F.width))))
      (Node.shift F.width) :=
    fun _ _ _ _ _ => .iteOf (fun _ _ => by rw [Option.isNone_map, Option.isNone_map])
      (fun _ => .fail) fun _ => .node rfl
  have hfinalizer : ∀ (body : Node) (handler : Option Node) t t', Echo F t t' (do
      let finalizer ← if ← Grammar.accept (.word .finallyKw) then some <$> Grammar.block g
        else Pure.pure none
      if handler.isNone && finalizer.isNone then Grammar.fail .handlerExpected
      Grammar.nodeFrom s.token.start.offset (.tryStatement body handler finalizer)) (do
      let finalizer ← if ← Grammar.accept (.word .finallyKw) then some <$> Grammar.block g'
        else Pure.pure none
      if (handler.map (Node.shift F.width)).isNone && finalizer.isNone
        then Grammar.fail .handlerExpected
      Grammar.nodeFrom (s.token.start.offset + F.width) (.tryStatement (body.shift F.width)
        (handler.map (Node.shift F.width)) finalizer)) (Node.shift F.width) :=
    fun _ _ _ _ => .accepting rfl (fun _ _ _ => (mapSome (block hg)).bind (hend _ _))
      fun _ => .look (fun _ _ => rfl) (hend _ _ none _ _)
  refine .position <| (expect rfl).bind fun _ _ _ => (block hg).bind fun body _ _ => .isAt <|
    .ite (fun h => ?_) fun _ => .look (fun _ _ => rfl) (hfinalizer _ none _ _)
  have hsig := Token.Significant.of_kind_eq (of_decide_eq_true h) rfl
  exact (mapSome (catchClause hg hsig)).bind (hfinalizer _)

theorem caseTest : Echo F s s' (Grammar.caseTest g) (Grammar.caseTest g')
    (Option.map (Node.shift F.width)) := by
  refine .kind ?_
  split
  · case _ hk =>
    exact (advance (.of_kind_eq hk rfl)).bind fun _ _ _ => mapSome (allowIn (expression hg))
  · case _ hk => exact (advance (.of_kind_eq hk rfl)).bind fun _ _ _ => .pure rfl
  · exact .fail

theorem switchCase :
    Echo F s s' (Grammar.switchCase g) (Grammar.switchCase g') (Node.shift F.width) :=
  .position <| (caseTest hg).bind fun _ _ _ => (expect rfl).bind fun _ _ _ =>
    (many fun _ _ => hg _ _ _).bind fun _ _ _ => .node rfl

theorem switchStatement :
    Echo F s s' (Grammar.switchStatement g) (Grammar.switchStatement g') (Node.shift F.width) :=
  .position <| (expect rfl).bind fun _ _ _ => (inParentheses hg).bind fun _ _ _ =>
    (expect rfl).bind fun _ _ _ => (many fun _ _ => switchCase hg).bind fun _ _ _ =>
      (expect rfl).bind fun _ _ _ => .node rfl

-- ---------------------------------------------------------------------------
-- All statements
-- ---------------------------------------------------------------------------

theorem withStatement :
    Echo F s s' (Grammar.withStatement g) (Grammar.withStatement g') (Node.shift F.width) :=
  .position <| (expect rfl).bind fun _ _ _ => (inParentheses hg).bind fun _ _ _ =>
    (hg _ _ _).bind fun _ _ _ => .node rfl

theorem labeledStatement :
    Echo F s s' (Grammar.labeledStatement g) (Grammar.labeledStatement g') (Node.shift F.width) :=
  .position <| bindingName.bind fun _ _ _ => (expect rfl).bind fun _ _ _ =>
    (hg _ _ _).bind fun _ _ _ => .node rfl

omit hg in
theorem debuggerStatement (hsig : s.token.Significant) :
    Echo F s s' Grammar.debuggerStatement Grammar.debuggerStatement (Node.shift F.width) :=
  .position <| (advance hsig).bind fun _ _ _ => endOfStatement.bind fun _ _ _ => .node rfl

theorem otherStatement : Echo F s s' (Grammar.otherStatement g s.token)
    (Grammar.otherStatement g' (s.token.within F)) (Node.shift F.width) := by
  refine .iteOf (fun hs hsig => ?_) (fun _ => labeledStatement hg) fun _ => expressionStatement hg
  have hnext : (s.token.within F).next.kind = .punct .colon ↔
      s.token.next.kind = .punct .colon :=
    Token.next_kind_within (hs.pos hsig) rfl (by decide)
  rw [Token.isBindingName_within, Token.beginsLabel, decide_eq_decide.2 hnext]
  rfl

theorem statement :
    Echo F s s' (Grammar.statement g) (Grammar.statement g') (Node.shift F.width) := by
  refine .nested fun s s' => .current ?_
  dsimp only [Token.kind_within]
  split
  · exact block hg
  · case _ hk => exact word (.of_kind_eq hk rfl) rfl
  · exact variableStatement hg
  · exact variableStatement hg
  · refine .iteOf (fun hs hsig => ?_) (fun _ => variableStatement hg) fun _ => otherStatement hg
    rw [Token.beginsLetDeclaration_within (hs.pos hsig)]
  · exact functionDeclaration hg false _
  · case _ hk =>
    refine .iteOf (fun hs hsig => ?_) (fun _ => ?_) fun _ => otherStatement hg
    · rw [Token.beginsAsyncFunction, Token.continuesWith_within (hs.pos hsig) rfl (by decide)]
      rfl
    · exact (advance (.of_kind_eq hk rfl)).bind fun _ _ _ => functionDeclaration hg true true
  · exact classDeclaration hg _
  · exact ifStatement hg
  · exact forStatement hg
  · exact whileStatement hg
  · exact doStatement hg
  · exact returnStatement hg
  · case _ hk => exact jumpStatement (.of_kind_eq hk rfl) _ fun _ => rfl
  · case _ hk => exact jumpStatement (.of_kind_eq hk rfl) _ fun _ => rfl
  · exact throwStatement hg
  · exact tryStatement hg
  · exact switchStatement hg
  · exact withStatement hg
  · case _ hk => exact debuggerStatement (.of_kind_eq hk rfl)
  · refine .iteOf (fun hs hsig => ?_) (fun _ => otherStatement hg) fun _ => .fail
    rw [Token.beginsImportExpression_within (hs.pos hsig)]
  · exact .fail
  · exact otherStatement hg

-- ---------------------------------------------------------------------------
-- The grammar
-- ---------------------------------------------------------------------------

theorem rule (phrase : Phrase) :
    Echo F s s' (Grammar.rule g phrase) (Grammar.rule g' phrase) (Node.shift F.width) := by
  cases phrase with
  | assignment => exact assignment hg
  | unary => exact unary hg
  | binary above => exact binary hg above
  | construction => exact construction hg
  | leftHandSide => exact leftHandSide hg
  | statement => exact statement hg
  | bindingTarget => exact bindingTarget hg

omit hg in
/-- The induction over the grammar. The rounds that are left do not matter, but they run out in
neither text. -/
theorem read (n n' : Nat) (phrase : Phrase) (s s' : State) :
    Echo F s s' (Grammar.read n phrase) (Grammar.read n' phrase) (Node.shift F.width) := by
  induction n generalizing n' phrase s s' with
  | zero => exact .exhausted
  | succ n ih =>
    cases n' with
    | zero => exact (rule (ih 0) phrase).exhausted_right
    | succ n' => exact rule (ih n') phrase

end Rules

end Echo

end ModuleBundler.Grammar

import ModuleBundler.Proofs.Forward

/-!
# ModuleBundler — the rules of the grammar go forward

A rule of the grammar is put together from a few parsers: looking at the state,
taking a token, failing, nesting, setting whether `in` is an operator, loops, and
one step after the other. What holds of these holds of every rule, and by induction
on the rounds that are given of every phrase.

The rules come in the order of the grammar. A rule that begins with a phrase inside it
is only read where a token was taken before.

* `Runs.rule` — from the phrases inside a rule to the rule.
* `Runs.read` — every phrase, however many rounds are given.
* `Runs.moduleItem` — the items of a module.
-/

namespace ModuleBundler.Grammar

namespace Runs

section Words

variable {text : String} {k : Nat} {stage : Stage} {α : Type} {s : State}

-- ---------------------------------------------------------------------------
-- Tokens and names
-- ---------------------------------------------------------------------------

theorem endOfStatement : Runs text k stage never s Grammar.endOfStatement :=
  .accepting rfl (fun _ => .pure rfl) fun _ =>
    .look <| .ite (fun _ => .pure rfl) fun _ => .fail nofun

theorem takeValue (hs : s.token.Significant) : Runs text k stage always s Grammar.takeValue :=
  .look <| .first (.advance hs) fun _ _ => .pure rfl

theorem bindingName : Runs text k stage always s Grammar.bindingName :=
  .look <| .ite (fun h => .takeValue (.of_isBindingName h)) fun _ => .fail nofun

theorem anyName : Runs text k stage always s Grammar.anyName :=
  .look <| .ite (fun h => .takeValue (.of_kind _ h rfl rfl)) fun _ => .fail nofun

theorem identifier : Runs text k stage always s Grammar.identifier :=
  .look <| .first .bindingName fun _ _ => .done

theorem stringText : Runs text k stage always s Grammar.stringText :=
  .look <| .ite (fun h => .takeValue (.of_kind_eq (of_decide_eq_true h) rfl)) fun _ => .fail nofun

theorem exportName : Runs text k stage always s Grammar.exportName :=
  .look <| .ite (fun h => .takeValue (.of_kind_eq (of_decide_eq_true h) rfl)) fun _ => .anyName

theorem word (hs : s.token.Significant) (form : Form Node) :
    Runs text k stage always s (Grammar.word form) :=
  .look <| .first (.advance hs) fun _ _ => .done

theorem literal (hs : s.token.Significant) (make : String → Literal) :
    Runs text k stage always s (Grammar.literal make) :=
  .look <| .first (.takeValue hs) fun _ _ => .done

theorem sequence {operand : Parser Node} (hoperand : ∀ t, Runs text k stage always t operand) :
    Runs text k stage always s (Grammar.sequence operand) := by
  refine .look <| .first (.separated hoperand) fun es t => ?_
  split
  · exact .pure rfl
  · exact .done

theorem optionalName (isRequired : Bool) :
    Runs text k stage never s (Grammar.optionalName isRequired) :=
  .look <| .ite (fun _ => .first .identifier fun _ _ => .pure rfl) fun _ =>
    .ite (fun _ => .fail nofun) fun _ => .pure rfl

theorem qualifier (word : Keyword) : Runs text k stage never s (Grammar.qualifier word) := by
  refine .look <| .ite (fun h => ?_) fun _ => .pure rfl
  rw [Bool.and_eq_true, decide_eq_true_eq] at h
  exact .first (.advance (.of_kind_eq h.1 rfl)) fun _ _ => .pure rfl

theorem accessorKind : Runs text k stage never s Grammar.accessorKind := by
  refine .look <| .ite (fun h => ?_) fun _ => .ite (fun h => ?_) fun _ => .pure rfl
  · rw [Bool.and_eq_true, decide_eq_true_eq] at h
    exact .first (.advance (.of_kind_eq h.1 rfl)) fun _ _ => .pure rfl
  · rw [Bool.and_eq_true, decide_eq_true_eq] at h
    exact .first (.advance (.of_kind_eq h.1 rfl)) fun _ _ => .pure rfl

theorem memberHead : Runs text k stage never s Grammar.memberHead :=
  .andThen (.qualifier _) fun _ _ => .andThen (.any (.accept rfl)) fun _ _ =>
    .ite (fun _ => .andThen (.pure rfl) fun _ _ => .pure rfl)
      fun _ => .andThen .accessorKind fun _ _ => .pure rfl

theorem memberName : Runs text k stage always s Grammar.memberName :=
  .look <| .look <| .ite (fun h => .word (.of_kind_eq h rfl) _)
    fun _ => .first .anyName fun _ _ => .done

theorem metaProperty (start : Nat) (object property : String) :
    Runs text k stage always s (Grammar.metaProperty start object property) :=
  .first .anyName fun _ _ => .ite (fun _ => .done) fun _ => .fail nofun

end Words

section Rules

variable {text : String} {k : Nat} {stage : Stage} {s : State} {g : Reading}
  (hg : ∀ phrase t, Runs text k .inside always t (g phrase))
include hg

-- ---------------------------------------------------------------------------
-- Keys, patterns and parameters
-- ---------------------------------------------------------------------------

theorem expression : Runs text k .inside always s (Grammar.expression g) :=
  .sequence fun _ => hg _ _

theorem propertyKey : Runs text k stage always s (Grammar.propertyKey g) := by
  refine .look ?_
  split
  · case _ hk => exact .first (.takeValue (.of_kind_eq hk rfl)) fun _ _ => .pure rfl
  · case _ hk => exact .first (.takeValue (.of_kind_eq hk rfl)) fun _ _ => .pure rfl
  · case _ hk => exact .first (.takeValue (.of_kind_eq hk rfl)) fun _ _ => .pure rfl
  · case _ hk => exact .first (.takeValue (.of_kind_eq hk rfl)) fun _ _ => .pure rfl
  · case _ hk =>
    exact .first (.advance (.of_kind_eq hk rfl)) fun _ _ => .first (.allowIn (hg _ _)) fun _ _ =>
      .first (.expect rfl) fun _ _ => .pure rfl
  · exact .first .anyName fun _ _ => .pure rfl

omit hg in
theorem withDefault (start : Nat) (target : Node) {value : Parser Node}
    (hvalue : ∀ t, Runs text k .inside never t value) :
    Runs text k stage never s (Grammar.withDefault start target value) :=
  .accepting rfl (fun _ => .andThen (hvalue _) fun _ _ => .done) fun _ => .pure rfl

theorem bindingElement : Runs text k .inside always s (Grammar.bindingElement g) :=
  .look <| .first (hg _ _) fun _ _ => .withDefault _ _ fun _ => .any (.allowIn (hg _ _))

theorem restElement : Runs text k stage always s (Grammar.restElement g) :=
  .look <| .first (.expect rfl) fun _ _ => .first (hg _ _) fun _ _ => .done

theorem patternProperty : Runs text k stage always s (Grammar.patternProperty g) := by
  refine .look <| .look <| .first (propertyKey hg) fun key t =>
    .accepting rfl (fun _ => ?_) fun _ => .ite (fun _ => .look ?_) fun _ => .fail nofun
  · exact .first (bindingElement hg) fun _ _ => .done
  · exact .andThen (.withDefault _ _ fun _ => .any (.allowIn (hg _ _))) fun _ _ => .done

theorem propertyEntry : Runs text k stage always s (Grammar.propertyEntry g) :=
  .look <| .ite (fun _ => .first (restElement hg) fun _ _ => .pure rfl)
    fun _ => .first (patternProperty hg) fun _ _ => .pure rfl

theorem objectPattern : Runs text k stage always s (Grammar.objectPattern g) :=
  .look <| .first (.expect rfl) fun _ _ => .andThen (.listUntil fun _ => propertyEntry hg)
    fun _ _ => .first (.expect rfl) fun _ _ => .done

theorem elementEntry : Runs text k .inside always s (Grammar.elementEntry g) :=
  .accepting rfl (fun _ => .pure rfl) fun _ =>
    .look <| .ite (fun _ => .first (restElement hg) fun _ _ => .pure rfl)
      fun _ => .first (bindingElement hg) fun _ _ => .pure rfl

theorem arrayPattern : Runs text k stage always s (Grammar.arrayPattern g) :=
  .look <| .first (.expect rfl) fun _ _ => .andThen (.listUntil fun _ => elementEntry hg)
    fun _ _ => .first (.expect rfl) fun _ _ => .done

theorem bindingTarget : Runs text k stage always s (Grammar.bindingTarget g) := by
  refine .nested (.look ?_)
  split
  · exact objectPattern hg
  · exact arrayPattern hg
  · exact .identifier

theorem parameterEntry : Runs text k .inside always s (Grammar.parameterEntry g) :=
  .look <| .ite (fun _ => .first (restElement hg) fun _ _ => .pure rfl)
    fun _ => .first (bindingElement hg) fun _ _ => .pure rfl

theorem parameters : Runs text k stage always s (Grammar.parameters g) :=
  .first (.expect rfl) fun _ _ =>
    .andThen (.allowIn (.listUntil fun _ => parameterEntry hg)) fun _ _ =>
      .first (.expect rfl) fun _ _ => .pure rfl

-- ---------------------------------------------------------------------------
-- Functions and classes
-- ---------------------------------------------------------------------------

theorem bracedStatement : Runs text k .inside always s (Grammar.bracedStatement g) :=
  .look <| .ite (fun _ => .fail nofun) fun _ => hg _ _

theorem bracedStatements : Runs text k stage always s (Grammar.bracedStatements g) :=
  .first (.expect rfl) fun _ _ => .andThen (.many fun _ => bracedStatement hg) fun _ _ =>
    .first (.expect rfl) fun _ _ => .pure rfl

theorem block : Runs text k stage always s (Grammar.block g) :=
  .look <| .first (bracedStatements hg) fun _ _ => .done

theorem functionBody : Runs text k stage always s (Grammar.functionBody g) :=
  .nested (.allowIn (block hg))

theorem functionParts (isAsync nameRequired : Bool) :
    Runs text k stage always s (Grammar.functionParts g isAsync nameRequired) :=
  .first (.expect rfl) fun _ _ => .andThen (.any (.accept rfl)) fun _ _ =>
    .andThen (.optionalName _) fun _ _ => .first (parameters hg) fun _ _ =>
      .first (functionBody hg) fun _ _ => .pure rfl

theorem functionDeclaration (start : Nat) (isAsync nameRequired : Bool) :
    Runs text k stage always s (Grammar.functionDeclaration g start isAsync nameRequired) :=
  .first (functionParts hg _ _) fun _ _ => .done

theorem functionExpression (start : Nat) (isAsync : Bool) :
    Runs text k stage always s (Grammar.functionExpression g start isAsync) :=
  .first (functionParts hg _ _) fun _ _ => .done

theorem methodFunction (isAsync isGenerator : Bool) :
    Runs text k stage always s (Grammar.methodFunction g isAsync isGenerator) :=
  .look <| .first (parameters hg) fun _ _ => .first (functionBody hg) fun _ _ => .done

theorem methodOrField (start : Nat) (isStatic : Bool) :
    Runs text k stage always s (Grammar.methodOrField g start isStatic) := by
  refine .andThen .memberHead fun head t => .first (propertyKey hg) fun key t => ?_
  have hend : ∀ value t, Runs text k .inside never t (do
      Grammar.endOfStatement
      Grammar.nodeFrom start (.propertyDefinition key value isStatic)) :=
    fun _ _ => .andThen .endOfStatement fun _ _ => .done
  refine .look <| .ite (fun _ => ?_) fun _ => .ite (fun _ => .fail nofun) fun _ =>
    .accepting rfl (fun _ => ?_) fun _ => ?_
  · exact .first (methodFunction hg _ _) fun _ _ => .done
  · exact .first (.map (hg _ _) some) hend
  · exact .andThen (.pure rfl) hend

theorem classMember : Runs text k stage always s (Grammar.classMember g) := by
  refine .look <| .look <| .ite (fun h => ?_) fun _ => ?_
  · rw [Bool.and_eq_true, decide_eq_true_eq] at h
    exact .first (.advance (.of_kind_eq h.1 rfl)) fun _ _ =>
      .first (bracedStatements hg) fun _ _ => .done
  · exact .andThen (.qualifier _) fun isStatic _ => methodOrField hg _ isStatic

theorem bracedMember : Runs text k stage always s (Grammar.bracedMember g) :=
  .accepting rfl (fun _ => .pure rfl) fun _ => .look <| .ite (fun _ => .fail nofun) fun _ =>
    .first (classMember hg) fun _ _ => .pure rfl

theorem classBody : Runs text k stage always s (Grammar.classBody g) :=
  .first (.expect rfl) fun _ _ => .andThen (.many fun _ => bracedMember hg) fun _ _ =>
    .first (.expect rfl) fun _ _ => .pure rfl

theorem classParts (nameRequired : Bool) :
    Runs text k stage always s (Grammar.classParts g nameRequired) := by
  refine .first (.expect rfl) fun _ _ => .andThen (.optionalName _) fun name _ => ?_
  have hbody : ∀ (superClass : Option Node) t, Runs text k .inside never t (do
      let members ← Grammar.nested (Grammar.allowIn (Grammar.classBody g))
      return (⟨name, superClass, members⟩ : ClassParts Node)) :=
    fun _ _ => .first (.nested (.allowIn (classBody hg))) fun _ _ => .pure rfl
  refine .accepting rfl (fun _ => ?_) fun _ => ?_
  · exact .first (.map (hg _ _) some) hbody
  · exact .andThen (.pure rfl) hbody

theorem classDeclaration (nameRequired : Bool) :
    Runs text k stage always s (Grammar.classDeclaration g nameRequired) :=
  .look <| .first (classParts hg _) fun _ _ => .done

theorem classExpression : Runs text k stage always s (Grammar.classExpression g) :=
  .look <| .first (classParts hg _) fun _ _ => .done

-- ---------------------------------------------------------------------------
-- Primary expressions
-- ---------------------------------------------------------------------------

theorem template (hs : s.token.Significant) :
    Runs text k stage always s (Grammar.templateLiteral g) :=
  .templateLiteral (fun _ => expression hg) hs

theorem inParentheses : Runs text k stage always s (Grammar.inParentheses g) :=
  .first (.expect rfl) fun _ _ => .first (.allowIn (expression hg)) fun _ _ =>
    .first (.expect rfl) fun _ _ => .pure rfl

theorem parenthesized : Runs text k stage always s (Grammar.parenthesized g) :=
  .look <| .first (inParentheses hg) fun _ _ => .done

theorem spreadable : Runs text k .inside always s (Grammar.spreadable g) :=
  .look <| .accepting rfl (fun _ => .first (hg _ _) fun _ _ => .done) fun _ => hg _ _

theorem literalEntry : Runs text k .inside always s (Grammar.literalEntry g) :=
  .accepting rfl (fun _ => .pure rfl) fun _ =>
    .first (.allowIn (spreadable hg)) fun _ _ => .pure rfl

theorem arrayLiteral : Runs text k stage always s (Grammar.arrayLiteral g) :=
  .look <| .first (.expect rfl) fun _ _ => .andThen (.listUntil fun _ => literalEntry hg)
    fun _ _ => .first (.expect rfl) fun _ _ => .done

theorem argument :
    Runs text k .inside always s (Entry.plain <$> Grammar.allowIn (Grammar.spreadable g)) :=
  .map (.allowIn (spreadable hg)) _

theorem arguments : Runs text k stage always s (Grammar.arguments g) :=
  .first (.expect rfl) fun _ _ => .andThen (.listUntil fun _ => argument hg) fun _ _ =>
    .first (.expect rfl) fun _ _ => .pure rfl

theorem propertyAfter (start : Nat) (head : MemberHead) :
    Runs text k stage always s (Grammar.propertyAfter g start head) := by
  refine .look <| .look <| .first (propertyKey hg) fun key t => .look <|
    .ite (fun _ => ?_) fun _ => .ite (fun _ => .fail nofun) fun _ =>
      .accepting rfl (fun _ => ?_) fun _ => .ite (fun _ => .look ?_) fun _ => .fail nofun
  · exact .first (methodFunction hg _ _) fun _ _ => .done
  · exact .first (hg _ _) fun _ _ => .done
  · exact .andThen (.withDefault _ _ fun _ => .any (hg _ _)) fun _ _ => .done

theorem objectProperty : Runs text k stage always s (Grammar.objectProperty g) :=
  .look <| .accepting rfl (fun _ => .first (hg _ _) fun _ _ => .done)
    fun _ => .andThen .memberHead fun head _ => propertyAfter hg _ head

theorem literalProperty :
    Runs text k stage always s (Entry.plain <$> Grammar.allowIn (Grammar.objectProperty g)) :=
  .map (.allowIn (objectProperty hg)) _

theorem objectLiteral : Runs text k stage always s (Grammar.objectLiteral g) :=
  .look <| .first (.expect rfl) fun _ _ => .andThen (.listUntil fun _ => literalProperty hg)
    fun _ _ => .first (.expect rfl) fun _ _ => .done

theorem primary : Runs text k stage always s (Grammar.primary g) := by
  refine .look <| .look ?_
  split
  · case _ hk => exact .word (.of_kind_eq hk rfl) _
  · case _ hk => exact .word (.of_kind_eq hk rfl) _
  · case _ hk => exact .word (.of_kind_eq hk rfl) _
  · case _ hk => exact .word (.of_kind_eq hk rfl) _
  · case _ hk => exact .literal (.of_kind_eq hk rfl) _
  · case _ hk => exact .literal (.of_kind_eq hk rfl) _
  · case _ hk => exact .literal (.of_kind_eq hk rfl) _
  · case _ hk => exact .word (.of_kind_eq hk rfl) _
  · exact .regex
  · exact .regex
  · case _ hk => exact template hg (.of_kind_eq hk rfl)
  · case _ hk => exact template hg (.of_kind_eq hk rfl)
  · exact parenthesized hg
  · exact arrayLiteral hg
  · exact objectLiteral hg
  · exact functionExpression hg _ _
  · exact classExpression hg
  · case _ hk =>
    refine .ite (fun _ => ?_) fun _ => .identifier
    exact .first (.advance (.of_kind_eq hk rfl)) fun _ _ => .any (functionExpression hg _ _)
  · exact .ite (fun _ => .identifier) fun _ => .fail nofun

-- ---------------------------------------------------------------------------
-- Expressions
-- ---------------------------------------------------------------------------

theorem computedMember : Runs text k stage always s (Grammar.computedMember g) :=
  .first (.expect rfl) fun _ _ => .first (.allowIn (expression hg)) fun _ _ =>
    .first (.expect rfl) fun _ _ => .pure rfl

theorem optionalAccess (start : Nat) (e : Node) :
    Runs text k stage always s (Grammar.optionalAccess g start e) := by
  refine .look ?_
  split
  · exact .first (arguments hg) fun _ _ => .done
  · exact .first (computedMember hg) fun _ _ => .done
  · exact .first .memberName fun _ _ => .done

/-- A round goes on only after an access, whose first token is known. -/
theorem accessRound (start : Nat) (calls : Bool) (x : Bool × Node) :
    Runs text k stage Sum.isLeft s (Grammar.accessRound g start calls x) := by
  refine .look ?_
  split
  · case _ hk =>
    exact .first (.advance (.of_kind_eq hk rfl)) fun _ _ => .first .memberName fun _ _ =>
      .look (.pure rfl)
  · case _ hk =>
    refine .ite (fun _ => ?_) fun _ => .pure rfl
    exact .first (.advance (.of_kind_eq hk rfl)) fun _ _ =>
      .first (optionalAccess hg _ _) fun _ _ => .pure rfl
  · exact .first (computedMember hg) fun _ _ => .look (.pure rfl)
  · case _ hk =>
    refine .ite (fun _ => .fail nofun) fun _ => ?_
    exact .first (template hg (.of_kind_eq hk rfl)) fun _ _ => .look (.pure rfl)
  · case _ hk =>
    refine .ite (fun _ => .fail nofun) fun _ => ?_
    exact .first (template hg (.of_kind_eq hk rfl)) fun _ _ => .look (.pure rfl)
  · refine .ite (fun _ => ?_) fun _ => .pure rfl
    exact .first (arguments hg) fun _ _ => .look (.pure rfl)
  · exact .pure rfl

theorem accesses {n : Nat} (hn : s.ahead < n) (start : Nat) (calls isOptional : Bool)
    (e : Node) : Runs text k .inside never s (Grammar.accesses g start calls n isOptional e) := by
  rw [accesses_eq]
  exact .loop (fun x _ => accessRound hg start calls x) hn _

theorem construction : Runs text k stage always s (Grammar.construction g) := by
  refine .look <| .first (.expect rfl) fun _ _ =>
    .accepting rfl (fun _ => .any (.metaProperty _ _ _)) fun _ => .look <| .look ?_
  have hrest : ∀ calleeStart start (callee : Node) t, Runs text k .inside never t (do
      let callee ← Grammar.accesses g calleeStart false (← Grammar.rounds) false callee
      let values ← if ← Grammar.isAt (.punct .openParen) then Grammar.arguments g
        else Pure.pure []
      Grammar.nodeFrom start (.newExpression callee values)) := by
    refine fun _ _ _ _ => .look <| .andThen (accesses hg (Nat.lt_succ_self _) _ _ _ _) fun _ _ =>
      .look <| .ite (fun _ => ?_) fun _ => ?_
    · exact .first (arguments hg) fun _ _ => .done
    · exact .andThen (.pure rfl) fun _ _ => .done
  split
  · exact .first (hg _ _) (hrest _ _)
  · case _ hk => exact .first (.word (.of_kind_eq hk rfl) _) (hrest _ _)
  · exact .first (primary hg) (hrest _ _)

theorem importExpression : Runs text k stage always s (Grammar.importExpression g) := by
  refine .look <| .first (.expect rfl) fun _ _ =>
    .accepting rfl (fun _ => .any (.metaProperty _ _ _)) fun _ =>
      .first (.expect rfl) fun _ _ => .first (.allowIn (hg _ _)) fun source _ => ?_
  have hend : ∀ start t, Runs text k .inside never t (do
      Grammar.expect (.punct .closeParen)
      Grammar.nodeFrom start (.importExpression source)) :=
    fun _ _ => .first (.expect rfl) fun _ _ => .done
  refine .accepting rfl (fun _ => .look <| .ite (fun _ => ?_) fun _ => hend _ _) fun _ => hend _ _
  exact .first (.allowIn (hg _ _)) fun _ _ => .andThen (.any (.accept rfl)) fun _ _ => hend _ _

theorem leftHandSide : Runs text k stage always s (Grammar.leftHandSide g) := by
  refine .look <| .look ?_
  have hrest : ∀ start (e : Node) t, Runs text k .inside never t (do
      Grammar.accesses g start true (← Grammar.rounds) false e) :=
    fun _ _ _ => .look (accesses hg (Nat.lt_succ_self _) _ _ _ _)
  split
  · exact .first (construction hg) (hrest _)
  · case _ hk => exact .first (.word (.of_kind_eq hk rfl) _) (hrest _)
  · exact .first (importExpression hg) (hrest _)
  · exact .first (primary hg) (hrest _)

theorem updated : Runs text k stage always s (Grammar.updated g) := by
  refine .look <| .first (leftHandSide hg) fun _ _ => .look <| .ite (fun h => ?_) fun _ => .pure rfl
  rw [Bool.and_eq_true] at h
  exact .first (.advance (.of_kind isUpdateOperator h.1 rfl rfl)) fun _ _ => .done

theorem unary : Runs text k stage always s (Grammar.unary g) := by
  refine .nested <| .look <| .look ?_
  have hoperand : ∀ {s : State} (form : Node → Form Node) start, s.token.Significant →
      Runs text k stage always s (do
        Grammar.advance
        Grammar.nodeFrom start (form (← g .unary))) :=
    fun _ _ hs => .first (.advance hs) fun _ _ => .first (hg _ _) fun _ _ => .done
  refine .ite (fun h => hoperand _ _ (.of_kind isUnaryOperator h rfl rfl)) fun _ =>
    .ite (fun h => hoperand _ _ (.of_kind isUpdateOperator h rfl rfl)) fun _ =>
      .ite (fun h => hoperand _ _ (.of_kind_eq h rfl)) fun _ => updated hg

/-- A round goes on only after an operator that binds. -/
theorem operationRound (start above : Nat) (left : Node) :
    Runs text k stage Sum.isLeft s (Grammar.operationRound g start above left) := by
  refine .look <| .look <| .ite (fun h => ?_) fun _ => .pure rfl
  rw [Bool.and_eq_true] at h
  exact .first (.advance (.of_kind (fun k => decide (above < precedence k)) h.1 rfl rfl))
    fun _ _ => .first (hg _ _) fun _ _ => .look (.pure rfl)

theorem binary (above : Nat) : Runs text k stage always s (Grammar.binary g above) := by
  refine .look <| .first (unary hg) fun left _ => .look ?_
  rw [operations_eq]
  exact .loop (fun x _ => operationRound hg _ above x) (Nat.lt_succ_self _) _

theorem conditional : Runs text k stage always s (Grammar.conditional g) :=
  .look <| .first (binary hg 0) fun _ _ =>
    .accepting rfl
      (fun _ => .first (.allowIn (hg _ _)) fun _ _ => .first (.expect rfl) fun _ _ =>
        .first (hg _ _) fun _ _ => .done)
      fun _ => .pure rfl

theorem yieldExpression : Runs text k stage always s (Grammar.yieldExpression g) := by
  have hvalue : ∀ start delegates t, Runs text k .inside never t (do
      Grammar.nodeFrom start (.yieldExpression (some (← g .assignment)) delegates)) :=
    fun _ _ _ => .first (hg _ _) fun _ _ => .done
  exact .look <| .first (.expect rfl) fun _ _ => .look <| .ite (fun _ => .done) fun _ =>
    .accepting rfl (fun _ => hvalue _ _ _) fun _ => .look <|
      .ite (fun _ => hvalue _ _ _) fun _ => .done

theorem arrowBody : Runs text k .inside always s (Grammar.arrowBody g) :=
  .look <| .ite (fun _ => functionBody hg) fun _ => hg _ _

theorem arrowEnd (start : Nat) (isAsync : Bool) (params : List Node) :
    Runs text k .inside never s (Grammar.arrowEnd g start isAsync params) := by
  have hbody : ∀ t, Runs text k .inside never t (do
      Grammar.expect (.punct .arrow)
      let body ← Grammar.arrowBody g
      Grammar.nodeFrom start (.arrowFunction params body isAsync)) :=
    fun _ => .first (.expect rfl) fun _ _ => .first (arrowBody hg) fun _ _ => .done
  exact .look <| .ite (fun _ => .first (.fail nofun) fun _ _ => hbody _) fun _ => hbody _

theorem arrowParts (start : Nat) (isAsync : Bool) :
    Runs text k stage always s (Grammar.arrowParts g start isAsync) :=
  .look <| .ite (fun _ => .first (parameters hg) fun _ _ => arrowEnd hg _ _ _)
    fun _ => .first (.map .identifier _) fun _ _ => arrowEnd hg _ _ _

theorem arrowFunction : Runs text k stage always s (Grammar.arrowFunction g) := by
  refine .look <| .look <| .ite (fun h => ?_) fun _ => arrowParts hg _ _
  rw [Bool.and_eq_true, decide_eq_true_eq] at h
  exact .first (.advance (.of_kind_eq h.1 rfl)) fun _ _ => .any (arrowParts hg _ _)

theorem assignment : Runs text k stage always s (Grammar.assignment g) := by
  refine .nested <| .look <| .ite (fun _ => yieldExpression hg) fun _ => .look <|
    .ite (fun _ => arrowFunction hg) fun _ => .look <| .first (conditional hg) fun _ _ =>
      .look <| .ite (fun h => ?_) fun _ => .pure rfl
  exact .first (.advance (.of_kind TokenKind.isAssignment h rfl rfl)) fun _ _ =>
    .first (hg _ _) fun _ _ => .done

-- ---------------------------------------------------------------------------
-- Statements
-- ---------------------------------------------------------------------------

theorem declarator : Runs text k .inside always s (Grammar.declarator g) :=
  .look <| .first (hg _ _) fun _ _ =>
    .accepting rfl (fun _ => .first (.map (hg _ _) some) fun _ _ => .done)
      fun _ => .andThen (.pure rfl) fun _ _ => .done

omit hg in
theorem significant_of_variableKind {t : Token} {kind : VariableKind}
    (h : variableKind? t.kind = some kind) : t.Significant :=
  .of_kind (fun k => (variableKind? k).isSome) (by rw [h]; rfl) rfl rfl

theorem variableDeclaration : Runs text k stage always s (Grammar.variableDeclaration g) := by
  refine .look <| .look ?_
  split
  · exact .fail nofun
  · case _ hk =>
    exact .first (.advance (significant_of_variableKind hk)) fun _ _ =>
      .first (.separated fun _ => declarator hg) fun _ _ => .done

theorem variableStatement : Runs text k stage always s (Grammar.variableStatement g) :=
  .first (.allowIn (variableDeclaration hg)) fun _ _ => .andThen .endOfStatement fun _ _ => .done

theorem expressionStatement : Runs text k stage always s (Grammar.expressionStatement g) :=
  .look <| .first (.allowIn (.sequence fun _ => assignment hg)) fun _ _ =>
    .andThen .endOfStatement fun _ _ => .done

theorem ifStatement : Runs text k stage always s (Grammar.ifStatement g) :=
  .look <| .first (.expect rfl) fun _ _ => .first (inParentheses hg) fun _ _ =>
    .first (hg _ _) fun _ _ =>
      .accepting rfl (fun _ => .first (.map (hg _ _) some) fun _ _ => .done)
        fun _ => .andThen (.pure rfl) fun _ _ => .done

theorem whileStatement : Runs text k stage always s (Grammar.whileStatement g) :=
  .look <| .first (.expect rfl) fun _ _ => .first (inParentheses hg) fun _ _ =>
    .first (hg _ _) fun _ _ => .done

theorem doStatement : Runs text k stage always s (Grammar.doStatement g) :=
  .look <| .first (.expect rfl) fun _ _ => .first (hg _ _) fun _ _ =>
    .first (.expect rfl) fun _ _ => .first (inParentheses hg) fun _ _ =>
      .andThen (.any (.accept rfl)) fun _ _ => .done

theorem forFirst : Runs text k .inside never s (Grammar.forFirst g) := by
  refine .look ?_
  have hdeclaration : ∀ t, Runs text k .inside never t
      (some <$> Grammar.withIn true (Grammar.variableDeclaration g)) :=
    fun _ => .any (.map (.withIn (variableDeclaration hg)) some)
  have hexpression : ∀ t, Runs text k .inside never t
      (some <$> Grammar.withIn true (Grammar.expression g)) :=
    fun _ => .any (.map (.withIn (expression hg)) some)
  split
  · exact .pure rfl
  · exact hdeclaration _
  · exact hdeclaration _
  · exact .ite (fun _ => hdeclaration _) fun _ => hexpression _
  · exact hexpression _

theorem clauseBefore (ending : Punctuator) :
    Runs text k .inside always s (Grammar.clauseBefore g ending) := by
  refine .look <| .ite (fun _ => .andThen (.pure rfl) fun _ _ => ?_) fun _ =>
    .first (.map (.allowIn (expression hg)) some) fun _ _ => ?_
  · exact .first (.expect rfl) fun _ _ => .pure rfl
  · exact .first (.expect rfl) fun _ _ => .pure rfl

theorem forClauses (start : Nat) (first : Option Node) :
    Runs text k .inside always s (Grammar.forClauses g start first) :=
  .first (.expect rfl) fun _ _ => .first (clauseBefore hg _) fun _ _ =>
    .first (clauseBefore hg _) fun _ _ => .first (hg _ _) fun _ _ => .done

theorem forOf (hs : s.token.Significant) (start : Nat) (isAwait : Bool) (left : Node) :
    Runs text k stage always s (Grammar.forOf g start isAwait left) :=
  .first (.advance hs) fun _ _ => .first (.allowIn (hg _ _)) fun _ _ =>
    .first (.expect rfl) fun _ _ => .first (hg _ _) fun _ _ => .done

theorem forIn (hs : s.token.Significant) (start : Nat) (left : Node) :
    Runs text k stage always s (Grammar.forIn g start left) :=
  .first (.advance hs) fun _ _ => .first (.allowIn (expression hg)) fun _ _ =>
    .first (.expect rfl) fun _ _ => .first (hg _ _) fun _ _ => .done

theorem forStatement : Runs text k stage always s (Grammar.forStatement g) := by
  refine .look <| .first (.expect rfl) fun _ _ => .andThen (.any (.accept rfl)) fun isAwait _ =>
    .first (.expect rfl) fun _ _ => .andThen (forFirst hg) fun first _ => .look ?_
  split
  · case _ hk => exact .any (forOf hg (.of_kind_eq hk rfl) _ _ _)
  · case _ hk => exact .any (forIn hg (.of_kind_eq hk rfl) _ _)
  · exact .any (forClauses hg _ _)

theorem returnStatement : Runs text k stage always s (Grammar.returnStatement g) := by
  have hend : ∀ start argument t, Runs text k .inside never t (do
      Grammar.endOfStatement
      Grammar.nodeFrom start (.returnStatement argument)) :=
    fun _ _ _ => .andThen .endOfStatement fun _ _ => .done
  exact .look <| .first (.expect rfl) fun _ _ => .look <|
    .ite (fun _ => .andThen (.pure rfl) (hend _)) fun _ =>
      .first (.map (.allowIn (expression hg)) some) (hend _)

omit hg in
theorem jumpStatement (hs : s.token.Significant) (make : Option String → Form Node) :
    Runs text k stage always s (Grammar.jumpStatement make) := by
  have hend : ∀ start label t, Runs text k .inside never t (do
      Grammar.endOfStatement
      Grammar.nodeFrom start (make label)) :=
    fun _ _ _ => .andThen .endOfStatement fun _ _ => .done
  refine .look <| .first (.advance hs) fun _ _ => .look <| .ite (fun h => ?_) fun _ =>
    .andThen (.pure rfl) (hend _)
  rw [Bool.and_eq_true] at h
  exact .first (.map (.takeValue (.of_isBindingName h.1)) some) (hend _)

theorem throwStatement : Runs text k stage always s (Grammar.throwStatement g) := by
  have hvalue : ∀ start t, Runs text k .inside never t (do
      let argument ← Grammar.allowIn (Grammar.expression g)
      Grammar.endOfStatement
      Grammar.nodeFrom start (.throwStatement argument)) :=
    fun _ _ => .first (.allowIn (expression hg)) fun _ _ => .andThen .endOfStatement fun _ _ => .done
  exact .look <| .first (.expect rfl) fun _ _ => .look <|
    .ite (fun _ => .first (.fail nofun) fun _ _ => hvalue _ _) fun _ => hvalue _ _

theorem catchClause (hs : s.token.Significant) :
    Runs text k stage always s (Grammar.catchClause g) := by
  have hbody : ∀ start param t, Runs text k .inside never t (do
      let body ← Grammar.block g
      Grammar.nodeFrom start (.catchClause param body)) :=
    fun _ _ _ => .first (block hg) fun _ _ => .done
  exact .look <| .first (.advance hs) fun _ _ =>
    .accepting rfl
      (fun _ => .first (hg _ _) fun _ _ => .first (.expect rfl) fun _ _ =>
        .andThen (.pure rfl) (hbody _))
      fun _ => .andThen (.pure rfl) (hbody _)

theorem tryStatement : Runs text k stage always s (Grammar.tryStatement g) := by
  have hend : ∀ start body (handler finalizer : Option Node) t, Runs text k .inside never t (do
      if handler.isNone && finalizer.isNone then Grammar.fail .handlerExpected
      Grammar.nodeFrom start (.tryStatement body handler finalizer)) :=
    fun _ _ _ _ _ => .ite (fun _ => .first (.fail nofun) fun _ _ => .done) fun _ => .done
  have hfinalizer : ∀ start body (handler : Option Node) t, Runs text k .inside never t (do
      let finalizer ← if ← Grammar.accept (.word .finallyKw) then some <$> Grammar.block g
        else Pure.pure none
      if handler.isNone && finalizer.isNone then Grammar.fail .handlerExpected
      Grammar.nodeFrom start (.tryStatement body handler finalizer)) :=
    fun _ _ _ _ => .accepting rfl (fun _ => .first (.map (block hg) some) (hend _ _ _))
      fun _ => .andThen (.pure rfl) (hend _ _ _)
  refine .look <| .first (.expect rfl) fun _ _ => .first (block hg) fun _ _ => .look <|
    .ite (fun h => ?_) fun _ => .andThen (.pure rfl) (hfinalizer _ _)
  exact .first (.map (catchClause hg (.of_kind_eq (of_decide_eq_true h) rfl)) some)
    (hfinalizer _ _)

theorem caseTest : Runs text k stage always s (Grammar.caseTest g) := by
  refine .look ?_
  split
  · case _ hk =>
    exact .first (.advance (.of_kind_eq hk rfl)) fun _ _ =>
      .any (.map (.allowIn (expression hg)) some)
  · case _ hk => exact .first (.advance (.of_kind_eq hk rfl)) fun _ _ => .pure rfl
  · exact .fail nofun

theorem switchCase : Runs text k stage always s (Grammar.switchCase g) :=
  .look <| .first (caseTest hg) fun _ _ => .first (.expect rfl) fun _ _ =>
    .andThen (.many fun _ => hg _ _) fun _ _ => .done

theorem switchStatement : Runs text k stage always s (Grammar.switchStatement g) :=
  .look <| .first (.expect rfl) fun _ _ => .first (inParentheses hg) fun _ _ =>
    .first (.expect rfl) fun _ _ => .andThen (.many fun _ => switchCase hg) fun _ _ =>
      .first (.expect rfl) fun _ _ => .done

theorem withStatement : Runs text k stage always s (Grammar.withStatement g) :=
  .look <| .first (.expect rfl) fun _ _ => .first (inParentheses hg) fun _ _ =>
    .first (hg _ _) fun _ _ => .done

theorem labeledStatement : Runs text k stage always s (Grammar.labeledStatement g) :=
  .look <| .first .bindingName fun _ _ => .first (.expect rfl) fun _ _ =>
    .first (hg _ _) fun _ _ => .done

omit hg in
theorem debuggerStatement (hs : s.token.Significant) :
    Runs text k stage always s Grammar.debuggerStatement :=
  .look <| .first (.advance hs) fun _ _ => .andThen .endOfStatement fun _ _ => .done

theorem otherStatement (t : Token) : Runs text k stage always s (Grammar.otherStatement g t) :=
  .ite (fun _ => labeledStatement hg) fun _ => expressionStatement hg

theorem statement : Runs text k stage always s (Grammar.statement g) := by
  refine .nested (.look ?_)
  split
  · exact block hg
  · case _ hk => exact .word (.of_kind_eq hk rfl) _
  · exact variableStatement hg
  · exact variableStatement hg
  · exact .ite (fun _ => variableStatement hg) fun _ => otherStatement hg _
  · exact functionDeclaration hg _ _ _
  · case _ hk =>
    refine .ite (fun _ => ?_) fun _ => otherStatement hg _
    exact .first (.advance (.of_kind_eq hk rfl)) fun _ _ => .any (functionDeclaration hg _ _ _)
  · exact classDeclaration hg _
  · exact ifStatement hg
  · exact forStatement hg
  · exact whileStatement hg
  · exact doStatement hg
  · exact returnStatement hg
  · case _ hk => exact .jumpStatement (.of_kind_eq hk rfl) _
  · case _ hk => exact .jumpStatement (.of_kind_eq hk rfl) _
  · exact throwStatement hg
  · exact tryStatement hg
  · exact switchStatement hg
  · exact withStatement hg
  · case _ hk => exact .debuggerStatement (.of_kind_eq hk rfl)
  · exact .ite (fun _ => otherStatement hg _) fun _ => .fail nofun
  · exact .fail nofun
  · exact otherStatement hg _

-- ---------------------------------------------------------------------------
-- The grammar
-- ---------------------------------------------------------------------------

theorem rule (phrase : Phrase) : Runs text k stage always s (Grammar.rule g phrase) := by
  cases phrase with
  | assignment => exact assignment hg
  | unary => exact unary hg
  | binary above => exact binary hg above
  | construction => exact construction hg
  | leftHandSide => exact leftHandSide hg
  | statement => exact statement hg
  | bindingTarget => exact bindingTarget hg

omit hg in
/-- The induction over the grammar. With no rounds a phrase fails, but then there have to
be rounds for what is ahead; with more of them its rule reads the phrases inside it with
fewer, when it has taken a token. -/
theorem read (k : Nat) (phrase : Phrase) (s : State) :
    Runs text k .inside always s (Grammar.read k phrase) := by
  induction k generalizing phrase s with
  | zero =>
    refine ⟨fun c x t hs hx => (nomatch hx), fun c e t hs he => ?_⟩
    cases he
    exact ⟨hs.holds.tokenLies, fun h => absurd h (Nat.not_lt_zero _), rfl, rfl⟩
  | succ k ih =>
    have hrule : Runs text k .opening always s (Grammar.rule (Grammar.read k) phrase) :=
      rule ih phrase
    exact ⟨hrule.ok, hrule.error⟩

-- ---------------------------------------------------------------------------
-- Imports, exports and modules
-- ---------------------------------------------------------------------------

omit hg

theorem fromClause : Runs text k stage always s Grammar.fromClause :=
  .first (.expect rfl) fun _ _ => .first .stringText fun _ _ =>
    .andThen .endOfStatement fun _ _ => .pure rfl

theorem importSpecifier : Runs text k stage always s Grammar.importSpecifier :=
  .look <| .look <| .first .exportName fun _ _ =>
    .accepting rfl (fun _ => .first .bindingName fun _ _ => .done) fun _ =>
      .ite (fun _ => .done) fun _ => .fail nofun

theorem importEntry :
    Runs text k stage always s (Entry.plain <$> Grammar.importSpecifier) :=
  .map .importSpecifier _

theorem namedImports : Runs text k stage always s Grammar.namedImports :=
  .first (.expect rfl) fun _ _ => .andThen (.listUntil fun _ => importEntry) fun _ _ =>
    .first (.expect rfl) fun _ _ => .pure rfl

theorem namespaceImport (hs : s.token.Significant) :
    Runs text k stage always s Grammar.namespaceImport :=
  .look <| .first (.advance hs) fun _ _ => .first (.expect rfl) fun _ _ =>
    .first .bindingName fun _ _ => .done

theorem furtherImports : Runs text k stage always s Grammar.furtherImports := by
  refine .look ?_
  split
  · case _ hk => exact .map (.namespaceImport (.of_kind_eq hk rfl)) _
  · exact .namedImports
  · exact .fail nofun

theorem importSpecifiers : Runs text k stage always s Grammar.importSpecifiers :=
  .look <| .ite
    (fun _ => .look <| .first .bindingName fun _ _ => .look <|
      .accepting rfl (fun _ => .first .furtherImports fun _ _ => .pure rfl) fun _ => .pure rfl)
    fun _ => .furtherImports

theorem importDeclaration : Runs text k stage always s Grammar.importDeclaration :=
  .look <| .first (.expect rfl) fun _ _ => .look <| .ite
    (fun _ => .first .stringText fun _ _ => .andThen .endOfStatement fun _ _ => .done)
    fun _ => .first .importSpecifiers fun _ _ => .first .fromClause fun _ _ => .done

theorem exportSpecifier : Runs text k stage always s Grammar.exportSpecifier :=
  .look <| .first .exportName fun _ _ =>
    .accepting rfl (fun _ => .first .exportName fun _ _ => .done)
      fun _ => .andThen (.pure rfl) fun _ _ => .done

theorem exportEntry :
    Runs text k stage always s (Entry.plain <$> Grammar.exportSpecifier) :=
  .map .exportSpecifier _

theorem exportList (start : Nat) : Runs text k stage always s (Grammar.exportList start) :=
  .first (.expect rfl) fun _ _ => .andThen (.listUntil fun _ => exportEntry) fun _ _ =>
    .first (.expect rfl) fun _ _ => .look <| .ite
      (fun _ => .first .fromClause fun _ _ => .done)
      fun _ => .andThen .endOfStatement fun _ _ => .done

theorem exportAll (hs : s.token.Significant) (start : Nat) :
    Runs text k stage always s (Grammar.exportAll start) := by
  have hsource : ∀ exported t, Runs text k .inside never t (do
      let source ← Grammar.fromClause
      Grammar.nodeFrom start (.exportAll exported source)) :=
    fun _ _ => .first .fromClause fun _ _ => .done
  exact .first (.advance hs) fun _ _ =>
    .accepting rfl (fun _ => .first (.map .exportName some) hsource)
      fun _ => .andThen (.pure rfl) hsource

include hg

theorem defaultValue : Runs text k .inside always s (Grammar.defaultValue g) := by
  refine .look ?_
  split
  · exact functionDeclaration hg _ _ _
  · exact classDeclaration hg _
  · refine .ite (fun h => ?_) fun _ => ?_
    · rw [Bool.and_eq_true, decide_eq_true_eq] at h
      exact .first (.advance (.of_kind_eq h.1 rfl)) fun _ _ => .any (functionDeclaration hg _ _ _)
    · exact .first (.allowIn (hg _ _)) fun _ _ => .andThen .endOfStatement fun _ _ => .pure rfl

theorem exportedDeclaration (start : Nat) :
    Runs text k .inside always s (Grammar.exportedDeclaration g start) :=
  .first (hg _ _) fun _ _ => .done

theorem exportDeclaration : Runs text k stage always s (Grammar.exportDeclaration g) := by
  refine .look <| .first (.expect rfl) fun _ _ => .look ?_
  have hdeclaration : ∀ start t, Runs text k .inside never t
      (Grammar.exportedDeclaration g start) :=
    fun _ _ => .any (exportedDeclaration hg _)
  split
  · case _ hk => exact .any (.exportAll (.of_kind_eq hk rfl) _)
  · exact .any (.exportList _)
  · case _ hk =>
    exact .first (.advance (.of_kind_eq hk rfl)) fun _ _ =>
      .first (defaultValue hg) fun _ _ => .done
  · exact hdeclaration _ _
  · exact hdeclaration _ _
  · exact hdeclaration _ _
  · exact hdeclaration _ _
  · exact hdeclaration _ _
  · exact .ite (fun _ => hdeclaration _ _) fun _ => .fail nofun
  · exact .fail nofun

theorem moduleItem : Runs text k .inside always s (Grammar.moduleItem g) := by
  refine .look ?_
  split
  · exact .ite (fun _ => hg _ _) fun _ => .importDeclaration
  · exact exportDeclaration hg
  · exact hg _ _

end Rules

end Runs

end ModuleBundler.Grammar

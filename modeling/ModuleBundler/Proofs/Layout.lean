import ModuleBundler.Proofs.Attached
import ModuleBundler.Proofs.PropertyNames
import ModuleBundler.Proofs.Rows

/-!
# ModuleBundler — the rules lay their nodes in rows

Each rule of the grammar makes its node of the nodes it has read, in the order it has read
them in. The rules come in the order of the grammar. Three of them do not read straight on:
a key of an object literal or pattern may turn out to be a name as well, a literal may turn
out to be a pattern, and a declaration is made anew when its semicolon was taken.

* `LaysOn.rule` — from the phrases inside a rule to the rule.
* `LaysOn.read` — every phrase, however many rounds are given.
* `LaysOn.moduleItem` — the items of a module.
-/

namespace ModuleBundler

namespace Grammar

namespace LaysOn

section Words

variable {s : State}

-- ---------------------------------------------------------------------------
-- Tokens and names
-- ---------------------------------------------------------------------------

theorem endOfStatement : Lays s Grammar.endOfStatement fun _ => [] :=
  .passing rfl (fun _ _ => .pure rfl) fun _ => .look <| .ite (fun _ => .pure rfl) fun _ => .fail

theorem bindingName : Lays s Grammar.bindingName fun _ => [.token] :=
  .look <| .ite (fun h => .takeValue (.of_isBindingName h)) fun _ => .fail

theorem anyName : Lays s Grammar.anyName fun _ => [.token] :=
  .look <| .ite (fun h => .takeValue (.of_kind _ h rfl rfl)) fun _ => .fail

theorem identifier : Lays s Grammar.identifier fun n => [.node n] :=
  .look <| .take .bindingName fun _ _ => .node rfl

theorem stringText : Lays s Grammar.stringText fun _ => [.token] :=
  .look <| .ite (fun h => .takeValue (.of_kind_eq (of_decide_eq_true h) rfl)) fun _ => .fail

theorem exportName : Lays s Grammar.exportName fun _ => [.token] :=
  .look <| .ite (fun h => .takeValue (.of_kind_eq (of_decide_eq_true h) rfl)) fun _ => .anyName

theorem word (hsig : s.token.Significant) {form : Form Node}
    (hform : form.children.filterMap id = []) : Lays s (Grammar.word form) fun n => [.node n] :=
  .look <| .take (.advance hsig) fun _ _ => .node hform

theorem literal (hsig : s.token.Significant) (make : String → Literal) :
    Lays s (Grammar.literal make) fun n => [.node n] :=
  .look <| .take (.takeValue hsig) fun _ _ => .node rfl

/-- There is at least one item. -/
theorem separated_go_ne_nil {item : Parser Node} (n : Nat) {acc : List Node} (hacc : acc ≠ []) :
    Yields (· ≠ []) (Grammar.separated.go item n acc) := by
  induction n generalizing acc with
  | zero => exact .exhausted
  | succ n ih =>
    exact .next fun _ => .ite (.next fun _ => ih (by simp)) (.pure (by simpa using hacc))

theorem sequence {operand : Parser Node} (hoperand : ∀ t, Lays t operand fun n => [.node n]) :
    Lays s (Grammar.sequence operand) fun n => [.node n] := by
  refine .look <| .bindOk (.separatedNodes hoperand) fun es t hes => ?_
  have hne : es ≠ [] := (Yields.next fun _ => .next fun _ => separated_go_ne_nil _ (by simp)) hes
  match es with
  | [] => exact absurd rfl hne
  | [e] => exact .pure rfl
  | e :: e' :: es => exact .node (by simp [Form.children])

theorem optionalName (isRequired : Bool) :
    Lays s (Grammar.optionalName isRequired) fun o => o.toList.map .node :=
  .look <| .ite (fun _ => .take .identifier fun _ _ => .pure rfl) fun _ =>
    .ite (fun _ => .fail) fun _ => .pure rfl

theorem qualifier (word : Keyword) : Lays s (Grammar.qualifier word) fun _ => [] := by
  refine .look <| .ite (fun h => ?_) fun _ => .pure rfl
  rw [Bool.and_eq_true, decide_eq_true_eq] at h
  exact .skip (.advance (.of_kind_eq h.1 rfl)) fun _ _ => .pure rfl

theorem accessorKind : Lays s Grammar.accessorKind fun _ => [] := by
  refine .look <| .ite (fun h => ?_) fun _ => .ite (fun h => ?_) fun _ => .pure rfl
  · rw [Bool.and_eq_true, decide_eq_true_eq] at h
    exact .skip (.advance (.of_kind_eq h.1 rfl)) fun _ _ => .pure rfl
  · rw [Bool.and_eq_true, decide_eq_true_eq] at h
    exact .skip (.advance (.of_kind_eq h.1 rfl)) fun _ _ => .pure rfl

theorem memberHead : Lays s Grammar.memberHead fun _ => [] :=
  .skip (.qualifier _) fun _ _ => .skip (.accept rfl) fun _ _ =>
    .ite (fun _ => .look (.pure rfl)) fun _ => .skip .accessorKind fun _ _ => .pure rfl

theorem memberName : Lays s Grammar.memberName fun n => [.node n] :=
  .look <| .look <| .ite (fun h => .word (.of_kind_eq h rfl) rfl)
    fun _ => .take .anyName fun _ _ => .node rfl

theorem metaProperty {a : Nat} (object property : String) :
    LaysOn a [] s (Grammar.metaProperty a object property) fun n => [.node n] :=
  .take .anyName fun _ _ => .ite (fun _ => .node rfl) fun _ => .fail

end Words

section Rules

variable {s : State} {g : Reading} (hg : ∀ phrase t, Lays t (g phrase) fun n => [.node n])
include hg

-- ---------------------------------------------------------------------------
-- Keys, patterns and parameters
-- ---------------------------------------------------------------------------

theorem expression : Lays s (Grammar.expression g) fun n => [.node n] :=
  .sequence fun _ => hg _ _

/-- A key is a token, and behind it may be an expression. -/
theorem propertyKey : Lays s (Grammar.propertyKey g) fun key =>
    .token :: (key.children.filterMap id).map .node := by
  refine .look ?_
  split
  · case _ hk => exact .take (.takeValue (.of_kind_eq hk rfl)) fun _ _ => .pure rfl
  · case _ hk => exact .take (.takeValue (.of_kind_eq hk rfl)) fun _ _ => .pure rfl
  · case _ hk => exact .take (.takeValue (.of_kind_eq hk rfl)) fun _ _ => .pure rfl
  · case _ hk => exact .take (.takeValue (.of_kind_eq hk rfl)) fun _ _ => .pure rfl
  · case _ hk =>
    exact .take (.advance (.of_kind_eq hk rfl)) fun _ _ =>
      .take (.allowIn (hg _ _)) fun _ _ => .skip (.expect rfl) fun _ _ => .pure rfl
  · exact .take .anyName fun _ _ => .pure rfl

omit hg in
theorem withDefault {a : Nat} (target : Node) {value : Parser Node}
    (hvalue : ∀ t, Lays t value fun n => [.node n]) :
    LaysOn a [.node target] s (Grammar.withDefault a target value) fun n => [.node n] :=
  .passing rfl (fun _ _ => .take (hvalue _) fun _ _ => .node rfl) fun _ => .pure rfl

theorem bindingElement : Lays s (Grammar.bindingElement g) fun n => [.node n] :=
  .look <| .take (hg _ _) fun _ _ => .withDefault _ fun _ => .allowIn (hg _ _)

theorem restElement : Lays s (Grammar.restElement g) fun n => [.node n] :=
  .look <| .skip (.expect rfl) fun _ _ => .take (hg _ _) fun _ _ => .node rfl

/-- A name that is a key and a pattern in one is a node for the pattern only. -/
theorem patternProperty : Lays s (Grammar.patternProperty g) fun n => [.node n] := by
  refine .look <| .look <| .bindOk (propertyKey hg) fun key t hkey =>
    .passing rfl (fun _ _ => ?_) fun _ => .ite (fun hname => ?_) fun _ => .fail
  · exact .take (bindingElement hg) fun _ _ => .node (by simp [Form.children])
  · obtain ⟨rfl, -⟩ := Completes.propertyKey_ok hname hkey
    exact .bind (.node rfl) fun _ _ =>
      .bind (.withDefault _ fun _ => .allowIn (hg _ _)) fun _ _ => .node rfl

theorem propertyEntry : Lays s (Grammar.propertyEntry g) fun e => [.node e.value] :=
  .look <| .ite (fun _ => .take (restElement hg) fun _ _ => .pure rfl)
    fun _ => .take (patternProperty hg) fun _ _ => .pure rfl

theorem objectPattern : Lays s (Grammar.objectPattern g) fun n => [.node n] :=
  .look <| .take (.expect rfl) fun _ _ => .take (.nodesUntil fun _ => propertyEntry hg)
    fun _ _ => .skip (.expect rfl) fun _ _ => .node (by simp [Form.children])

theorem elementEntry : Lays s (Grammar.elementEntry g) fun e => e.value.toList.map .node :=
  .passing rfl (fun _ _ => .pure rfl) fun _ =>
    .look <| .ite (fun _ => .take (restElement hg) fun _ _ => .pure rfl)
      fun _ => .take (bindingElement hg) fun _ _ => .pure rfl

theorem arrayPattern : Lays s (Grammar.arrayPattern g) fun n => [.node n] :=
  .look <| .take (.expect rfl) fun _ _ => .take (.kidsUntil fun _ => elementEntry hg)
    fun _ _ => .skip (.expect rfl) fun _ _ => .node (by simp [Form.children])

theorem bindingTarget : Lays s (Grammar.bindingTarget g) fun n => [.node n] := by
  refine .nested (.look ?_)
  split
  · exact objectPattern hg
  · exact arrayPattern hg
  · exact .identifier

theorem parameterEntry : Lays s (Grammar.parameterEntry g) fun e => [.node e.value] :=
  .look <| .ite (fun _ => .take (restElement hg) fun _ _ => .pure rfl)
    fun _ => .take (bindingElement hg) fun _ _ => .pure rfl

theorem parameters : Lays s (Grammar.parameters g) fun ps => ps.map .node :=
  .skip (.expect rfl) fun _ _ =>
    .take (.allowIn (.nodesUntil fun _ => parameterEntry hg)) fun _ _ =>
      .skip (.expect rfl) fun _ _ => .pure rfl

-- ---------------------------------------------------------------------------
-- Functions and classes
-- ---------------------------------------------------------------------------

theorem bracedStatement : Lays s (Grammar.bracedStatement g) fun n => [.node n] :=
  .look <| .ite (fun _ => .fail) fun _ => hg _ _

theorem bracedStatements : Lays s (Grammar.bracedStatements g) fun ns => .token :: ns.map .node :=
  .take (.expect rfl) fun _ _ => .take (.manyNodes fun _ => bracedStatement hg) fun _ _ =>
    .skip (.expect rfl) fun _ _ => .pure rfl

theorem block : Lays s (Grammar.block g) fun n => [.node n] :=
  .look <| .take (bracedStatements hg) fun _ _ => .node (by simp [Form.children])

theorem functionBody : Lays s (Grammar.functionBody g) fun n => [.node n] :=
  .nested (.allowIn (block hg))

theorem functionParts (isAsync nameRequired : Bool) :
    Lays s (Grammar.functionParts g isAsync nameRequired) fun f =>
      (f.children.filterMap id).map .node :=
  .skip (.expect rfl) fun _ _ => .skip (.accept rfl) fun _ _ =>
    .take (.optionalName _) fun name _ => .take (parameters hg) fun _ _ =>
      .take (functionBody hg) fun _ _ => .pure <| by
        cases name <;> simp [FunctionParts.children]

/-- Before the word `function` there may be another one, but no node. -/
theorem functionDeclaration {a : Nat} {pre : List Brick} (hpre : pre.filterMap Brick.node? = [])
    (isAsync nameRequired : Bool) :
    LaysOn a pre s (Grammar.functionDeclaration g a isAsync nameRequired) fun n => [.node n] :=
  .take (functionParts hg _ _) fun _ _ =>
    .nodeOf (by simp [Form.children, hpre]) (by simp [FunctionParts.children])

theorem functionExpression {a : Nat} {pre : List Brick} (hpre : pre.filterMap Brick.node? = [])
    (isAsync : Bool) :
    LaysOn a pre s (Grammar.functionExpression g a isAsync) fun n => [.node n] :=
  .take (functionParts hg _ _) fun _ _ =>
    .nodeOf (by simp [Form.children, hpre]) (by simp [FunctionParts.children])

theorem methodFunction (isAsync isGenerator : Bool) :
    Lays s (Grammar.methodFunction g isAsync isGenerator) fun n => [.node n] :=
  .look <| .take (parameters hg) fun _ _ => .take (functionBody hg) fun _ _ =>
    .nodeOf (by simp [Form.children, FunctionParts.children]) (by simp)

theorem methodOrField {a : Nat} (isStatic : Bool) :
    LaysOn a [] s (Grammar.methodOrField g a isStatic) fun n => [.node n] := by
  refine .skip .memberHead fun head t => .take (propertyKey hg) fun key t => ?_
  have hend : ∀ (value : Option Node) t, LaysOn a
      (.token :: (key.children.filterMap id).map .node ++ value.toList.map .node) t (do
        Grammar.endOfStatement
        Grammar.nodeFrom a (.propertyDefinition key value isStatic)) fun n => [.node n] :=
    fun value _ => .skip .endOfStatement fun _ _ => .node <| by
      cases value <;> simp [Form.children]
  refine .look <| .ite (fun _ => ?_) fun _ => .ite (fun _ => .fail) fun _ =>
    .passing rfl (fun _ _ => ?_) fun _ => ?_
  · exact .take (methodFunction hg _ _) fun _ _ => .node (by simp [Form.children])
  · exact .take (.map (hg _ _) fun _ => rfl) hend
  · exact .take (.pure rfl) hend

theorem classMember : Lays s (Grammar.classMember g) fun n => [.node n] := by
  refine .look <| .look <| .ite (fun h => ?_) fun _ => ?_
  · rw [Bool.and_eq_true, decide_eq_true_eq] at h
    exact .skip (.advance (.of_kind_eq h.1 rfl)) fun _ _ =>
      .take (bracedStatements hg) fun _ _ => .node (by simp [Form.children])
  · exact .skip (.qualifier _) fun isStatic _ => methodOrField hg isStatic

theorem bracedMember : Lays s (Grammar.bracedMember g) fun o => o.toList.map .node :=
  .passing rfl (fun _ _ => .pure rfl) fun _ => .look <| .ite (fun _ => .fail) fun _ =>
    .take (classMember hg) fun _ _ => .pure rfl

theorem classBody : Lays s (Grammar.classBody g) fun ns => ns.map .node :=
  .skip (.expect rfl) fun _ _ => .take (.manyKids fun _ => bracedMember hg) fun _ _ =>
    .skip (.expect rfl) fun _ _ => .pure rfl

theorem classParts (nameRequired : Bool) : Lays s (Grammar.classParts g nameRequired) fun c =>
    .token :: (c.children.filterMap id).map .node := by
  refine .take (.expect rfl) fun _ _ => .take (.optionalName _) fun name _ => ?_
  have hbody : ∀ (superClass : Option Node) t, LaysOn s.token.start.offset
      (.token :: name.toList.map .node ++ superClass.toList.map .node) t (do
        let members ← Grammar.nested (Grammar.allowIn (Grammar.classBody g))
        return (⟨name, superClass, members⟩ : ClassParts Node)) fun c =>
          .token :: (c.children.filterMap id).map .node :=
    fun superClass _ => .take (.nested (.allowIn (classBody hg))) fun _ _ => .pure <| by
      cases name <;> cases superClass <;> simp [ClassParts.children]
  refine .passing rfl (fun _ _ => ?_) fun _ => ?_
  · exact .take (.map (hg _ _) fun _ => rfl) hbody
  · exact .take (.pure rfl) hbody

theorem classDeclaration (nameRequired : Bool) :
    Lays s (Grammar.classDeclaration g nameRequired) fun n => [.node n] :=
  .look <| .take (classParts hg _) fun _ _ => .node (by simp [Form.children])

theorem classExpression : Lays s (Grammar.classExpression g) fun n => [.node n] :=
  .look <| .take (classParts hg _) fun _ _ => .node (by simp [Form.children])

-- ---------------------------------------------------------------------------
-- Literals and templates
-- ---------------------------------------------------------------------------

omit hg in
/-- A slash is read anew as a regular expression. -/
theorem regex : Lays s Grammar.regex fun n => [.node n] := by
  intro text c n t hs ha hle h
  obtain ⟨_, s', hread, h⟩ := bind_ok h
  cases hread
  obtain ⟨isRegex, _, hat, h⟩ := bind_ok h
  cases hat
  split at h
  · rename_i hk
    have hsig : s.token.asRegex.Significant := .of_kind_eq (of_decide_eq_true hk) rfl
    have hstart := congrArg Text.Cursor.offset s.token.asRegex_start
    have hstop : s.lastStop ≤ s.token.asRegex.start.offset := hs.lastStop_le.trans_eq hstart.symm
    have hforward := forward_take hs.asRegex hstop
    cases h
    refine ⟨⟨hforward.stands, hstart.symm.trans_le hforward.start_le, hforward.lastStop_le⟩,
      fun h => ?_⟩
    have htaken := hs.asRegex.row_taken hstop hstart.ge hsig h
    rw [← hstart] at htaken ha ⊢
    exact hs.asRegex.taken.row_node ha rfl (by simp) htaken
  · cases h

theorem substituted : Lays s (Grammar.substituted g) fun n => [.node n] :=
  .take (.allowIn (expression hg)) fun _ _ => .look <| .ite (fun _ => .fail) fun _ => .pure rfl

/-- What is substituted in a template lies between its pieces. The last piece is the current
token behind all substitutions. -/
theorem substitutions_ok {text : String} {a : Nat} {c : Text.Cursor} {n : Nat}
    {x parts : List String × List Node} {t : State} (hs : s.Holds text c)
    (hstop : s.lastStop ≤ s.token.start.offset) (hmark : s.token.kind.isMark = true)
    (ha : String.Pos.Raw.isValid text ⟨a⟩ = true) (hle : a ≤ s.token.start.offset)
    (h : Grammar.loop (Grammar.substitutionRound g) n x s = .ok parts t) :
    ∃ d, t.Holds text d ∧ t.lastStop ≤ t.token.start.offset ∧ t.token.kind.isMark = true ∧
      s.token.start.offset ≤ t.token.start.offset ∧ s.lastStop ≤ t.lastStop ∧
      (Row text a s.lastStop (x.2.reverse.map .node) →
        Row text a t.lastStop (parts.2.map .node)) := by
  induction n generalizing c s x with
  | zero => cases h
  | succ n ih =>
    obtain ⟨quasis, es⟩ := x
    obtain ⟨r, u, hround, h⟩ := bind_ok h
    obtain ⟨_, s₁, hadv, hround⟩ := bind_ok hround
    cases hadv
    obtain ⟨e, s₂, hexp, hround⟩ := bind_ok hround
    have hforward := forward_take hs hstop
    have hsubstituted : ∀ u, LaysOn a (es.reverse.map .node) u (Grammar.substituted g)
        fun e => es.reverse.map .node ++ [.node e] := fun _ => frame (substituted hg)
    obtain ⟨hforward', hrow⟩ := hsubstituted _ hs.taken ha (hle.trans hforward.start_le) hexp
    obtain ⟨d, hd⟩ := hforward'.stands
    have hstart := (hforward.trans hforward').start_le
    have hlast := (hforward.trans hforward').lastStop_le
    obtain ⟨rfl, hnext, hr⟩ := Completes.pieceRound_ok hround
    have hanew : s₂.token.asTemplate.start = s₂.token.start := s₂.token.asTemplate_start
    have hstop' : s₂.lastStop ≤ s₂.token.asTemplate.start.offset := by
      rw [hanew]
      exact hd.lastStop_le
    rw [← hanew] at hstart
    have hmore : Row text a s.lastStop (es.reverse.map .node) →
        Row text a s₂.lastStop ((e :: es).reverse.map .node) := fun h => by
      have h := hrow (h.mono le_rfl hforward.lastStop_le)
      simpa using h
    obtain ⟨quasis', rfl⟩ | ⟨quasis', rfl⟩ := hr
    · obtain ⟨d', hholds, hlies, hlastMark, hfurther, hlater, hrest⟩ :=
        ih hd.asTemplate hstop' hnext (hle.trans hstart) h
      exact ⟨d', hholds, hlies, hlastMark, hstart.trans hfurther, hlast.trans hlater,
        fun h => hrest (hmore h)⟩
    · cases h
      exact ⟨d, hd.asTemplate, hstop', hnext, hstart, hlast, hmore⟩

/-- A template takes its pieces, and what is substituted between them. -/
theorem templateLiteral (hsig : s.token.kind.isMark = true) :
    Lays s (Grammar.templateLiteral g) fun n => [.node n] := by
  intro text c n t hs ha hle h
  obtain ⟨start, _, hpos, h⟩ := bind_ok h
  cases hpos
  obtain ⟨first, _, hcur, h⟩ := bind_ok h
  cases hcur
  split at h
  · obtain ⟨bound, _, hrounds, h⟩ := bind_ok h
    cases hrounds
    obtain ⟨parts, u, hsub, h⟩ := bind_ok h
    rw [substitutions_eq] at hsub
    obtain ⟨d, hholds, hstop, hmark, hstart, hlast, hrow⟩ :=
      substitutions_ok hg hs.holds hs.lastStop_le hsig ha le_rfl hsub
    have hforward := forward_take hholds hstop
    cases h
    refine ⟨⟨hforward.stands, hstart.trans hforward.start_le, hlast.trans hforward.lastStop_le⟩,
      fun h => ?_⟩
    have hpieces := hholds.row_taken hstop hstart (Token.significant_of_isMark hmark) (hrow h)
    exact hholds.taken.row_node ha (by simp [Form.children]) (by simp) hpieces
  · have hwhole : Lays s (do
        Grammar.advance
        Grammar.nodeFrom s.token.start.offset (.templateLiteral [s.token.value] []))
        fun n => [.node n] :=
      .take (.advance (Token.significant_of_isMark hsig)) fun _ _ => .node rfl
    exact hwhole hs ha hle h

-- ---------------------------------------------------------------------------
-- Groups
-- ---------------------------------------------------------------------------

theorem inParentheses : Lays s (Grammar.inParentheses g) fun n => [.node n] :=
  .skip (.expect rfl) fun _ _ => .take (.allowIn (expression hg)) fun _ _ =>
    .skip (.expect rfl) fun _ _ => .pure rfl

theorem parenthesized : Lays s (Grammar.parenthesized g) fun n => [.node n] :=
  .look <| .take (inParentheses hg) fun _ _ => .node rfl

theorem spreadable : Lays s (Grammar.spreadable g) fun n => [.node n] :=
  .look <| .passing rfl (fun _ _ => .take (hg _ _) fun _ _ => .node rfl) fun _ => hg _ _

theorem literalEntry : Lays s (Grammar.literalEntry g) fun e => e.value.toList.map .node :=
  .passing rfl (fun _ _ => .pure rfl) fun _ =>
    .take (.allowIn (spreadable hg)) fun _ _ => .pure rfl

theorem arrayLiteral : Lays s (Grammar.arrayLiteral g) fun n => [.node n] :=
  .look <| .take (.expect rfl) fun _ _ => .take (.kidsUntil fun _ => literalEntry hg)
    fun _ _ => .skip (.expect rfl) fun _ _ => .node (by simp [Form.children])

theorem arguments : Lays s (Grammar.arguments g) fun ns => ns.map .node :=
  .skip (.expect rfl) fun _ _ =>
    .take (.nodesUntil fun _ => .map (.allowIn (spreadable hg)) fun _ => rfl) fun _ _ =>
      .skip (.expect rfl) fun _ _ => .pure rfl

omit hg in
/-- Before the key of a field nothing is taken. -/
theorem memberHead_ok {head : MemberHead} {t : State} (h : Grammar.memberHead s = .ok head t)
    (hfield : head.isMethod = false) : t = s := by
  obtain ⟨isAsync, u, hasync, h⟩ := bind_ok h
  obtain ⟨isGenerator, v, hstar, h⟩ := bind_ok h
  dsimp only at h
  by_cases hmethod : (isAsync || isGenerator) = true
  · rw [if_pos hmethod] at h
    cases h
    simp [MemberHead.isMethod, hmethod] at hfield
  rw [if_neg hmethod] at h
  rw [Bool.or_eq_true, not_or, Bool.not_eq_true, Bool.not_eq_true] at hmethod
  obtain ⟨rfl, rfl⟩ := hmethod
  obtain ⟨kind, w, hkind, h⟩ := bind_ok h
  cases h
  obtain rfl : kind = .init := by simpa [MemberHead.isMethod] using hfield
  obtain rfl : u = s := by
    obtain ⟨_, _, hcur, hasync⟩ := bind_ok hasync
    cases hcur
    split at hasync
    · cases hasync
    · cases hasync
      rfl
  obtain rfl : v = u := by
    obtain ⟨_, _, hat, hstar⟩ := bind_ok hstar
    cases hat
    split at hstar
    · cases hstar
    · cases hstar
      rfl
  obtain ⟨_, _, hcur, hkind⟩ := bind_ok hkind
  cases hcur
  split at hkind
  · cases hkind
  split at hkind
  · cases hkind
  · cases hkind
    rfl

/-- A name that is a key and a value in one is a node for the value only. It begins the
property, because before it nothing was taken. -/
theorem propertyAfter {a : Nat} (head : MemberHead)
    (hfield : head.isMethod = false → s.token.start.offset = a) :
    LaysOn a [] s (Grammar.propertyAfter g a head) fun n => [.node n] := by
  refine .look <| .look <| .bindOk (frame (propertyKey hg)) fun key t hkey => .look <|
    .ite (fun _ => ?_) fun _ => .ite (fun _ => .fail) fun hmethod =>
      .passing rfl (fun _ _ => ?_) fun _ => .ite (fun hname => ?_) fun _ => .fail
  · exact .take (methodFunction hg _ _) fun _ _ => .node (by simp [Form.children])
  · exact .take (hg _ _) fun _ _ => .node (by simp [Form.children])
  · obtain ⟨rfl, -⟩ := Completes.propertyKey_ok hname hkey
    obtain rfl := hfield (eq_false_of_ne_true hmethod)
    exact .bind (.node rfl) fun _ _ => .bind (.withDefault _ fun _ => hg _ _) fun _ _ => .node rfl

theorem objectProperty : Lays s (Grammar.objectProperty g) fun n => [.node n] :=
  .look <| .passing rfl (fun _ _ => .take (hg _ _) fun _ _ => .node rfl)
    fun _ => .bindOk .memberHead fun head _ h => propertyAfter hg head fun hfield => by
      rw [memberHead_ok h hfield]

theorem objectLiteral : Lays s (Grammar.objectLiteral g) fun n => [.node n] :=
  .look <| .take (.expect rfl) fun _ _ =>
    .take (.nodesUntil fun _ => .map (.allowIn (objectProperty hg)) fun _ => rfl) fun _ _ =>
      .skip (.expect rfl) fun _ _ => .node (by simp [Form.children])

-- ---------------------------------------------------------------------------
-- Primary expressions
-- ---------------------------------------------------------------------------

theorem primary : Lays s (Grammar.primary g) fun n => [.node n] := by
  refine .look <| .look ?_
  split
  · case _ hk => exact .word (.of_kind_eq hk rfl) rfl
  · case _ hk => exact .word (.of_kind_eq hk rfl) rfl
  · case _ hk => exact .word (.of_kind_eq hk rfl) rfl
  · case _ hk => exact .word (.of_kind_eq hk rfl) rfl
  · case _ hk => exact .literal (.of_kind_eq hk rfl) _
  · case _ hk => exact .literal (.of_kind_eq hk rfl) _
  · case _ hk => exact .literal (.of_kind_eq hk rfl) _
  · case _ hk => exact .word (.of_kind_eq hk rfl) rfl
  · exact .regex
  · exact .regex
  · case _ hk => exact templateLiteral hg (Token.isMark_of_kind_eq hk rfl)
  · case _ hk => exact templateLiteral hg (Token.isMark_of_kind_eq hk rfl)
  · exact parenthesized hg
  · exact arrayLiteral hg
  · exact objectLiteral hg
  · exact functionExpression hg rfl false
  · exact classExpression hg
  · case _ hk =>
    refine .ite (fun _ => ?_) fun _ => .identifier
    exact .take (.advance (.of_kind_eq hk rfl)) fun _ _ => functionExpression hg rfl true
  · exact .ite (fun _ => .identifier) fun _ => .fail

-- ---------------------------------------------------------------------------
-- Expressions
-- ---------------------------------------------------------------------------

theorem computedMember : Lays s (Grammar.computedMember g) fun n => [.node n] :=
  .skip (.expect rfl) fun _ _ => .take (.allowIn (expression hg)) fun _ _ =>
    .skip (.expect rfl) fun _ _ => .pure rfl

theorem optionalAccess {a : Nat} (e : Node) :
    LaysOn a [.node e] s (Grammar.optionalAccess g a e) fun n => [.node n] := by
  refine .look ?_
  split
  · exact .take (arguments hg) fun _ _ => .node (by simp [Form.children])
  · exact .take (computedMember hg) fun _ _ => .node rfl
  · exact .take .memberName fun _ _ => .node rfl

/-- A round goes on from what is accessed to the access. -/
theorem accessRound {a : Nat} (calls : Bool) (x : Bool × Node) :
    LaysOn a [.node x.2] s (Grammar.accessRound g a calls x)
      (Sum.elim (fun x => [.node x.2]) fun n => [.node n]) := by
  refine .look ?_
  split
  · case _ hk =>
    exact .skip (.advance (.of_kind_eq hk rfl)) fun _ _ =>
      .take .memberName fun _ _ => .bind (.node rfl) fun _ _ => .pure rfl
  · case _ hk =>
    refine .ite (fun _ => ?_) fun _ => .pure rfl
    exact .skip (.advance (.of_kind_eq hk rfl)) fun _ _ =>
      .bind (optionalAccess hg _) fun _ _ => .pure rfl
  · exact .take (computedMember hg) fun _ _ => .bind (.node rfl) fun _ _ => .pure rfl
  · case _ hk =>
    refine .ite (fun _ => .fail) fun _ => ?_
    exact .take (templateLiteral hg (Token.isMark_of_kind_eq hk rfl)) fun _ _ =>
      .bind (.node rfl) fun _ _ => .pure rfl
  · case _ hk =>
    refine .ite (fun _ => .fail) fun _ => ?_
    exact .take (templateLiteral hg (Token.isMark_of_kind_eq hk rfl)) fun _ _ =>
      .bind (.node rfl) fun _ _ => .pure rfl
  · refine .ite (fun _ => ?_) fun _ => .pure rfl
    exact .take (arguments hg) fun _ _ =>
      .bind (.node (by simp [Form.children])) fun _ _ => .pure rfl
  · exact .pure rfl

theorem accesses {a : Nat} (calls : Bool) (n : Nat) (isOptional : Bool) (e : Node) :
    LaysOn a [.node e] s (Grammar.accesses g a calls n isOptional e) fun n => [.node n] := by
  rw [accesses_eq]
  exact .loop (fun x _ => accessRound hg calls x) n (isOptional, e)

/-- The callee lies between the word `new` and the arguments. -/
theorem construction : Lays s (Grammar.construction g) fun n => [.node n] := by
  refine .look <| .skip (.expect rfl) fun _ t =>
    .passing rfl (fun _ _ => .metaProperty _ _) fun _ => .look <| .look ?_
  have hrest : ∀ {p : Parser Node}, (Lays t p fun n => [.node n]) →
      LaysOn s.token.start.offset [] t (do
        let callee ← p
        let callee ← Grammar.accesses g t.token.start.offset false (← Grammar.rounds) false callee
        let values ← if ← Grammar.isAt (.punct .openParen) then Grammar.arguments g
          else Pure.pure []
        Grammar.nodeFrom s.token.start.offset (.newExpression callee values))
        fun n => [.node n] := by
    intro p hp
    have hcallee : Lays t (do
        let callee ← p
        Grammar.accesses g t.token.start.offset false (← Grammar.rounds) false callee)
        fun n => [.node n] :=
      .take hp fun _ _ => .look (accesses hg _ _ _ _)
    exact .takeBoth (f := fun callee => do
        Grammar.accesses g t.token.start.offset false (← Grammar.rounds) false callee) hcallee
      fun callee _ => .look <| .ite
        (fun _ => .take (arguments hg) fun _ _ => .node (by simp [Form.children]))
        fun _ => .look (.node rfl)
  split
  · exact hrest (hg _ _)
  · case _ hk => exact hrest (.word (.of_kind_eq hk rfl) rfl)
  · exact hrest (primary hg)

/-- The second argument of an import is read and dropped. -/
theorem importExpression : Lays s (Grammar.importExpression g) fun n => [.node n] := by
  refine .look <| .skip (.expect rfl) fun _ _ =>
    .passing rfl (fun _ _ => .metaProperty _ _) fun _ =>
      .skip (.expect rfl) fun _ _ => .take (.allowIn (hg _ _)) fun source _ => ?_
  have hend : ∀ t, LaysOn s.token.start.offset [.node source] t (do
      Grammar.expect (.punct .closeParen)
      Grammar.nodeFrom s.token.start.offset (.importExpression source)) fun n => [.node n] :=
    fun _ => .skip (.expect rfl) fun _ _ => .node rfl
  refine .passing rfl (fun _ _ => .look <| .ite (fun _ => ?_) fun _ => hend _) fun _ => hend _
  exact .skip (.allowIn (hg _ _)) fun _ _ => .skip (.accept rfl) fun _ _ => hend _

theorem leftHandSide : Lays s (Grammar.leftHandSide g) fun n => [.node n] := by
  refine .look <| .look ?_
  have hrest : ∀ (e : Node) t, LaysOn s.token.start.offset [.node e] t (do
      Grammar.accesses g s.token.start.offset true (← Grammar.rounds) false e)
      fun n => [.node n] :=
    fun _ _ => .look (accesses hg _ _ _ _)
  split
  · exact .take (construction hg) hrest
  · case _ hk => exact .take (.word (.of_kind_eq hk rfl) rfl) hrest
  · exact .take (importExpression hg) hrest
  · exact .take (primary hg) hrest

theorem updated : Lays s (Grammar.updated g) fun n => [.node n] := by
  refine .look <| .take (leftHandSide hg) fun _ _ => .look <| .ite (fun h => ?_) fun _ => .pure rfl
  rw [Bool.and_eq_true] at h
  exact .skip (.advance (Token.significant_of_isMark (Completes.isMark_of_isUpdateOperator h.1)))
    fun _ _ => .node rfl

theorem unary : Lays s (Grammar.unary g) fun n => [.node n] := by
  refine .nested <| .look <| .look ?_
  have hoperand : ∀ {s : State} {form : Node → Form Node}, s.token.kind.isMark = true →
      (∀ e, (form e).children.filterMap id = [e]) →
      Lays s (do
        Grammar.advance
        Grammar.nodeFrom s.token.start.offset (form (← g .unary))) fun n => [.node n] :=
    fun hmark hform => .skip (.advance (Token.significant_of_isMark hmark)) fun _ _ =>
      .take (hg _ _) fun _ _ => .node (hform _)
  refine .ite (fun h => hoperand (Completes.isMark_of_isUnaryOperator h) fun _ => rfl) fun _ =>
    .ite (fun h => hoperand (Completes.isMark_of_isUpdateOperator h) fun _ => rfl) fun _ =>
      .ite (fun h => hoperand (Token.isMark_of_kind_eq h rfl) fun _ => rfl) fun _ => updated hg

/-- A round goes on from the left operand to the whole. -/
theorem operationRound {a : Nat} (above : Nat) (left : Node) :
    LaysOn a [.node left] s (Grammar.operationRound g a above left)
      (Sum.elim (fun n => [.node n]) fun n => [.node n]) := by
  refine .look <| .look <| .ite (fun h => ?_) fun _ => .pure rfl
  rw [Bool.and_eq_true, decide_eq_true_eq] at h
  have hsig := Token.significant_of_isMark (Completes.isMark_of_precedence h.1)
  exact .skip (.advance hsig) fun _ _ => .take (hg _ _) fun _ _ =>
    .bind (.node rfl) fun _ _ => .pure rfl

theorem binary (above : Nat) : Lays s (Grammar.binary g above) fun n => [.node n] := by
  refine .look <| .take (unary hg) fun left _ => .look ?_
  rw [operations_eq]
  exact .loop (fun x _ => operationRound hg above x) _ left

theorem conditional : Lays s (Grammar.conditional g) fun n => [.node n] :=
  .look <| .take (binary hg 0) fun _ _ =>
    .passing rfl
      (fun _ _ => .take (.allowIn (hg _ _)) fun _ _ => .skip (.expect rfl) fun _ _ =>
        .take (hg _ _) fun _ _ => .node rfl)
      fun _ => .pure rfl

theorem yieldExpression : Lays s (Grammar.yieldExpression g) fun n => [.node n] := by
  have hvalue : ∀ delegates t, LaysOn s.token.start.offset [.token] t (do
      Grammar.nodeFrom s.token.start.offset
        (.yieldExpression (some (← g .assignment)) delegates)) fun n => [.node n] :=
    fun _ _ => .take (hg _ _) fun _ _ => .node rfl
  exact .look <| .take (.expect rfl) fun _ _ => .look <| .ite (fun _ => .node rfl)
    fun _ => .passing rfl (fun _ _ => hvalue _ _) fun _ => .look <|
      .ite (fun _ => hvalue _ _) fun _ => .node rfl

theorem arrowBody : Lays s (Grammar.arrowBody g) fun n => [.node n] :=
  .look <| .ite (fun _ => functionBody hg) fun _ => hg _ _

theorem arrowEnd (start : Nat) (isAsync : Bool) (params : List Node) :
    LaysOn start (params.map .node) s (Grammar.arrowEnd g start isAsync params)
      fun n => [.node n] :=
  .look <| .ite (fun _ => .fail) fun _ => .skip (.expect rfl) fun _ _ =>
    .take (arrowBody hg) fun _ _ => .nodeOf (by simp [Form.children]) (by simp)

theorem arrowParts (start : Nat) (isAsync : Bool) :
    LaysOn start [] s (Grammar.arrowParts g start isAsync) fun n => [.node n] :=
  .look <| .ite (fun _ => .take (parameters hg) fun _ _ => arrowEnd hg _ _ _)
    fun _ => .take (.map .identifier fun _ => rfl) fun _ _ => arrowEnd hg _ _ _

theorem arrowFunction : Lays s (Grammar.arrowFunction g) fun n => [.node n] := by
  refine .look <| .look <| .ite (fun h => ?_) fun _ => arrowParts hg _ _
  rw [Bool.and_eq_true, decide_eq_true_eq] at h
  exact .skip (.advance (.of_kind_eq h.1 rfl)) fun _ _ => arrowParts hg _ _

/-- What is assigned to lies where the literal lay that it was read as. -/
theorem assignment : Lays s (Grammar.assignment g) fun n => [.node n] := by
  refine .nested <| .look <| .ite (fun _ => yieldExpression hg) fun _ => .look <|
    .ite (fun _ => arrowFunction hg) fun _ => .look <| .take (conditional hg) fun left t =>
      .look <| .ite (fun h => ?_) fun _ => .pure rfl
  have htarget : ∀ text hi, Row text s.token.start.offset hi [.node left] →
      Row text s.token.start.offset hi
        [.node (if t.token.kind = .punct .assign then left.toTarget else left)] := by
    intro text hi hrow
    split
    · exact hrow.toTarget
    · exact hrow
  refine LaysOn.conv (P := fun n => [.node n]) ?_ htarget fun _ _ _ h => h
  have hsig := Token.significant_of_isMark (Completes.isMark_of_isAssignment h)
  exact .skip (.advance hsig) fun _ _ => .take (hg _ _) fun _ _ => .node rfl

-- ---------------------------------------------------------------------------
-- Statements
-- ---------------------------------------------------------------------------

theorem declarator : Lays s (Grammar.declarator g) fun n => [.node n] :=
  .look <| .take (hg _ _) fun _ _ =>
    .passing rfl
      (fun _ _ => .take (.map (hg _ _) (Q := fun o => o.toList.map .node) fun _ => rfl)
        fun value _ => .node (by cases value <;> rfl))
      fun _ => .look (.node rfl)

omit hg in
theorem significant_of_variableKind {kind : VariableKind}
    (h : variableKind? s.token.kind = some kind) : s.token.Significant := by
  unfold variableKind? at h
  split at h
  · case _ hk => exact .of_kind_eq hk rfl
  · case _ hk => exact .of_kind_eq hk rfl
  · case _ hk => exact .of_kind_eq hk rfl
  · cases h

omit hg in
theorem starts_variableDeclaration : StartsHere (Grammar.variableDeclaration g) := by
  refine .position fun _ => .bind fun k => ?_
  split
  · exact .fail _
  · exact .bind fun _ => .bind fun _ => .nodeFrom _

/-- The word and the declarators, of which a declaration is made. -/
theorem variableParts : Lays s (Grammar.variableDeclaration g) fun n =>
    .token :: n.kids.map .node := by
  refine .look <| .look ?_
  split
  · exact .fail
  · case _ kind hk =>
    exact .take (.advance (significant_of_variableKind hk)) fun _ _ =>
      .take (.separatedNodes fun _ => declarator hg) fun ds _ => .value <| by
        simp [Node.kids, Node.form, Form.children]

theorem variableDeclaration : Lays s (Grammar.variableDeclaration g) fun n => [.node n] := by
  refine .look <| .look ?_
  split
  · exact .fail
  · case _ kind hk =>
    exact .take (.advance (significant_of_variableKind hk)) fun _ _ =>
      .take (.separatedNodes fun _ => declarator hg) fun _ _ => .node (by simp [Form.children])

/-- The declaration is made anew, for it reaches over its semicolon. -/
theorem variableStatement : Lays s (Grammar.variableStatement g) fun n => [.node n] := by
  refine .bindOk (.allowIn (variableParts hg)) fun d t hd => .skip .endOfStatement fun _ _ => ?_
  obtain ⟨u, hd, -⟩ := withIn_ok hd
  have hstart := starts_variableDeclaration hd
  dsimp only at hstart
  rw [hstart]
  exact .node (by simp [Node.kids])

theorem expressionStatement :
    Lays s (Grammar.expressionStatement g) fun n => [.node n] :=
  .look <| .take (.allowIn (.sequence fun _ => assignment hg)) fun _ _ =>
    .skip .endOfStatement fun _ _ => .node rfl

theorem ifStatement : Lays s (Grammar.ifStatement g) fun n => [.node n] :=
  .look <| .skip (.expect rfl) fun _ _ => .take (inParentheses hg) fun _ _ =>
    .take (hg _ _) fun _ _ =>
      .passing rfl
        (fun _ _ => .take (.map (hg _ _) (Q := fun o => o.toList.map .node) fun _ => rfl)
          fun alternate _ => .node (by cases alternate <;> rfl))
        fun _ => .look (.node rfl)

theorem whileStatement : Lays s (Grammar.whileStatement g) fun n => [.node n] :=
  .look <| .skip (.expect rfl) fun _ _ => .take (inParentheses hg) fun _ _ =>
    .take (hg _ _) fun _ _ => .node rfl

theorem doStatement : Lays s (Grammar.doStatement g) fun n => [.node n] :=
  .look <| .skip (.expect rfl) fun _ _ => .take (hg _ _) fun _ _ =>
    .skip (.expect rfl) fun _ _ => .take (inParentheses hg) fun _ _ =>
      .skip (.accept rfl) fun _ _ => .node rfl

theorem forFirst : Lays s (Grammar.forFirst g) fun o => o.toList.map .node := by
  refine .look ?_
  have hdeclaration : ∀ t, Lays t (some <$> Grammar.withIn true (Grammar.variableDeclaration g))
      fun o => o.toList.map .node :=
    fun _ => .map (.withIn (variableDeclaration hg)) fun _ => rfl
  have hexpression : ∀ t, Lays t (some <$> Grammar.withIn true (Grammar.expression g))
      fun o => o.toList.map .node :=
    fun _ => .map (.withIn (expression hg)) fun _ => rfl
  split
  · exact .pure rfl
  · exact hdeclaration _
  · exact hdeclaration _
  · exact .ite (fun _ => hdeclaration _) fun _ => hexpression _
  · exact hexpression _

theorem clauseBefore (ending : Punctuator) :
    Lays s (Grammar.clauseBefore g ending) fun o => o.toList.map .node := by
  have hend : ∀ (clause : Option Node) t,
      LaysOn s.token.start.offset (clause.toList.map .node) t (do
        Grammar.expect (.punct ending)
        return clause) fun o => o.toList.map .node :=
    fun _ _ => .skip (.expect rfl) fun _ _ => .pure rfl
  exact .look <| .ite (fun _ => .look (hend none _)) fun _ =>
    .take (.map (.allowIn (expression hg)) fun _ => rfl) hend

theorem forClauses {a : Nat} (first : Option Node) :
    LaysOn a (first.toList.map .node) s (Grammar.forClauses g a first) fun n => [.node n] :=
  .skip (.expect rfl) fun _ _ => .take (clauseBefore hg _) fun test _ =>
    .take (clauseBefore hg _) fun update _ => .take (hg _ _) fun _ _ =>
      .nodeOf (by cases first <;> cases test <;> cases update <;> rfl) (by simp)

theorem forOf {a : Nat} (hof : s.token.kind = .word .ofKw) (isAwait : Bool) (left : Node) :
    LaysOn a [.node left] s (Grammar.forOf g a isAwait left) fun n => [.node n] := by
  refine LaysOn.conv (P := fun n => [.node n]) ?_ (fun _ _ h => h.toTarget) fun _ _ _ h => h
  exact .skip (.advance (.of_kind_eq hof rfl)) fun _ _ => .take (.allowIn (hg _ _)) fun _ _ =>
    .skip (.expect rfl) fun _ _ => .take (hg _ _) fun _ _ => .node rfl

theorem forIn {a : Nat} (hin : s.token.kind = .word .inKw) (left : Node) :
    LaysOn a [.node left] s (Grammar.forIn g a left) fun n => [.node n] := by
  refine LaysOn.conv (P := fun n => [.node n]) ?_ (fun _ _ h => h.toTarget) fun _ _ _ h => h
  exact .skip (.advance (.of_kind_eq hin rfl)) fun _ _ =>
    .take (.allowIn (expression hg)) fun _ _ => .skip (.expect rfl) fun _ _ =>
      .take (hg _ _) fun _ _ => .node rfl

theorem forStatement : Lays s (Grammar.forStatement g) fun n => [.node n] := by
  refine .look <| .skip (.expect rfl) fun _ _ => .skip (.accept rfl) fun isAwait _ =>
    .skip (.expect rfl) fun _ _ => .take (forFirst hg) fun first _ => .look ?_
  split
  · case _ hk => exact forOf hg hk _ _
  · case _ hk => exact forIn hg hk _
  · exact forClauses hg _

theorem returnStatement : Lays s (Grammar.returnStatement g) fun n => [.node n] := by
  have hend : ∀ (argument : Option Node) t,
      LaysOn s.token.start.offset (.token :: argument.toList.map .node) t (do
        Grammar.endOfStatement
        Grammar.nodeFrom s.token.start.offset (.returnStatement argument)) fun n => [.node n] :=
    fun argument _ => .skip .endOfStatement fun _ _ => .node <| by cases argument <;> rfl
  exact .look <| .take (.expect rfl) fun _ _ => .look <|
    .ite (fun _ => .look (hend none _)) fun _ =>
      .take (.map (.allowIn (expression hg)) fun _ => rfl) hend

omit hg in
theorem jumpStatement (hsig : s.token.Significant) {make : Option String → Form Node}
    (hmake : ∀ label, (make label).children.filterMap id = []) :
    Lays s (Grammar.jumpStatement make) fun n => [.node n] := by
  have hend : ∀ label t, LaysOn s.token.start.offset [.token] t (do
      Grammar.endOfStatement
      Grammar.nodeFrom s.token.start.offset (make label)) fun n => [.node n] :=
    fun _ _ => .skip .endOfStatement fun _ _ => .node (hmake _)
  refine .look <| .take (.advance hsig) fun _ _ => .look <| .ite (fun h => ?_) fun _ =>
    .look (hend none _)
  rw [Bool.and_eq_true] at h
  exact .skip (.map (.takeValue (.of_isBindingName h.1)) (Q := fun _ => [.token]) fun _ => rfl) hend

theorem throwStatement : Lays s (Grammar.throwStatement g) fun n => [.node n] := by
  have hvalue : ∀ t, LaysOn s.token.start.offset [] t (do
      let argument ← Grammar.allowIn (Grammar.expression g)
      Grammar.endOfStatement
      Grammar.nodeFrom s.token.start.offset (.throwStatement argument)) fun n => [.node n] :=
    fun _ => .take (.allowIn (expression hg)) fun _ _ => .skip .endOfStatement fun _ _ => .node rfl
  exact .look <| .skip (.expect rfl) fun _ _ => .look <| .ite (fun _ => .fail) fun _ => hvalue _

theorem catchClause (hsig : s.token.Significant) :
    Lays s (Grammar.catchClause g) fun n => [.node n] := by
  have hbody : ∀ (param : Option Node) t,
      LaysOn s.token.start.offset (param.toList.map .node) t (do
        let body ← Grammar.block g
        Grammar.nodeFrom s.token.start.offset (.catchClause param body)) fun n => [.node n] :=
    fun param _ => .take (block hg) fun _ _ => .nodeOf (by cases param <;> rfl) (by simp)
  exact .look <| .skip (.advance hsig) fun _ _ =>
    .passing rfl
      (fun _ _ => .take (hg _ _) fun target _ => .skip (.expect rfl) fun _ _ =>
        .look (hbody (some target) _))
      fun _ => .look (hbody none _)

theorem tryStatement : Lays s (Grammar.tryStatement g) fun n => [.node n] := by
  have hend : ∀ body (handler finalizer : Option Node) t,
      LaysOn s.token.start.offset
        (.node body :: handler.toList.map .node ++ finalizer.toList.map .node) t (do
          if handler.isNone && finalizer.isNone then Grammar.fail .handlerExpected
          Grammar.nodeFrom s.token.start.offset (.tryStatement body handler finalizer))
        fun n => [.node n] :=
    fun _ handler finalizer _ => .ite (fun _ => .fail) fun _ => .node <| by
      cases handler <;> cases finalizer <;> rfl
  have hfinalizer : ∀ body (handler : Option Node) t,
      LaysOn s.token.start.offset (.node body :: handler.toList.map .node) t (do
        let finalizer ← if ← Grammar.accept (.word .finallyKw) then some <$> Grammar.block g
          else Pure.pure none
        if handler.isNone && finalizer.isNone then Grammar.fail .handlerExpected
        Grammar.nodeFrom s.token.start.offset (.tryStatement body handler finalizer))
        fun n => [.node n] :=
    fun _ _ _ => .passing rfl
      (fun _ _ => .take (.map (block hg) fun _ => rfl) (hend _ _))
      fun _ => .take (.pure rfl) (hend _ _)
  refine .look <| .skip (.expect rfl) fun _ _ => .take (block hg) fun body _ => .look <|
    .ite (fun h => ?_) fun _ => .look (hfinalizer _ none _)
  have hsig := Token.Significant.of_kind_eq (of_decide_eq_true h) rfl
  exact .take (.map (catchClause hg hsig) fun _ => rfl) (hfinalizer _)

theorem caseTest : Lays s (Grammar.caseTest g) fun o => .token :: o.toList.map .node := by
  refine .look ?_
  split
  · case _ hk =>
    exact .take (.advance (.of_kind_eq hk rfl)) fun _ _ =>
      .map (.frame (.allowIn (expression hg))) fun _ => rfl
  · case _ hk => exact .take (.advance (.of_kind_eq hk rfl)) fun _ _ => .pure rfl
  · exact .fail

theorem switchCase : Lays s (Grammar.switchCase g) fun n => [.node n] :=
  .look <| .take (caseTest hg) fun test _ => .skip (.expect rfl) fun _ _ =>
    .take (.manyNodes fun _ => hg _ _) fun _ _ => .node <| by
      cases test <;> simp [Form.children]

theorem switchStatement : Lays s (Grammar.switchStatement g) fun n => [.node n] :=
  .look <| .skip (.expect rfl) fun _ _ => .take (inParentheses hg) fun _ _ =>
    .skip (.expect rfl) fun _ _ => .take (.manyNodes fun _ => switchCase hg) fun _ _ =>
      .skip (.expect rfl) fun _ _ => .node (by simp [Form.children])

theorem withStatement : Lays s (Grammar.withStatement g) fun n => [.node n] :=
  .look <| .skip (.expect rfl) fun _ _ => .take (inParentheses hg) fun _ _ =>
    .take (hg _ _) fun _ _ => .node rfl

theorem labeledStatement : Lays s (Grammar.labeledStatement g) fun n => [.node n] :=
  .look <| .skip .bindingName fun _ _ => .skip (.expect rfl) fun _ _ =>
    .take (hg _ _) fun _ _ => .node rfl

omit hg in
theorem debuggerStatement (hsig : s.token.Significant) :
    Lays s Grammar.debuggerStatement fun n => [.node n] :=
  .look <| .take (.advance hsig) fun _ _ => .skip .endOfStatement fun _ _ => .node rfl

theorem otherStatement (t : Token) :
    Lays s (Grammar.otherStatement g t) fun n => [.node n] :=
  .ite (fun _ => labeledStatement hg) fun _ => expressionStatement hg

theorem statement : Lays s (Grammar.statement g) fun n => [.node n] := by
  refine .nested (.look ?_)
  split
  · exact block hg
  · case _ hk => exact .word (.of_kind_eq hk rfl) rfl
  · exact variableStatement hg
  · exact variableStatement hg
  · exact .ite (fun _ => variableStatement hg) fun _ => otherStatement hg _
  · exact functionDeclaration hg rfl false _
  · case _ hk =>
    refine .ite (fun _ => ?_) fun _ => otherStatement hg _
    exact .take (.advance (.of_kind_eq hk rfl)) fun _ _ => functionDeclaration hg rfl true _
  · exact classDeclaration hg _
  · exact ifStatement hg
  · exact forStatement hg
  · exact whileStatement hg
  · exact doStatement hg
  · exact returnStatement hg
  · case _ hk => exact .jumpStatement (.of_kind_eq hk rfl) fun _ => rfl
  · case _ hk => exact .jumpStatement (.of_kind_eq hk rfl) fun _ => rfl
  · exact throwStatement hg
  · exact tryStatement hg
  · exact switchStatement hg
  · exact withStatement hg
  · case _ hk => exact .debuggerStatement (.of_kind_eq hk rfl)
  · exact .ite (fun _ => otherStatement hg _) fun _ => .fail
  · exact .fail
  · exact otherStatement hg _

-- ---------------------------------------------------------------------------
-- The grammar
-- ---------------------------------------------------------------------------

theorem rule (phrase : Phrase) : Lays s (Grammar.rule g phrase) fun n => [.node n] := by
  cases phrase with
  | assignment => exact assignment hg
  | unary => exact unary hg
  | binary above => exact binary hg above
  | construction => exact construction hg
  | leftHandSide => exact leftHandSide hg
  | statement => exact statement hg
  | bindingTarget => exact bindingTarget hg

omit hg in
/-- The induction over the grammar: each phrase is read by its rule, and the phrases
inside it with one round less. -/
theorem read (k : Nat) (phrase : Phrase) (s : State) :
    Lays s (Grammar.read k phrase) fun n => [.node n] := by
  induction k generalizing phrase s with
  | zero => exact .exhausted
  | succ k ih => exact rule ih phrase

-- ---------------------------------------------------------------------------
-- Imports, exports and modules
-- ---------------------------------------------------------------------------

omit hg

theorem fromClause : Lays s Grammar.fromClause fun _ => [] :=
  .skip (.expect rfl) fun _ _ => .skip .stringText fun _ _ =>
    .skip .endOfStatement fun _ _ => .pure rfl

theorem importSpecifier : Lays s Grammar.importSpecifier fun _ => [] :=
  .look <| .look <| .skip .exportName fun _ _ =>
    .passing rfl (fun _ _ => .skip .bindingName fun _ _ => .value rfl)
      fun _ => .ite (fun _ => .value rfl) fun _ => .fail

theorem namedImports : Lays s Grammar.namedImports fun _ => [] :=
  .skip (.expect rfl) fun _ _ =>
    .skip (.listUntil (P := fun _ => []) fun _ => .map .importSpecifier fun _ => rfl)
      fun _ _ => .skip (.expect rfl) fun _ _ => .pure rfl

theorem namespaceImport (hsig : s.token.Significant) :
    Lays s Grammar.namespaceImport fun _ => [] :=
  .look <| .skip (.advance hsig) fun _ _ => .skip (.expect rfl) fun _ _ =>
    .skip .bindingName fun _ _ => .value rfl

theorem furtherImports : Lays s Grammar.furtherImports fun _ => [] := by
  refine .look ?_
  split
  · case _ hk => exact .map (.namespaceImport (.of_kind_eq hk rfl)) fun _ => rfl
  · exact .namedImports
  · exact .fail

theorem importSpecifiers : Lays s Grammar.importSpecifiers fun _ => [] :=
  .look <| .ite
    (fun _ => .look <| .skip .bindingName fun _ _ => .look <|
      .passing rfl (fun _ _ => .skip .furtherImports fun _ _ => .pure rfl) fun _ => .pure rfl)
    fun _ => .furtherImports

theorem importDeclaration : Lays s Grammar.importDeclaration fun n => [.node n] :=
  .look <| .take (.expect rfl) fun _ _ => .look <| .ite
    (fun _ => .skip .stringText fun _ _ => .skip .endOfStatement fun _ _ => .node rfl)
    fun _ => .skip .importSpecifiers fun _ _ => .skip .fromClause fun _ _ => .node rfl

theorem exportSpecifier : Lays s Grammar.exportSpecifier fun _ => [] :=
  .look <| .skip .exportName fun _ _ =>
    .passing rfl (fun _ _ => .skip .exportName fun _ _ => .value rfl) fun _ => .look (.value rfl)

theorem exportList {a : Nat} :
    LaysOn a [.token] s (Grammar.exportList a) fun n => [.node n] :=
  .skip (.expect rfl) fun _ _ =>
    .skip (.listUntil (P := fun _ => []) fun _ => .map .exportSpecifier fun _ => rfl)
      fun _ _ => .skip (.expect rfl) fun _ _ => .look <| .ite
        (fun _ => .skip .fromClause fun _ _ => .node rfl)
        fun _ => .skip .endOfStatement fun _ _ => .node rfl

theorem exportAll {a : Nat} (hsig : s.token.Significant) :
    LaysOn a [.token] s (Grammar.exportAll a) fun n => [.node n] := by
  have hsource : ∀ (exported : Option String) t, LaysOn a [.token] t (do
      let source ← Grammar.fromClause
      Grammar.nodeFrom a (.exportAll exported source)) fun n => [.node n] :=
    fun _ _ => .skip .fromClause fun _ _ => .node rfl
  exact .skip (.advance hsig) fun _ _ => .passing rfl
    (fun _ _ => .skip (.map .exportName (Q := fun _ => [.token]) fun _ => rfl) hsource)
    fun _ => .look (hsource none _)

variable (hg : ∀ phrase t, Lays t (g phrase) fun n => [.node n])
include hg

theorem defaultValue : Lays s (Grammar.defaultValue g) fun n => [.node n] := by
  refine .look ?_
  split
  · exact functionDeclaration hg rfl false _
  · exact classDeclaration hg _
  · refine .ite (fun h => ?_) fun _ => ?_
    · rw [Bool.and_eq_true, decide_eq_true_eq] at h
      exact .take (.advance (.of_kind_eq h.1 rfl)) fun _ _ => functionDeclaration hg rfl true _
    · exact .take (.allowIn (hg _ _)) fun _ _ => .skip .endOfStatement fun _ _ => .pure rfl

theorem exportedDeclaration {a : Nat} :
    LaysOn a [.token] s (Grammar.exportedDeclaration g a) fun n => [.node n] :=
  .take (hg _ _) fun _ _ => .node rfl

theorem exportDeclaration : Lays s (Grammar.exportDeclaration g) fun n => [.node n] := by
  refine .look <| .take (.expect rfl) fun _ _ => .look ?_
  split
  · case _ hk => exact .exportAll (.of_kind_eq hk rfl)
  · exact .exportList
  · case _ hk =>
    exact .skip (.advance (.of_kind_eq hk rfl)) fun _ _ =>
      .take (defaultValue hg) fun _ _ => .node rfl
  · exact exportedDeclaration hg
  · exact exportedDeclaration hg
  · exact exportedDeclaration hg
  · exact exportedDeclaration hg
  · exact exportedDeclaration hg
  · exact .ite (fun _ => exportedDeclaration hg) fun _ => .fail
  · exact .fail

theorem moduleItem : Lays s (Grammar.moduleItem g) fun n => [.node n] := by
  refine .look ?_
  split
  · exact .ite (fun _ => hg _ _) fun _ => .importDeclaration
  · exact exportDeclaration hg
  · exact hg _ _


end Rules

end LaysOn

end Grammar

end ModuleBundler

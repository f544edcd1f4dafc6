import ModuleBundler.Proofs.Depth

/-!
# ModuleBundler — the limit on nestings

The rules count what nests, as `nested` does, and so the limit on the count is a
bound on the steps further on that lead from the root of a tree to a node. Between
one nesting and the next one there are a few such steps only, ten of them from
operators of different precedence.

Three parts are read without being counted, and each may have such a part in turn:
the callee of `new`, the right operand of `**`, and what a class extends.

* `room` — the bound that is left at a depth.
* `Keeps` — a reading of the phrases that keeps to their bounds; one lemma for each
  rule, and `keeps_read` for the grammar.
* `bounded_parse` — the trees of accepted texts are bounded.
-/

namespace ModuleBundler

namespace Grammar

-- ---------------------------------------------------------------------------
-- Bounds
-- ---------------------------------------------------------------------------

/-- A bound on what a depth leaves room for: between one nesting and the next one
there are no more than twelve steps. -/
def room (d : Nat) : Nat := 12 * (maxDepth - d)

theorem room_succ {d : Nat} (h : d < maxDepth) : room (d + 1) + 12 = room d := by
  unfold room
  omega

/-- The bound of a phrase at a depth. The phrases that are not nestings themselves
have a few steps more. -/
def Phrase.bound (d : Nat) : Phrase → Nat
  | .binary above => room d + (11 - above)
  | .construction | .leftHandSide => room d + 4
  | _ => room d

/-- A reading of the phrases that keeps to their bounds. -/
structure Keeps (g : Reading) : Prop where
  bounded : ∀ d phrase, Within d (Bounded (phrase.bound d)) (g phrase)
  construction_starts : StartsHere (g .construction)

section Rules

variable {d : Nat} {g : Reading}

-- ---------------------------------------------------------------------------
-- Keys, patterns and parameters
-- ---------------------------------------------------------------------------

theorem within_identifier {b : Nat} : Within d (Bounded b) identifier :=
  .next fun _ => .next fun _ => .leaf rfl

theorem within_sequence {b : Nat} {operand : Parser Node} (h : Within d (Bounded b) operand) :
    Within d (Bounded (b + 1)) (sequence operand) := by
  refine .next fun start => (Within.separated h).bind fun es hes => ?_
  split
  · exact .pure ((each_cons.1 hes).1.mono (by omega))
  · exact .node (by simpa [Form.children] using hes)

variable (hg : Keeps g)
include hg

theorem within_assigned : Within d (Bounded (room d)) (g .assignment) := hg.bounded d _

theorem within_target : Within d (Bounded (room d)) (g .bindingTarget) := hg.bounded d _

theorem within_body : Within d (Bounded (room d)) (g .statement) := hg.bounded d _

theorem within_expression : Within d (Bounded (room d + 1)) (expression g) :=
  within_sequence (within_assigned hg)

theorem within_propertyKey {b : Nat} (hb : room d ≤ b) :
    Within d (fun key => Each (Part (Bounded b)) key.children) (propertyKey g) := by
  refine .next fun k => ?_
  have hnamed : ∀ name : String, Each (Part (Bounded b)) (PropertyKey.named name).children :=
    fun _ => each_nil
  split
  · exact .next fun _ => .pure (hnamed _)
  · exact .next fun _ => .pure (hnamed _)
  · exact .next fun _ => .pure (hnamed _)
  · exact .next fun _ => .pure each_nil
  · refine .next fun _ => (within_assigned hg).allowIn.bind fun e he => .next fun _ => .pure ?_
    simpa [PropertyKey.children] using he.mono hb
  · exact .next fun _ => .pure (hnamed _)

omit hg in
theorem within_withDefault {b : Nat} (start : Nat) {target : Node} (htarget : Bounded b target)
    {value : Parser Node} (hvalue : Within d (Bounded b) value) :
    Within d (Bounded (b + 1)) (withDefault start target value) :=
  .next fun _ => .ite
    (hvalue.bind fun _ he => .node (by simp [Form.children, htarget, he]))
    (.pure (htarget.mono (by omega)))

theorem within_bindingElement : Within d (Bounded (room d + 1)) (bindingElement g) :=
  .next fun start => (within_target hg).bind fun _ ht =>
    within_withDefault start ht (within_assigned hg).allowIn

theorem within_restElement : Within d (Bounded (room d + 1)) (restElement g) :=
  .next fun _ => .next fun _ => (within_target hg).bind fun _ he =>
    .node (by simp [Form.children, he])

theorem within_patternProperty : Within d (Bounded (room d + 2)) (patternProperty g) := by
  refine .next fun start => .next fun first => ?_
  refine (within_propertyKey hg (Nat.le_add_right _ 1)).bind fun key hkey => ?_
  have hproperty : ∀ {value shorthand}, Bounded (room d + 1) value →
      Within d (Bounded (room d + 2)) (nodeFrom start (.property key value .init shorthand)) :=
    fun hvalue => .node (by simp [Form.children, hkey, hvalue])
  refine .next fun _ => .ite ?_ (.ite ?_ (.fail _))
  · exact (within_bindingElement hg).bind fun _ he => hproperty he
  · have hname : Within d (Bounded (room d)) (nodeFrom start (.identifier first.value)) :=
      .leaf rfl
    exact hname.bind fun _ he =>
      (within_withDefault start he (within_assigned hg).allowIn).bind fun _ he => hproperty he

theorem within_objectPattern : Within d (Bounded (room d + 3)) (objectPattern g) := by
  refine .next fun start => .next fun _ => ?_
  have hentry : Within d (fun e => Bounded (room d + 2) e.value) (do
      if ← isAt (.punct .ellipsis) then return Entry.last (← restElement g)
      else return Entry.plain (← patternProperty g)) := by
    refine .next fun _ => .ite ?_ ?_
    · exact (within_restElement hg).bind fun _ he => .pure (he.mono (Nat.le_succ _))
    · exact (within_patternProperty hg).bind fun _ he => .pure he
  exact (Within.listUntil _ hentry).bind fun _ hps => .next fun _ =>
    .node (by simpa [Form.children] using hps)

theorem within_arrayPattern : Within d (Bounded (room d + 2)) (arrayPattern g) := by
  refine .next fun start => .next fun _ => ?_
  have hentry : Within d (fun e => Part (Bounded (room d + 1)) e.value) (do
      if ← accept (.punct .comma) then return Entry.whole none
      else if ← isAt (.punct .ellipsis) then return Entry.last (some (← restElement g))
      else return Entry.plain (some (← bindingElement g))) := by
    refine .next fun _ => .ite (.pure part_none) (.next fun _ => .ite ?_ ?_)
    · exact (within_restElement hg).bind fun _ he => .pure (part_some.2 he)
    · exact (within_bindingElement hg).bind fun _ he => .pure (part_some.2 he)
  exact (Within.listUntil _ hentry).bind fun _ hes => .next fun _ =>
    .node (by simpa [Form.children] using hes)

theorem within_bindingTarget : Within d (Bounded (room d)) (bindingTarget g) := by
  refine .nested fun hroom => ?_
  rw [← room_succ hroom]
  refine .next fun k => ?_
  split
  · exact (within_objectPattern hg).weaken (by omega)
  · exact (within_arrayPattern hg).weaken (by omega)
  · exact within_identifier

theorem within_parameters : Within d (Each (Bounded (room d + 1))) (parameters g) := by
  have hentry : Within d (fun e => Bounded (room d + 1) e.value) (do
      if ← isAt (.punct .ellipsis) then return Entry.last (← restElement g)
      else return Entry.plain (← bindingElement g)) := by
    refine .next fun _ => .ite ?_ ?_
    · exact (within_restElement hg).bind fun _ he => .pure he
    · exact (within_bindingElement hg).bind fun _ he => .pure he
  exact .next fun _ => (Within.listUntil _ hentry).allowIn.bind fun _ hps => .next fun _ =>
    .pure hps

-- ---------------------------------------------------------------------------
-- Functions and classes
-- ---------------------------------------------------------------------------

theorem within_bracedStatements : Within d (Each (Bounded (room d))) (bracedStatements g) :=
  .next fun _ =>
    (Within.many _ (.next fun _ => .ite (.fail _) (within_body hg))).bind fun _ hbody =>
      .next fun _ => .pure hbody

theorem within_block : Within d (Bounded (room d + 1)) (block g) :=
  .next fun _ => (within_bracedStatements hg).bind fun _ hbody =>
    .node (by simpa [Form.children] using hbody)

theorem within_functionBody : Within d (Bounded (room d)) (functionBody g) :=
  .nested fun hroom => (within_block hg).allowIn.weaken (by have := room_succ hroom; omega)

omit hg in
theorem within_optionalName (b : Nat) (isRequired : Bool) :
    Within d (Part (Bounded b)) (optionalName isRequired) :=
  .next fun _ => .ite (within_identifier.bind fun _ he => .pure (part_some.2 he))
    (.ite (.fail _) (.pure part_none))

theorem within_functionParts (isAsync nameRequired : Bool) :
    Within d (fun f => Each (Part (Bounded (room d + 1))) f.children)
      (functionParts g isAsync nameRequired) :=
  .next fun _ => .next fun _ => (within_optionalName (room d + 1) _).bind fun _ hname =>
    (within_parameters hg).bind fun _ hparams => (within_functionBody hg).bind fun _ hbody =>
      .pure (by simp [FunctionParts.children, hname, hparams, hbody.mono (Nat.le_succ _)])

theorem within_functionDeclaration (start : Nat) (isAsync nameRequired : Bool) :
    Within d (Bounded (room d + 2)) (functionDeclaration g start isAsync nameRequired) :=
  (within_functionParts hg _ _).bind fun _ hf => .node hf

theorem within_functionExpression (start : Nat) (isAsync : Bool) :
    Within d (Bounded (room d + 2)) (functionExpression g start isAsync) :=
  (within_functionParts hg _ _).bind fun _ hf => .node hf

theorem within_methodFunction (isAsync isGenerator : Bool) :
    Within d (Bounded (room d + 2)) (methodFunction g isAsync isGenerator) :=
  .next fun _ => (within_parameters hg).bind fun _ hparams =>
    (within_functionBody hg).bind fun _ hbody => .node <| by
      simp [Form.children, FunctionParts.children, hparams, hbody.mono (Nat.le_succ _)]

theorem within_methodOrField (start : Nat) (isStatic : Bool) :
    Within d (Bounded (room d + 3)) (methodOrField g start isStatic) := by
  refine .next fun head => ?_
  refine (within_propertyKey hg (Nat.le_add_right _ 2)).bind fun key hkey => .next fun _ => ?_
  have hend : ∀ value, Part (Bounded (room d + 2)) value → Within d (Bounded (room d + 3)) (do
      endOfStatement
      nodeFrom start (.propertyDefinition key value isStatic)) :=
    fun _ hvalue => .next fun _ => .node (by simp [Form.children, hkey, hvalue])
  refine .ite ?_ (.ite (.fail _) (.next fun _ => .ite ?_ ?_))
  · exact (within_methodFunction hg _ _).bind fun _ hvalue =>
      .node (by simp [Form.children, hkey, hvalue])
  · exact ((within_assigned hg).map fun _ he => part_some.2 (he.mono (by omega))).bind hend
  · exact (Within.pure part_none).bind hend

theorem within_classMember : Within d (Bounded (room d + 3)) (classMember g) := by
  refine .next fun t => .next fun start => .ite (.next fun _ => ?_) (.next fun isStatic => ?_)
  · refine Within.weaken (b := room d + 1) ?_ (by omega)
    exact (within_bracedStatements hg).bind fun _ hbody =>
      .node (by simpa [Form.children] using hbody)
  · exact within_methodOrField hg start isStatic

theorem within_classBody : Within d (Each (Bounded (room d + 3))) (classBody g) := by
  have hmember : Within d (Part (Bounded (room d + 3))) (do
      if ← accept (.punct .semicolon) then return none
      else if ← isAt .endOfFile then fail (.expected (.punct .closeBrace))
      else return some (← classMember g)) := by
    refine .next fun _ => .ite (.pure part_none) (.next fun _ => .ite (.fail _) ?_)
    exact (within_classMember hg).bind fun _ he => .pure (part_some.2 he)
  refine .next fun _ => (Within.many _ hmember).bind fun members h => .next fun _ => .pure ?_
  intro c hc
  obtain ⟨o, ho, rfl⟩ := List.mem_filterMap.1 hc
  exact h _ ho c rfl

/-- The members of a class are a nesting, what it extends is not. -/
theorem within_classParts (nameRequired : Bool) :
    Within d (BoundedClass (room d + 3)) (classParts g nameRequired) := by
  refine .next fun _ => (within_optionalName (room d + 3) _).bind fun name hname => ?_
  have hmembers : Within d (Each (Bounded (room d + 3))) (nested (allowIn (classBody g))) := by
    refine .nested fun hroom => (within_classBody hg).allowIn.mono fun members h n hn => ?_
    have := room_succ hroom
    exact (h n hn).mono (by omega)
  have hbody : ∀ superClass, Part (Bounded (room d + 4)) superClass →
      Within d (BoundedClass (room d + 3)) (do
        let members ← nested (allowIn (classBody g))
        return (⟨name, superClass, members⟩ : ClassParts Node)) :=
    fun _ hsuper => hmembers.bind fun _ hmembers => .pure ⟨hname, hsuper, hmembers⟩
  refine .next fun _ => .ite ?_ ?_
  · exact ((hg.bounded d .leftHandSide).map fun _ => part_some.2).bind hbody
  · exact (Within.pure part_none).bind hbody

theorem within_classDeclaration (nameRequired : Bool) :
    Within d (Bounded (room d + 4)) (classDeclaration g nameRequired) :=
  .next fun _ => (within_classParts hg _).bind fun _ hc =>
    .made fun _ => .of_class rfl (fun _ => rfl) hc

theorem within_classExpression : Within d (Bounded (room d + 4)) (classExpression g) :=
  .next fun _ => (within_classParts hg _).bind fun _ hc =>
    .made fun _ => .of_class rfl (fun _ => rfl) hc

-- ---------------------------------------------------------------------------
-- Primary expressions
-- ---------------------------------------------------------------------------

section Leaves

variable {b : Nat}

omit hg

theorem within_literal (make : String → Literal) : Within d (Bounded b) (literal make) :=
  .next fun _ => .next fun _ => .leaf rfl

/-- A form without parts. -/
theorem within_word {form : Form Node} (hkids : form.children.filterMap id = []) :
    Within d (Bounded b) (word form) :=
  .next fun _ => .next fun _ => .leaf hkids

theorem within_regex : Within d (Bounded b) regex :=
  .next fun _ => .next fun _ => .ite (within_literal _) (.fail _)

theorem within_metaProperty (start : Nat) (object property : String) :
    Within d (Bounded b) (metaProperty start object property) :=
  .next fun _ => .ite (.leaf rfl) (.fail _)

theorem within_memberName : Within d (Bounded b) memberName :=
  .next fun _ => .next fun _ => .ite (within_word rfl) (.next fun _ => .leaf rfl)

end Leaves

theorem within_substitutions (n : Nat) (quasis : List String) {es : List Node}
    (hes : Each (Bounded (room d + 1)) es) :
    Within d (fun r => Each (Bounded (room d + 1)) r.2) (substitutions g n quasis es) := by
  induction n generalizing quasis es with
  | zero => exact .exhausted
  | succ n ih =>
    refine .next fun _ => (within_expression hg).allowIn.bind fun e he => .next fun _ => ?_
    have hmore : Each (Bounded (room d + 1)) (e :: es) := each_cons.2 ⟨he, hes⟩
    refine .maybe (.next fun _ => .next fun piece => ?_)
    split
    · exact ih _ hmore
    · exact .pure (each_reverse.2 hmore)
    · exact .fail _

theorem within_templateLiteral : Within d (Bounded (room d + 2)) (templateLiteral g) := by
  refine .next fun start => .next fun first => ?_
  have hend : ∀ r : List String × List Node, Each (Bounded (room d + 1)) r.2 →
      Within d (Bounded (room d + 2)) (do
        advance
        nodeFrom start (.templateLiteral r.1 r.2)) :=
    fun _ hes => .next fun _ => .node (by simpa [Form.children] using hes)
  have hwhole : Within d (fun r : List String × List Node => Each (Bounded (room d + 1)) r.2)
      (pure ([first.value], [])) := .pure each_nil
  refine .ite (.next fun n => ?_) ?_
  · exact (within_substitutions hg n _ each_nil).bind hend
  · exact hwhole.bind hend

theorem within_inParentheses : Within d (Bounded (room d + 1)) (inParentheses g) :=
  .next fun _ => (within_expression hg).allowIn.bind fun _ he => .next fun _ => .pure he

theorem within_parenthesized : Within d (Bounded (room d + 2)) (parenthesized g) :=
  .next fun _ => (within_inParentheses hg).bind fun _ he => .node (by simp [Form.children, he])

theorem within_spreadable : Within d (Bounded (room d + 1)) (spreadable g) :=
  .next fun _ => .next fun _ =>
    .ite ((within_assigned hg).bind fun _ he => .node (by simp [Form.children, he]))
      ((within_assigned hg).weaken (by omega))

theorem within_arrayLiteral : Within d (Bounded (room d + 2)) (arrayLiteral g) := by
  refine .next fun start => .next fun _ => ?_
  have hentry : Within d (fun e => Part (Bounded (room d + 1)) e.value) (do
      if ← accept (.punct .comma) then return Entry.whole none
      else return Entry.plain (some (← allowIn (spreadable g)))) := by
    refine .next fun _ => .ite (.pure part_none) ?_
    exact (within_spreadable hg).allowIn.bind fun _ he => .pure (part_some.2 he)
  exact (Within.listUntil _ hentry).bind fun _ hes => .next fun _ =>
    .node (by simpa [Form.children] using hes)

theorem within_arguments : Within d (Each (Bounded (room d + 1))) (arguments g) :=
  .next fun _ => (Within.listUntil _ ((within_spreadable hg).allowIn.map fun _ he => he)).bind
    fun _ hes => .next fun _ => .pure hes

theorem within_propertyAfter (start : Nat) (head : MemberHead) :
    Within d (Bounded (room d + 3)) (propertyAfter g start head) := by
  refine .next fun keyStart => .next fun first => ?_
  refine (within_propertyKey hg (Nat.le_add_right _ 2)).bind fun key hkey => ?_
  have hproperty : ∀ {value kind shorthand}, Bounded (room d + 2) value →
      Within d (Bounded (room d + 3)) (nodeFrom start (.property key value kind shorthand)) :=
    fun hvalue => .node (by simp [Form.children, hkey, hvalue])
  refine .next fun _ => .ite ?_ (.ite (.fail _) (.next fun _ => .ite ?_ (.ite ?_ (.fail _))))
  · exact (within_methodFunction hg _ _).bind fun _ hvalue => hproperty hvalue
  · exact (within_assigned hg).bind fun _ hvalue => hproperty (hvalue.mono (by omega))
  · have hname : Within d (Bounded (room d)) (nodeFrom keyStart (.identifier first.value)) :=
      .leaf rfl
    refine hname.bind fun _ he => ?_
    exact (within_withDefault keyStart he (within_assigned hg)).bind fun _ hvalue =>
      hproperty (hvalue.mono (by omega))

theorem within_objectProperty : Within d (Bounded (room d + 3)) (objectProperty g) := by
  refine .next fun start => .next fun _ => .ite ?_ (.next fun head => ?_)
  · refine ((within_assigned hg).weaken (Nat.le_add_right _ 2)).bind fun _ he => ?_
    exact .node (by simp [Form.children, he])
  · exact within_propertyAfter hg start head

theorem within_objectLiteral : Within d (Bounded (room d + 4)) (objectLiteral g) :=
  .next fun _ => .next fun _ =>
    (Within.listUntil _ ((within_objectProperty hg).allowIn.map fun _ he => he)).bind
      fun _ hps => .next fun _ => .node (by simpa [Form.children] using hps)

theorem within_primary : Within d (Bounded (room d + 4)) (primary g) := by
  refine .next fun t => .next fun start => ?_
  have htemplate := (within_templateLiteral (d := d) hg).weaken (Nat.le_add_right _ 2)
  have hfunction := fun isAsync =>
    (within_functionExpression (d := d) hg start isAsync).weaken (Nat.le_add_right _ 2)
  split
  · exact within_word rfl
  · exact within_word rfl
  · exact within_word rfl
  · exact within_word rfl
  · exact within_literal _
  · exact within_literal _
  · exact within_literal _
  · exact within_word rfl
  · exact within_regex
  · exact within_regex
  · exact htemplate
  · exact htemplate
  · exact (within_parenthesized hg).weaken (by omega)
  · exact (within_arrayLiteral hg).weaken (by omega)
  · exact within_objectLiteral hg
  · exact hfunction false
  · exact within_classExpression hg
  · exact .ite (.next fun _ => hfunction true) within_identifier
  · exact .ite within_identifier (.fail _)

-- ---------------------------------------------------------------------------
-- Expressions
-- ---------------------------------------------------------------------------

theorem within_computedMember : Within d (Bounded (room d + 1)) (computedMember g) :=
  .next fun _ => (within_expression hg).allowIn.bind fun _ he => .next fun _ => .pure he

section Accesses

variable {start : Nat} {e : Node} (hstart : e.span.start = start) (he : Bounded (room d + 4) e)
include hstart he

theorem within_optionalAccess : Within d (Bounded (room d + 4)) (optionalAccess g start e) := by
  refine .next fun k => ?_
  split
  · refine (within_arguments hg).bind fun _ has => .head rfl hstart he ?_
    exact each_map_some.2 fun a ha => (has a ha).mono (by omega)
  · refine (within_computedMember hg).bind fun _ hp => .head rfl hstart he ?_
    simpa using hp.mono (by omega)
  · refine (within_memberName (b := room d + 3)).bind fun _ hp => .head rfl hstart he ?_
    simpa using hp

/-- What is accessed begins where its access does, and so a chain of accesses is
no deeper than its parts. -/
theorem within_accesses (calls : Bool) (n : Nat) (isOptional : Bool) :
    Within d (Bounded (room d + 4)) (accesses g start calls n isOptional e) := by
  induction n generalizing isOptional e with
  | zero => exact .exhausted
  | succ n ih =>
    have hnext : ∀ {form : Form Node} {rest : List (Option Node)} {isOptional : Bool},
        form.children = some e :: rest → Each (Part (Bounded (room d + 3))) rest →
        Within d (Bounded (room d + 4)) (do
          accesses g start calls n isOptional (← nodeFrom start form)) := by
      intro form rest isOptional hchildren hrest s a t hs h
      obtain ⟨access, _, hnode, h⟩ := bind_ok h
      cases hnode
      exact ih rfl (.of_head hchildren (.inl hstart) he hrest) isOptional hs h
    have htemplate : Within d (Bounded (room d + 3)) (templateLiteral g) :=
      (within_templateLiteral hg).weaken (by omega)
    refine .next fun k => ?_
    split
    · refine .next fun _ => (within_memberName (b := room d + 3)).bind fun _ hp => hnext rfl ?_
      simpa using hp
    · refine .ite (.next fun _ => ?_) (.pure he)
      intro s a t hs h
      obtain ⟨access, u, haccess, h⟩ := bind_ok h
      obtain ⟨hu, hb⟩ := within_optionalAccess hg hstart he hs haccess
      exact ih (starts_optionalAccess e haccess) hb true hu h
    · refine (within_computedMember hg).bind fun _ hp => hnext rfl ?_
      simpa using hp.mono (by omega)
    · exact .ite (.fail _) (htemplate.bind fun _ hq => hnext rfl (by simpa using hq))
    · exact .ite (.fail _) (htemplate.bind fun _ hq => hnext rfl (by simpa using hq))
    · refine .ite ((within_arguments hg).bind fun _ has => hnext rfl ?_) (.pure he)
      exact each_map_some.2 fun a ha => (has a ha).mono (by omega)
    · exact .pure he

end Accesses

/-- The callee of `new` is no nesting. -/
theorem within_construction : Within d (Bounded (room d + 4)) (construction g) := by
  refine .next fun start => .next fun _ => .next fun _ => .ite (within_metaProperty _ _ _) ?_
  have hend : ∀ callee : Node, Bounded (room d + 4) callee → Within d (Bounded (room d + 4)) (do
      let values ← if ← isAt (.punct .openParen) then arguments g else pure []
      nodeFrom start (.newExpression callee values)) := by
    refine fun callee hcallee => .next fun _ => ?_
    have hnode : ∀ values, Each (Bounded (room d + 1)) values →
        Within d (Bounded (room d + 4)) (nodeFrom start (.newExpression callee values)) :=
      fun values hvalues => .made fun _ => .of_head rfl (.inr rfl) hcallee
        (each_map_some.2 fun a ha => (hvalues a ha).mono (by omega))
    exact .ite ((within_arguments hg).bind hnode) ((Within.pure each_nil).bind hnode)
  intro s a t hs h
  obtain ⟨calleeStart, _, hpos, h⟩ := bind_ok h
  cases hpos
  obtain ⟨k, _, hkind, h⟩ := bind_ok h
  cases hkind
  have hrest : ∀ callee : Node, Bounded (room d + 4) callee →
      callee.span.start = s.token.start.offset → Within d (Bounded (room d + 4)) (do
        let callee ← accesses g s.token.start.offset false (← rounds) false callee
        let values ← if ← isAt (.punct .openParen) then arguments g else pure []
        nodeFrom start (.newExpression callee values)) :=
    fun _ hcallee hstart => .next fun _ => (within_accesses hg hstart hcallee _ _ _).bind hend
  generalize s.token.kind = k at h
  split at h
  · exact Within.begun hs h (hg.bounded d .construction) hg.construction_starts hrest
  · exact Within.begun hs h (within_word rfl) (starts_word _) hrest
  · exact Within.begun hs h (within_primary hg) starts_primary hrest

/-- The second argument of an import is not in the tree. -/
theorem within_importExpression : Within d (Bounded (room d + 1)) (importExpression g) := by
  refine .next fun start => .next fun _ => .next fun _ => .ite (within_metaProperty _ _ _) ?_
  refine .next fun _ => (within_assigned hg).allowIn.bind fun source hsource => ?_
  have hend : Within d (Bounded (room d + 1)) (do
      expect (.punct .closeParen)
      nodeFrom start (.importExpression source)) :=
    .next fun _ => .node (by simp [Form.children, hsource])
  exact .next fun _ => .ite (.next fun _ => .ite
    ((within_assigned hg).allowIn.bind fun _ _ => .next fun _ => hend) hend) hend

theorem within_leftHandSide : Within d (Bounded (room d + 4)) (leftHandSide g) := by
  intro s a t hs h
  obtain ⟨start, _, hpos, h⟩ := bind_ok h
  cases hpos
  obtain ⟨k, _, hkind, h⟩ := bind_ok h
  cases hkind
  have hrest : ∀ e : Node, Bounded (room d + 4) e → e.span.start = s.token.start.offset →
      Within d (Bounded (room d + 4)) (do
        accesses g s.token.start.offset true (← rounds) false e) :=
    fun _ he hstart => .next fun _ => within_accesses hg hstart he _ _ _
  generalize s.token.kind = k at h
  split at h
  · exact Within.begun hs h (within_construction hg) starts_construction hrest
  · exact Within.begun hs h (within_word rfl) (starts_word _) hrest
  · have himport := (within_importExpression (d := d) hg).weaken (Nat.le_add_right _ 3)
    exact Within.begun hs h himport starts_importExpression hrest
  · exact Within.begun hs h (within_primary hg) starts_primary hrest

theorem within_updated : Within d (Bounded (room d + 4)) (updated g) := by
  refine .part (within_leftHandSide hg) starts_leftHandSide fun start e he hstart => ?_
  exact .next fun _ => .ite (.next fun _ => .head rfl hstart he each_nil) (.pure he)

theorem within_unary : Within d (Bounded (room d)) (unary g) := by
  refine .nested fun hroom => ?_
  rw [← room_succ hroom]
  refine Within.weaken (b := room (d + 1) + 4) ?_ (by omega)
  refine .next fun start => .next fun op => ?_
  have hoperand : ∀ form : Node → Form Node, (∀ e, (form e).children = [some e]) →
      Within (d + 1) (Bounded (room (d + 1) + 4)) (do
        advance
        nodeFrom start (form (← g .unary))) := by
    refine fun form hchildren => .next fun _ => ?_
    have hunary : Within (d + 1) (Bounded (room (d + 1))) (g .unary) := hg.bounded _ _
    exact (hunary.weaken (Nat.le_add_right _ 3)).bind fun e he =>
      .node (by simp [hchildren, he])
  exact .ite (hoperand _ fun _ => rfl) (.ite (hoperand _ fun _ => rfl)
    (.ite (hoperand _ fun _ => rfl) (within_updated hg)))

omit hg in
theorem precedence_le (op : TokenKind) : precedence op ≤ 11 := by
  unfold precedence
  split <;> omega

omit hg in
/-- Only `**` takes in operators of its own precedence on its right. -/
theorem rightPrecedence_of_ne {op : TokenKind} (h : op ≠ .punct .power) :
    rightPrecedence op = precedence op ∧ precedence op ≤ 10 := by
  refine ⟨if_neg h, ?_⟩
  unfold precedence
  split <;> first | omega | contradiction

omit hg in
theorem within_goesOn (op : TokenKind) (above : Nat) :
    Within d (fun goes => goes = true → above < precedence op) (goesOn op above) := by
  intro s goes t hs h
  cases h
  refine ⟨hs, fun hgoes => ?_⟩
  simp only [Bool.and_eq_true, decide_eq_true_eq] at hgoes
  exact hgoes.1

/-- A right operand has room for fewer operators than the whole, and that of `**`,
which has room for as many, is free. -/
theorem within_operations (start above n : Nat) {left : Node} (hstart : left.span.start = start)
    (hleft : Bounded (room d + (11 - above)) left) :
    Within d (Bounded (room d + (11 - above))) (operations g start above n left) := by
  induction n generalizing left with
  | zero => exact .exhausted
  | succ n ih =>
    refine .next fun op => (within_goesOn op above).bind fun goes hgoes => ?_
    split
    · have habove := hgoes ‹_›
      have hle := precedence_le op
      refine .next fun _ => (hg.bounded d (.binary (rightPrecedence op))).bind fun right hright => ?_
      have hright : Bounded (room d + (11 - rightPrecedence op)) right := hright
      have hnode : ∀ stop, Bounded (room d + (11 - above))
          (.mk ⟨start, stop⟩ (.binaryExpression op left right)) := by
        intro stop
        obtain ⟨b, hb⟩ : ∃ b, room d + (11 - above) = b + 1 := ⟨room d + (10 - above), by omega⟩
        rw [hb] at hleft ⊢
        by_cases hop : op = .punct .power
        · subst hop
          refine .of_power hstart hleft (hright.mono ?_)
          show room d + 1 ≤ b + 1
          omega
        · obtain ⟨heq, hlt⟩ := rightPrecedence_of_ne hop
          rw [heq] at hright
          refine .of_head rfl (.inl hstart) hleft ?_
          simpa using hright.mono (by omega)
      intro s e t hs h
      obtain ⟨whole, _, hwhole, h⟩ := bind_ok h
      cases hwhole
      exact ih rfl (hnode _) hs h
    · exact .pure hleft

theorem within_binary (above : Nat) :
    Within d (Bounded (room d + (11 - above))) (binary g above) := by
  refine .part (within_unary hg) starts_unary fun start left hleft hstart => .next fun _ => ?_
  exact within_operations hg start above _ hstart (hleft.mono (by omega))

theorem within_conditional : Within d (Bounded (room d + 11)) (conditional g) := by
  refine .part (within_binary hg 0) (starts_binary 0) fun start test htest hstart => ?_
  refine .next fun _ => .ite ?_ (.pure htest)
  have hbranch : Within d (Bounded (room d + 10)) (g .assignment) :=
    (within_assigned hg).weaken (by omega)
  exact hbranch.allowIn.bind fun _ hc => .next fun _ => hbranch.bind fun _ ha =>
    .head rfl hstart htest (by simp [hc, ha])

theorem within_yieldExpression : Within d (Bounded (room d + 1)) (yieldExpression g) := by
  refine .next fun start => .next fun _ => ?_
  have hvalue : ∀ delegates, Within d (Bounded (room d + 1)) (do
      nodeFrom start (.yieldExpression (some (← g .assignment)) delegates)) :=
    fun _ => (within_assigned hg).bind fun _ he => .node (by simp [Form.children, he])
  have hnone : Within d (Bounded (room d + 1)) (nodeFrom start (.yieldExpression none false)) :=
    .node (by simp [Form.children])
  exact .next fun _ => .ite hnone (.next fun _ => .ite (hvalue _) (.next fun _ =>
    .ite (hvalue _) hnone))

theorem within_arrowBody : Within d (Bounded (room d)) (arrowBody g) :=
  .next fun _ => .ite (within_functionBody hg) (within_assigned hg)

theorem within_arrowEnd (start : Nat) (isAsync : Bool) {params : List Node}
    (hparams : Each (Bounded (room d + 1)) params) :
    Within d (Bounded (room d + 2)) (arrowEnd g start isAsync params) :=
  .next fun _ => .maybe <| .next fun _ => (within_arrowBody hg).bind fun _ hbody =>
    .node (by simp [Form.children, hparams, hbody.mono (Nat.le_succ _)])

theorem within_arrowParts (start : Nat) (isAsync : Bool) :
    Within d (Bounded (room d + 2)) (arrowParts g start isAsync) := by
  have hname : Within d (Each (Bounded (room d + 1))) ((fun p => [p]) <$> identifier) :=
    within_identifier.map fun _ he => by simpa using he
  exact .next fun _ => .ite
    ((within_parameters hg).bind fun _ hparams => within_arrowEnd hg _ _ hparams)
    (hname.bind fun _ hparams => within_arrowEnd hg _ _ hparams)

theorem within_arrowFunction : Within d (Bounded (room d + 2)) (arrowFunction g) :=
  .next fun _ => .next fun _ => .maybe (within_arrowParts hg _ _)

/-- The target of an assignment is free, and its value is a nesting. -/
theorem within_assignment : Within d (Bounded (room d)) (assignment g) := by
  refine .nested fun hroom => ?_
  rw [← room_succ hroom]
  refine Within.weaken (b := room (d + 1) + 11) ?_ (by omega)
  refine .next fun _ => .ite ((within_yieldExpression hg).weaken (by omega)) ?_
  refine .next fun _ => .ite ((within_arrowFunction hg).weaken (by omega)) ?_
  refine .part (within_conditional hg) starts_conditional fun start left hleft hstart => ?_
  refine .next fun op => .ite (.next fun _ => ?_) (.pure hleft)
  have htarget : Bounded (room (d + 1) + 11) (if op = .punct .assign then left.toTarget else left) ∧
      (if op = .punct .assign then left.toTarget else left).span.start = start := by
    split
    · exact ⟨hleft.toTarget, by rw [left.span_toTarget, hstart]⟩
    · exact ⟨hleft, hstart⟩
  refine ((within_assigned hg).weaken (Nat.le_add_right _ 10)).bind fun right hright => ?_
  exact .head rfl htarget.2 htarget.1 (by simpa using hright)

-- ---------------------------------------------------------------------------
-- Statements
-- ---------------------------------------------------------------------------

theorem within_declarator : Within d (Bounded (room d + 1)) (declarator g) := by
  refine .next fun start => (within_target hg).bind fun target htarget => .next fun _ => ?_
  have hend : ∀ value, Part (Bounded (room d)) value →
      Within d (Bounded (room d + 1)) (nodeFrom start (.variableDeclarator target value)) :=
    fun _ hvalue => .node (by simp [Form.children, htarget, hvalue])
  exact .ite (((within_assigned hg).map fun _ => part_some.2).bind hend)
    ((Within.pure part_none).bind hend)

theorem within_variableDeclaration :
    Within d (Bounded (room d + 2)) (variableDeclaration g) := by
  refine .next fun start => .next fun k => ?_
  split
  · exact .fail _
  · exact .next fun _ => (Within.separated (within_declarator hg)).bind fun _ hds =>
      .node (by simpa [Form.children] using hds)

theorem within_variableStatement : Within d (Bounded (room d + 2)) (variableStatement g) :=
  (within_variableDeclaration hg).allowIn.bind fun _ hd => .next fun _ =>
    .made fun _ => hd.respan rfl

theorem within_expressionStatement :
    Within d (Bounded (room d + 2)) (expressionStatement g) :=
  .next fun _ => (within_sequence (within_assignment hg)).allowIn.bind fun _ he =>
    .next fun _ => .node (by simp [Form.children, he])

theorem within_ifStatement : Within d (Bounded (room d + 2)) (ifStatement g) := by
  refine .next fun start => .next fun _ => (within_inParentheses hg).bind fun test htest => ?_
  have hbranch : Within d (Bounded (room d + 1)) (g .statement) :=
    (within_body hg).weaken (by omega)
  refine hbranch.bind fun consequent hc => .next fun _ => ?_
  have hend : ∀ alternate, Part (Bounded (room d + 1)) alternate →
      Within d (Bounded (room d + 2)) (nodeFrom start (.ifStatement test consequent alternate)) :=
    fun _ ha => .node (by simp [Form.children, htest, hc, ha])
  exact .ite ((hbranch.map fun _ => part_some.2).bind hend) ((Within.pure part_none).bind hend)

theorem within_whileStatement : Within d (Bounded (room d + 2)) (whileStatement g) :=
  .next fun _ => .next fun _ => (within_inParentheses hg).bind fun _ ht =>
    (within_body hg).bind fun _ hb =>
      .node (by simp [Form.children, ht, hb.mono (Nat.le_succ _)])

theorem within_doStatement : Within d (Bounded (room d + 2)) (doStatement g) :=
  .next fun _ => .next fun _ => (within_body hg).bind fun _ hb => .next fun _ =>
    (within_inParentheses hg).bind fun _ ht => .next fun _ =>
      .node (by simp [Form.children, ht, hb.mono (Nat.le_succ _)])

theorem within_forFirst : Within d (Part (Bounded (room d + 2))) (forFirst g) := by
  refine .next fun t => ?_
  have hdeclaration : Within d (Part (Bounded (room d + 2)))
      (some <$> withIn true (variableDeclaration g)) :=
    (within_variableDeclaration hg).withIn.map fun _ => part_some.2
  have hexpression : Within d (Part (Bounded (room d + 2)))
      (some <$> withIn true (expression g)) :=
    (within_expression hg).withIn.map fun _ he => part_some.2 (he.mono (Nat.le_succ _))
  split
  · exact .pure part_none
  · exact hdeclaration
  · exact hdeclaration
  · exact .ite hdeclaration hexpression
  · exact hexpression

theorem within_clauseBefore (ending : Punctuator) :
    Within d (Part (Bounded (room d + 2))) (clauseBefore g ending) := by
  have hend : ∀ clause : Option Node, Part (Bounded (room d + 2)) clause →
      Within d (Part (Bounded (room d + 2))) (do
        expect (.punct ending)
        return clause) :=
    fun _ hclause => .next fun _ => .pure hclause
  refine .next fun _ => .ite ((Within.pure part_none).bind hend) ?_
  refine Within.bind ?_ hend
  exact (within_expression hg).allowIn.map fun _ he => part_some.2 (he.mono (Nat.le_succ _))

theorem within_forClauses (start : Nat) {first : Option Node}
    (hfirst : Part (Bounded (room d + 2)) first) :
    Within d (Bounded (room d + 3)) (forClauses g start first) :=
  .next fun _ => (within_clauseBefore hg _).bind fun _ ht =>
    (within_clauseBefore hg _).bind fun _ hu => (within_body hg).bind fun _ hb =>
      .node (by simp [Form.children, hfirst, ht, hu, hb.mono (Nat.le_add_right _ 2)])

section Heads

variable {left : Node} (hleft : Bounded (room d + 2) left)
include hleft

theorem within_forOf (start : Nat) (isAwait : Bool) :
    Within d (Bounded (room d + 3)) (forOf g start isAwait left) :=
  .next fun _ => (within_assigned hg).allowIn.bind fun _ hr => .next fun _ =>
    (within_body hg).bind fun _ hb => .node <| by
      simp [Form.children, hleft.toTarget, hr.mono (Nat.le_add_right _ 2),
        hb.mono (Nat.le_add_right _ 2)]

theorem within_forIn (start : Nat) : Within d (Bounded (room d + 3)) (forIn g start left) :=
  .next fun _ => (within_expression hg).allowIn.bind fun _ hr => .next fun _ =>
    (within_body hg).bind fun _ hb => .node <| by
      simp [Form.children, hleft.toTarget, hr.mono (Nat.le_succ _),
        hb.mono (Nat.le_add_right _ 2)]

end Heads

theorem within_forStatement : Within d (Bounded (room d + 3)) (forStatement g) := by
  refine .next fun start => .next fun _ => .next fun isAwait => .next fun _ => ?_
  refine (within_forFirst hg).bind fun first hfirst => .next fun k => ?_
  split
  · exact within_forOf hg (part_some.1 hfirst) start isAwait
  · exact within_forIn hg (part_some.1 hfirst) start
  · exact within_forClauses hg start hfirst

theorem within_returnStatement : Within d (Bounded (room d + 2)) (returnStatement g) := by
  refine .next fun start => .next fun _ => .next fun t => ?_
  have hend : ∀ argument, Part (Bounded (room d + 1)) argument →
      Within d (Bounded (room d + 2)) (do
        endOfStatement
        nodeFrom start (.returnStatement argument)) :=
    fun _ ha => .next fun _ => .node (by simp [Form.children, ha])
  exact .ite ((Within.pure part_none).bind hend)
    (((within_expression hg).allowIn.map fun _ => part_some.2).bind hend)

omit hg in
theorem within_jumpStatement {b : Nat} {make : Option String → Form Node}
    (hkids : ∀ label, (make label).children.filterMap id = []) :
    Within d (Bounded b) (jumpStatement make) := by
  refine .next fun start => .next fun _ => .next fun t => ?_
  have hend : ∀ label, Within d (Bounded b) (do
      endOfStatement
      nodeFrom start (make label)) :=
    fun label => .next fun _ => .leaf (hkids label)
  exact .ite (.next hend) (.next hend)

theorem within_throwStatement : Within d (Bounded (room d + 2)) (throwStatement g) := by
  refine .next fun start => .next fun _ => ?_
  have hvalue : Within d (Bounded (room d + 2)) (do
      let argument ← allowIn (expression g)
      endOfStatement
      nodeFrom start (.throwStatement argument)) :=
    (within_expression hg).allowIn.bind fun _ he => .next fun _ =>
      .node (by simp [Form.children, he])
  exact .next fun _ => .maybe hvalue

theorem within_catchClause : Within d (Bounded (room d + 2)) (catchClause g) := by
  refine .next fun start => .next fun _ => ?_
  have hbody : ∀ param, Part (Bounded (room d + 1)) param → Within d (Bounded (room d + 2)) (do
      let body ← block g
      nodeFrom start (.catchClause param body)) :=
    fun _ hp => (within_block hg).bind fun _ hb => .node (by simp [Form.children, hp, hb])
  refine .next fun _ => .ite ?_ ((Within.pure part_none).bind hbody)
  exact (within_target hg).bind fun _ ht => .next fun _ =>
    (Within.pure (part_some.2 (ht.mono (Nat.le_succ _)))).bind hbody

theorem within_tryStatement : Within d (Bounded (room d + 3)) (tryStatement g) := by
  have hblock : Within d (Bounded (room d + 2)) (block g) :=
    (within_block hg).weaken (by omega)
  refine .next fun start => .next fun _ => hblock.bind fun body hbody => ?_
  have hend : ∀ handler finalizer : Option Node, Part (Bounded (room d + 2)) handler →
      Part (Bounded (room d + 2)) finalizer → Within d (Bounded (room d + 3)) (do
        if handler.isNone && finalizer.isNone then fail .handlerExpected
        nodeFrom start (.tryStatement body handler finalizer)) :=
    fun _ _ hh hf => .maybe (.node (by simp [Form.children, hbody, hh, hf]))
  have hfinalizer : ∀ handler : Option Node, Part (Bounded (room d + 2)) handler →
      Within d (Bounded (room d + 3)) (do
        let finalizer ← if ← accept (.word .finallyKw) then some <$> block g else pure none
        if handler.isNone && finalizer.isNone then fail .handlerExpected
        nodeFrom start (.tryStatement body handler finalizer)) :=
    fun handler hh => .next fun _ =>
      .ite ((hblock.map fun _ => part_some.2).bind fun _ hf => hend _ _ hh hf)
        ((Within.pure part_none).bind fun _ hf => hend _ _ hh hf)
  exact .next fun _ => .ite (((within_catchClause hg).map fun _ => part_some.2).bind hfinalizer)
    ((Within.pure part_none).bind hfinalizer)

theorem within_caseTest : Within d (Part (Bounded (room d + 1))) (caseTest g) := by
  refine .next fun k => ?_
  split
  · exact .next fun _ => (within_expression hg).allowIn.map fun _ => part_some.2
  · exact .next fun _ => .pure part_none
  · exact .fail _

theorem within_switchCase : Within d (Bounded (room d + 2)) (switchCase g) := by
  refine .next fun _ => (within_caseTest hg).bind fun _ ht => .next fun _ => ?_
  have hbody : Within d (Bounded (room d + 1)) (g .statement) :=
    (within_body hg).weaken (by omega)
  exact (Within.many _ hbody).bind fun _ hc => .node (by simp [Form.children, ht, hc])

theorem within_switchStatement : Within d (Bounded (room d + 3)) (switchStatement g) :=
  .next fun _ => .next fun _ => (within_inParentheses hg).bind fun _ hd => .next fun _ =>
    (Within.many _ (within_switchCase hg)).bind fun _ hcs => .next fun _ =>
      .node (by simp [Form.children, hd.mono (Nat.le_succ _), hcs])

theorem within_withStatement : Within d (Bounded (room d + 2)) (withStatement g) :=
  .next fun _ => .next fun _ => (within_inParentheses hg).bind fun _ ho =>
    (within_body hg).bind fun _ hb =>
      .node (by simp [Form.children, ho, hb.mono (Nat.le_succ _)])

theorem within_labeledStatement : Within d (Bounded (room d + 1)) (labeledStatement g) :=
  .next fun _ => .next fun _ => .next fun _ => (within_body hg).bind fun _ hb =>
    .node (by simp [Form.children, hb])

omit hg in
theorem within_debuggerStatement {b : Nat} : Within d (Bounded b) debuggerStatement :=
  .next fun _ => .next fun _ => .next fun _ => .leaf rfl

theorem within_otherStatement (t : Token) :
    Within d (Bounded (room d + 2)) (otherStatement g t) :=
  .ite ((within_labeledStatement hg).weaken (by omega)) (within_expressionStatement hg)

theorem within_statement : Within d (Bounded (room d)) (statement g) := by
  refine .nested fun hroom => ?_
  rw [← room_succ hroom]
  refine Within.weaken (b := room (d + 1) + 4) (.next fun t => ?_) (by omega)
  have hother := (within_otherStatement (d := d + 1) hg t).weaken (Nat.le_add_right _ 2)
  have hvariable := (within_variableStatement (d := d + 1) hg).weaken (Nat.le_add_right _ 2)
  have hfunction := fun isAsync nameRequired =>
    (within_functionDeclaration (d := d + 1) hg t.start.offset isAsync nameRequired).weaken
      (Nat.le_add_right _ 2)
  split
  · exact (within_block hg).weaken (by omega)
  · exact within_word rfl
  · exact hvariable
  · exact hvariable
  · exact .ite hvariable hother
  · exact hfunction _ _
  · exact .ite (.next fun _ => hfunction _ _) hother
  · exact within_classDeclaration hg _
  · exact (within_ifStatement hg).weaken (by omega)
  · exact (within_forStatement hg).weaken (by omega)
  · exact (within_whileStatement hg).weaken (by omega)
  · exact (within_doStatement hg).weaken (by omega)
  · exact (within_returnStatement hg).weaken (by omega)
  · exact within_jumpStatement fun _ => rfl
  · exact within_jumpStatement fun _ => rfl
  · exact (within_throwStatement hg).weaken (by omega)
  · exact (within_tryStatement hg).weaken (by omega)
  · exact (within_switchStatement hg).weaken (by omega)
  · exact (within_withStatement hg).weaken (by omega)
  · exact within_debuggerStatement
  · exact .ite hother (.fail _)
  · exact .fail _
  · exact hother

-- ---------------------------------------------------------------------------
-- The grammar
-- ---------------------------------------------------------------------------

theorem within_rule (phrase : Phrase) : Within d (Bounded (phrase.bound d)) (rule g phrase) := by
  cases phrase with
  | assignment => exact within_assignment hg
  | unary => exact within_unary hg
  | binary above => exact within_binary hg above
  | construction => exact within_construction hg
  | leftHandSide => exact within_leftHandSide hg
  | statement => exact within_statement hg
  | bindingTarget => exact within_bindingTarget hg

omit hg in
/-- The induction over the grammar: each phrase is read by its rule, and the
phrases inside it with one round less. -/
theorem keeps_read (n : Nat) : Keeps (read n) := by
  induction n with
  | zero => exact ⟨fun _ _ => .exhausted, fun _ _ _ h => by cases h⟩
  | succ n ih => exact ⟨fun _ phrase => within_rule ih phrase, starts_construction⟩

-- ---------------------------------------------------------------------------
-- Imports, exports and modules
-- ---------------------------------------------------------------------------

section Names

omit hg

instance still_fromClause : Still fromClause := by
  unfold fromClause
  infer_instance

instance still_importSpecifierFrom (start : Nat) (imported localName : String) :
    Still (importSpecifierFrom start imported localName) := .of_look

instance still_importSpecifier : Still importSpecifier := by
  unfold importSpecifier
  infer_instance

/-- A list of parts that leave the depth alone does so too. -/
instance still_listUntil {α : Type} (closing : Punctuator) (entry : Parser (Entry α))
    [Still entry] : Still (listUntil closing entry) :=
  Within.still fun _ => Within.listUntil (P := fun _ => True) closing Within.of_still

instance still_furtherImports : Still furtherImports where
  depth_eq s a t h := by
    obtain ⟨k, _, hkind, h⟩ := bind_ok h
    cases hkind
    generalize s.token.kind = k at h
    split at h
    · unfold namespaceImport at h
      exact Still.depth_eq h
    · unfold namedImports at h
      exact Still.depth_eq h
    · cases h

instance still_importSpecifiers : Still importSpecifiers := by
  unfold importSpecifiers
  infer_instance

instance still_exportSpecifier : Still exportSpecifier := by
  refine Within.still (P := fun _ => True) fun d => ?_
  refine .next fun start => .next fun localName => .next fun _ => ?_
  have hend : ∀ exported, Within d (fun _ => True) fun s : State =>
      .ok (⟨localName, exported, ⟨start, s.lastStop⟩⟩ : ExportSpecifier) s := by
    intro exported s a t hs h
    cases h
    exact ⟨hs, trivial⟩
  exact .ite (.next hend) (.next hend)

variable {b : Nat}

theorem within_importDeclaration : Within d (Bounded b) importDeclaration :=
  .next fun _ => .next fun _ => .next fun _ =>
    .ite (.next fun _ => .next fun _ => .leaf rfl) (.next fun _ => .next fun _ => .leaf rfl)

theorem within_exportList (start : Nat) : Within d (Bounded b) (exportList start) := by
  have hend : ∀ specifiers source,
      Within d (Bounded b) (nodeFrom start (.exportNamed none specifiers source)) :=
    fun _ _ => .leaf rfl
  exact .next fun _ => .next fun _ => .next fun _ => .next fun _ =>
    .ite (.next fun _ => hend _ _) (.next fun _ => hend _ _)

theorem within_exportAll (start : Nat) : Within d (Bounded b) (exportAll start) := by
  have hsource : ∀ exported, Within d (Bounded b) (do
      let source ← fromClause
      nodeFrom start (.exportAll exported source)) :=
    fun _ => .next fun _ => .leaf rfl
  exact .next fun _ => .next fun _ => .ite (.next hsource) (.next hsource)

end Names

theorem within_defaultValue : Within d (Bounded (room d + 4)) (defaultValue g) := by
  have hfunction : ∀ start isAsync nameRequired,
      Within d (Bounded (room d + 4)) (functionDeclaration g start isAsync nameRequired) :=
    fun _ _ _ => (within_functionDeclaration hg _ _ _).weaken (by omega)
  refine .next fun t => ?_
  split
  · exact hfunction _ _ _
  · exact within_classDeclaration hg _
  · refine .ite (.next fun _ => hfunction _ _ _) ?_
    exact (within_assigned hg).allowIn.bind fun _ he => .next fun _ => .pure (he.mono (by omega))

theorem within_exportedDeclaration (start : Nat) :
    Within d (Bounded (room d + 5)) (exportedDeclaration g start) := by
  refine (within_body hg).bind fun _ hd => ?_
  exact .node (by simpa [Form.children] using hd.mono (by omega))

theorem within_exportDeclaration : Within d (Bounded (room d + 5)) (exportDeclaration g) := by
  refine .next fun start => .next fun _ => .next fun t => ?_
  have hdeclaration := within_exportedDeclaration (d := d) hg start
  split
  · exact within_exportAll start
  · exact within_exportList start
  · exact .next fun _ => (within_defaultValue hg).bind fun _ hd =>
      .node (by simp [Form.children, hd])
  · exact hdeclaration
  · exact hdeclaration
  · exact hdeclaration
  · exact hdeclaration
  · exact hdeclaration
  · exact .ite hdeclaration (.fail _)
  · exact .fail _

theorem within_moduleItem : Within d (Bounded (room d + 5)) (moduleItem g) := by
  have hstatement : Within d (Bounded (room d + 5)) (g .statement) :=
    (within_body hg).weaken (by omega)
  refine .next fun t => ?_
  split
  · exact .ite hstatement within_importDeclaration
  · exact within_exportDeclaration hg
  · exact hstatement

theorem within_program : Within d (Bounded (room d + 6)) (program g) := by
  refine .next fun _ => (Within.many _ (within_moduleItem hg)).bind fun body hbody => ?_
  intro s n t hs hn
  cases hn
  exact ⟨hs, .of_parts (by simpa [Form.children] using hbody)⟩

end Rules

end Grammar

-- ---------------------------------------------------------------------------
-- Accepted texts
-- ---------------------------------------------------------------------------

/-- The tree of an accepted text is bounded by the limit on nestings. -/
theorem bounded_parse {text : String} {tree : Node} (h : Node.parse text = .ok tree) :
    Bounded (12 * Grammar.maxDepth + 6) tree := by
  rw [Node.parse, Grammar.readModule] at h
  split at h
  · rename_i tree' _ hprogram
    obtain rfl : tree' = tree := Except.ok.inj h
    exact (Grammar.within_program (Grammar.keeps_read _) rfl hprogram).2
  · cases h

end ModuleBundler

import ModuleBundler.Grammar.Module
import ModuleBundler.Proofs.Forward

/-!
# ModuleBundler — where property names stand

The name after a dot is a form of its own, so that scoping need not ask for each
name where it stands. That is right if the grammar makes this form after dots
and nowhere else, and if nothing but names stands after a dot.

* `NamesApart` — the trees of which this is true.
* `NamesApart.toTarget` — rereading a literal as a pattern moves no names.
* `Yields` — what holds of all results of a parser; one lemma for each rule.
* `namesApart_parse` — the trees of accepted texts are of this kind.
-/

namespace ModuleBundler

-- ---------------------------------------------------------------------------
-- Names apart
-- ---------------------------------------------------------------------------

/-- Whether a form may stand anywhere and has parts that may: a property name may
not, and the access of a member by its name has a part that may not. -/
def Form.isOrdinary {α : Type} : Form α → Bool
  | .propertyName _ | .memberExpression _ _ false _ => false
  | _ => true

/-- Whether a node names a member after a dot. -/
def Node.isMemberName (n : Node) : Bool :=
  match n.form with
  | .propertyName _ | .privateName _ => true
  | _ => false

/-- All of a list have a property. -/
def Each {α : Type} (P : α → Prop) (l : List α) : Prop := ∀ a ∈ l, P a

/-- A part has a property if it is there. -/
def Part (P : Node → Prop) (o : Option Node) : Prop := ∀ c ∈ o, P c

section Parts

variable {α : Type} {Q : α → Prop} {P : Node → Prop}

@[simp] theorem each_nil : Each Q [] := fun _ h => absurd h List.not_mem_nil

@[simp] theorem each_cons {a : α} {l : List α} : Each Q (a :: l) ↔ Q a ∧ Each Q l :=
  List.forall_mem_cons

@[simp] theorem each_append {l m : List α} : Each Q (l ++ m) ↔ Each Q l ∧ Each Q m :=
  List.forall_mem_append

@[simp] theorem each_reverse {l : List α} : Each Q l.reverse ↔ Each Q l := by
  simp [Each]

@[simp] theorem part_none : Part P none := fun _ h => absurd h (Option.not_mem_none _)

@[simp] theorem part_some {c : Node} : Part P (some c) ↔ P c := by
  simp [Part]

@[simp] theorem each_map_some {l : List Node} : Each (Part P) (l.map some) ↔ Each P l := by
  simp [Each]

end Parts

/-- Trees in which property names stand after dots and nowhere else, and after
dots there are names of members only. -/
inductive NamesApart : Node → Prop
  | ordinary {span : Text.Span} {form : Form Node} (hform : form.isOrdinary = true)
      (hparts : ∀ o ∈ form.children, ∀ c ∈ o, NamesApart c) : NamesApart (.mk span form)
  | access {span : Text.Span} {object property : Node} {isOptional : Bool}
      (hobject : NamesApart object) (hproperty : property.isMemberName = true) :
      NamesApart (.mk span (.memberExpression object property false isOptional))

namespace NamesApart

/-- Where a node stands in the text makes no difference. -/
theorem respan {n : Node} (h : NamesApart n) (span : Text.Span) :
    NamesApart (.mk span n.form) := by
  cases h with
  | ordinary hform hparts => exact .ordinary hform hparts
  | access hobject hproperty => exact .access hobject hproperty

theorem parts {span : Text.Span} {form : Form Node} (h : NamesApart (.mk span form))
    (hform : form.isOrdinary = true) : Each (Part NamesApart) form.children := by
  cases h with
  | ordinary _ hparts => exact hparts
  | access _ _ => cases hform

/-- A node whose form and parts are like any other. -/
theorem of_parts {span : Text.Span} {form : Form Node} (hform : form.isOrdinary = true)
    (hparts : Each (Part NamesApart) form.children) : NamesApart (.mk span form) :=
  .ordinary hform hparts

/-- A literal and the pattern that it stands for have the same names. -/
theorem toTarget {n : Node} (h : NamesApart n) : NamesApart n.toTarget := by
  fun_induction Node.toTarget n with
  | case1 s ps ih =>
    have hps : Each NamesApart ps := each_map_some.1 (h.parts rfl)
    refine of_parts rfl (each_map_some.2 fun t ht => ?_)
    obtain ⟨p, hp, rfl⟩ := List.mem_map.1 ht
    exact ih p hp (hps p hp)
  | case2 s es ih =>
    have hes : Each (Part NamesApart) es := h.parts rfl
    refine of_parts rfl fun o ho t ht => ?_
    obtain ⟨e, he, rfl⟩ := List.mem_map.1 ho
    cases e with
    | none => cases ht
    | some element =>
      obtain rfl := Option.some.inj ht
      exact ih _ he element rfl (hes _ he element rfl)
  | case3 s key value kind shorthand ih =>
    have hkey : Each (Part NamesApart) key.children ∧ NamesApart value := by
      simpa [Form.children] using h.parts rfl
    exact of_parts rfl (by simp [Form.children, hkey.1, ih hkey.2])
  | case4 s argument ih =>
    have hargument : NamesApart argument := by simpa [Form.children] using h.parts rfl
    exact of_parts rfl (by simp [Form.children, ih hargument])
  | case5 s argument ih =>
    have hargument : NamesApart argument := by simpa [Form.children] using h.parts rfl
    exact of_parts rfl (by simp [Form.children, ih hargument])
  | case6 s left right ih =>
    have hboth : NamesApart left ∧ NamesApart right := by
      simpa [Form.children] using h.parts rfl
    exact of_parts rfl (by simp [Form.children, ih hboth.1, hboth.2])
  | case7 => exact h

end NamesApart

namespace Grammar

-- ---------------------------------------------------------------------------
-- Results of parsers
-- ---------------------------------------------------------------------------

/-- A parser whose results have a property. -/
def Yields {α : Type} (P : α → Prop) (p : Parser α) : Prop := ∀ ⦃s a t⦄, p s = .ok a t → P a

namespace Yields

variable {α β : Type} {P : α → Prop} {Q : β → Prop}

theorem pure {x : α} (h : P x) : Yields P (Pure.pure x : Parser α) := by
  intro s a t ha
  cases ha
  exact h

theorem exhausted : Yields P (Grammar.exhausted : Parser α) := by
  intro s x t h
  cases h

theorem fail (fault : SyntaxFault) : Yields P (Grammar.fail fault) := by
  intro s a t h
  cases h

theorem bind {p : Parser α} {f : α → Parser β} (hp : Yields P p)
    (hf : ∀ x, P x → Yields Q (f x)) : Yields Q (p >>= f) := by
  intro s b u h
  obtain ⟨x, t, hx, hb⟩ := bind_ok h
  exact hf x (hp hx) hb

/-- The result of the first part does not matter. -/
theorem next {p : Parser α} {f : α → Parser β} (hf : ∀ x, Yields Q (f x)) : Yields Q (p >>= f) := by
  intro s b u h
  obtain ⟨x, t, -, hb⟩ := bind_ok h
  exact hf x hb

theorem map {p : Parser α} {f : α → β} (hp : Yields P p) (hf : ∀ x, P x → Q (f x)) :
    Yields Q (f <$> p) := by
  rw [map_eq_pure_bind]
  exact hp.bind fun x hx => .pure (hf x hx)

theorem ite {c : Prop} [Decidable c] {p q : Parser α} (hp : Yields P p) (hq : Yields P q) :
    Yields P (if c then p else q) := by
  split
  · exact hp
  · exact hq

/-- What may be done first makes no difference. -/
theorem maybe {c : Prop} [Decidable c] {p : Parser β} {q : Parser α} (hq : Yields P q) :
    Yields P (if c then p >>= fun _ => q else q) :=
  .ite (.next fun _ => hq) hq

theorem nested {p : Parser α} (hp : Yields P p) : Yields P (Grammar.nested p) := by
  intro s a u h
  obtain ⟨t, ht, -⟩ := nested_ok h
  exact hp ht

theorem withIn {noIn : Bool} {p : Parser α} (hp : Yields P p) :
    Yields P (Grammar.withIn noIn p) := by
  intro s a u h
  obtain ⟨t, ht, -⟩ := withIn_ok h
  exact hp ht

theorem allowIn {p : Parser α} (hp : Yields P p) : Yields P (Grammar.allowIn p) := hp.withIn

/-- A node whose form and parts are like any other. -/
theorem node {start : Nat} {form : Form Node} (hform : form.isOrdinary = true)
    (hparts : Each (Part NamesApart) form.children) : Yields NamesApart (nodeFrom start form) := by
  intro s n t hn
  cases hn
  exact .of_parts hform hparts

/-- The access of a member by its name. -/
theorem access {start : Nat} {object property : Node} {isOptional : Bool}
    (hobject : NamesApart object) (hproperty : property.isMemberName = true) :
    Yields NamesApart (nodeFrom start (.memberExpression object property false isOptional)) := by
  intro s n t hn
  cases hn
  exact .access hobject hproperty

-- ---------------------------------------------------------------------------
-- Lists
-- ---------------------------------------------------------------------------

theorem many_go (ends : TokenKind → Bool) {item : Parser α} (hitem : Yields P item) (n : Nat)
    {acc : List α} (hacc : Each P acc) :
    Yields (Each P) (many.go ends item n acc) := by
  induction n generalizing acc with
  | zero => exact .exhausted
  | succ n ih =>
    refine .next fun _ => .ite (.pure (by simpa using hacc)) ?_
    exact hitem.bind fun a ha => ih (each_cons.2 ⟨ha, hacc⟩)

theorem many (ends : TokenKind → Bool) {item : Parser α} (hitem : Yields P item) :
    Yields (Each P) (Grammar.many ends item) :=
  .next fun n => many_go ends hitem n each_nil

end Yields

/-- What an entry adds to its list. -/
def Entry.value {α : Type} : Entry α → α
  | plain a | whole a | last a => a

namespace Yields

variable {α : Type} {P : α → Prop}

theorem listUntil_go (closing : Punctuator) {entry : Parser (Entry α)}
    (hentry : Yields (fun e => P e.value) entry) (n : Nat) {acc : List α} (hacc : Each P acc) :
    Yields (Each P) (listUntil.go closing entry n acc) := by
  induction n generalizing acc with
  | zero => exact .exhausted
  | succ n ih =>
    refine .next fun _ => .ite (.pure (by simpa using hacc)) (hentry.bind fun e he => ?_)
    have hmore : Each P (e.value :: acc) := each_cons.2 ⟨he, hacc⟩
    cases e with
    | plain a => exact .next fun _ => .maybe (ih hmore)
    | whole a => exact ih hmore
    | last a => exact .pure (each_reverse.2 hmore)

theorem listUntil (closing : Punctuator) {entry : Parser (Entry α)}
    (hentry : Yields (fun e => P e.value) entry) :
    Yields (Each P) (Grammar.listUntil closing entry) :=
  .next fun n => listUntil_go closing hentry n each_nil

theorem separated_go {item : Parser α} (hitem : Yields P item) (n : Nat) {acc : List α}
    (hacc : Each P acc) : Yields (Each P) (separated.go item n acc) := by
  induction n generalizing acc with
  | zero => exact .exhausted
  | succ n ih =>
    refine .next fun _ => .ite ?_ (.pure (by simpa using hacc))
    exact hitem.bind fun a ha => ih (each_cons.2 ⟨ha, hacc⟩)

theorem separated {item : Parser α} (hitem : Yields P item) :
    Yields (Each P) (Grammar.separated item) :=
  .next fun n => hitem.bind fun a ha => separated_go hitem n (by simpa using ha)

end Yields

section Rules

variable {α : Type} {g : Reading}

-- ---------------------------------------------------------------------------
-- Keys, patterns and parameters
-- ---------------------------------------------------------------------------

theorem yields_identifier : Yields NamesApart identifier :=
  .next fun _ => .next fun _ => .node rfl (by simp [Form.children])

theorem yields_sequence {operand : Parser Node} (h : Yields NamesApart operand) :
    Yields NamesApart (sequence operand) := by
  refine .next fun start => (Yields.separated h).bind fun es hes => ?_
  split
  · exact .pure (each_cons.1 hes).1
  · exact .node rfl (by simpa [Form.children] using hes)

variable (hg : ∀ phrase, Yields NamesApart (g phrase))
include hg

theorem yields_expression : Yields NamesApart (expression g) := yields_sequence (hg _)

theorem yields_propertyKey :
    Yields (fun key => Each (Part NamesApart) key.children) (propertyKey g) := by
  refine .next fun k => ?_
  have hnamed : ∀ name : String, Each (Part NamesApart) (PropertyKey.named name).children :=
    fun _ => each_nil
  split
  · exact .next fun _ => .pure (hnamed _)
  · exact .next fun _ => .pure (hnamed _)
  · exact .next fun _ => .pure (hnamed _)
  · exact .next fun _ => .pure each_nil
  · refine .next fun _ => (hg _).allowIn.bind fun e he => .next fun _ => .pure ?_
    simpa [PropertyKey.children] using he
  · exact .next fun _ => .pure (hnamed _)

omit hg in
theorem yields_withDefault (start : Nat) {target : Node} (htarget : NamesApart target)
    {value : Parser Node} (hvalue : Yields NamesApart value) :
    Yields NamesApart (withDefault start target value) :=
  .next fun _ => .ite
    (hvalue.bind fun _ he => .node rfl (by simp [Form.children, htarget, he])) (.pure htarget)

theorem yields_bindingElement : Yields NamesApart (bindingElement g) :=
  .next fun start => (hg _).bind fun _ ht => yields_withDefault start ht (hg _).allowIn

theorem yields_restElement : Yields NamesApart (restElement g) :=
  .next fun _ => .next fun _ => (hg _).bind fun _ he => .node rfl (by simp [Form.children, he])

theorem yields_patternProperty : Yields NamesApart (patternProperty g) := by
  refine .next fun start => .next fun first => (yields_propertyKey hg).bind fun key hkey => ?_
  have hproperty : ∀ {value shorthand}, NamesApart value →
      Yields NamesApart (nodeFrom start (.property key value .init shorthand)) :=
    fun hvalue => .node rfl (by simp [Form.children, hkey, hvalue])
  refine .next fun _ => .ite ?_ (.ite ?_ (.fail _))
  · exact (yields_bindingElement hg).bind fun _ he => hproperty he
  · have hname : Yields NamesApart (nodeFrom start (.identifier first.value)) :=
      .node rfl (by simp [Form.children])
    exact hname.bind fun _ he => (yields_withDefault start he (hg _).allowIn).bind fun _ he =>
      hproperty he

theorem yields_objectPattern : Yields NamesApart (objectPattern g) := by
  refine .next fun start => .next fun _ => ?_
  have hentry : Yields (fun e => NamesApart e.value) (do
      if ← isAt (.punct .ellipsis) then return Entry.last (← restElement g)
      else return Entry.plain (← patternProperty g)) := by
    refine .next fun _ => .ite ?_ ?_
    · exact (yields_restElement hg).bind fun _ he => .pure he
    · exact (yields_patternProperty hg).bind fun _ he => .pure he
  exact (Yields.listUntil _ hentry).bind fun _ hps => .next fun _ =>
    .node rfl (by simpa [Form.children] using hps)

theorem yields_arrayPattern : Yields NamesApart (arrayPattern g) := by
  refine .next fun start => .next fun _ => ?_
  have hentry : Yields (fun e => Part NamesApart e.value) (do
      if ← accept (.punct .comma) then return Entry.whole none
      else if ← isAt (.punct .ellipsis) then return Entry.last (some (← restElement g))
      else return Entry.plain (some (← bindingElement g))) := by
    refine .next fun _ => .ite (.pure part_none) (.next fun _ => .ite ?_ ?_)
    · exact (yields_restElement hg).bind fun _ he => .pure (part_some.2 he)
    · exact (yields_bindingElement hg).bind fun _ he => .pure (part_some.2 he)
  exact (Yields.listUntil _ hentry).bind fun _ hes => .next fun _ =>
    .node rfl (by simpa [Form.children] using hes)

theorem yields_bindingTarget : Yields NamesApart (bindingTarget g) := by
  refine .nested (.next fun k => ?_)
  split
  · exact yields_objectPattern hg
  · exact yields_arrayPattern hg
  · exact yields_identifier

theorem yields_parameters : Yields (Each NamesApart) (parameters g) := by
  have hentry : Yields (fun e => NamesApart e.value) (do
      if ← isAt (.punct .ellipsis) then return Entry.last (← restElement g)
      else return Entry.plain (← bindingElement g)) := by
    refine .next fun _ => .ite ?_ ?_
    · exact (yields_restElement hg).bind fun _ he => .pure he
    · exact (yields_bindingElement hg).bind fun _ he => .pure he
  exact .next fun _ => (Yields.listUntil _ hentry).allowIn.bind fun _ hps => .next fun _ =>
    .pure hps

-- ---------------------------------------------------------------------------
-- Functions and classes
-- ---------------------------------------------------------------------------

theorem yields_bracedStatements : Yields (Each NamesApart) (bracedStatements g) :=
  .next fun _ => (Yields.many _ (.next fun _ => .ite (.fail _) (hg _))).bind fun _ hbody =>
    .next fun _ => .pure hbody

theorem yields_block : Yields NamesApart (block g) :=
  .next fun _ => (yields_bracedStatements hg).bind fun _ hbody =>
    .node rfl (by simpa [Form.children] using hbody)

theorem yields_functionBody : Yields NamesApart (functionBody g) := (yields_block hg).allowIn.nested

omit hg in
theorem yields_optionalName (isRequired : Bool) :
    Yields (Part NamesApart) (optionalName isRequired) :=
  .next fun _ => .ite (yields_identifier.bind fun _ he => .pure (part_some.2 he))
    (.ite (.fail _) (.pure part_none))

theorem yields_functionParts (isAsync nameRequired : Bool) :
    Yields (fun f => Each (Part NamesApart) f.children) (functionParts g isAsync nameRequired) :=
  .next fun _ => .next fun _ => (yields_optionalName _).bind fun _ hname =>
    (yields_parameters hg).bind fun _ hparams => (yields_functionBody hg).bind fun _ hbody =>
      .pure (by simp [FunctionParts.children, hname, hparams, hbody])

theorem yields_functionDeclaration (start : Nat) (isAsync nameRequired : Bool) :
    Yields NamesApart (functionDeclaration g start isAsync nameRequired) :=
  (yields_functionParts hg _ _).bind fun _ hf => .node rfl hf

theorem yields_functionExpression (start : Nat) (isAsync : Bool) :
    Yields NamesApart (functionExpression g start isAsync) :=
  (yields_functionParts hg _ _).bind fun _ hf => .node rfl hf

theorem yields_methodFunction (isAsync isGenerator : Bool) :
    Yields NamesApart (methodFunction g isAsync isGenerator) :=
  .next fun _ => (yields_parameters hg).bind fun _ hparams =>
    (yields_functionBody hg).bind fun _ hbody =>
      .node rfl (by simp [Form.children, FunctionParts.children, hparams, hbody])

theorem yields_methodOrField (start : Nat) (isStatic : Bool) :
    Yields NamesApart (methodOrField g start isStatic) := by
  refine .next fun head => (yields_propertyKey hg).bind fun key hkey => .next fun _ => ?_
  have hend : ∀ value, Part NamesApart value → Yields NamesApart (do
      endOfStatement
      nodeFrom start (.propertyDefinition key value isStatic)) :=
    fun _ hvalue => .next fun _ => .node rfl (by simp [Form.children, hkey, hvalue])
  refine .ite ?_ (.ite (.fail _) (.next fun _ => .ite ?_ ?_))
  · exact (yields_methodFunction hg _ _).bind fun _ hvalue =>
      .node rfl (by simp [Form.children, hkey, hvalue])
  · exact ((hg _).map fun _ => part_some.2).bind hend
  · exact (Yields.pure part_none).bind hend

theorem yields_classMember : Yields NamesApart (classMember g) := by
  refine .next fun t => .next fun start => .ite (.next fun _ => ?_) (.next fun isStatic => ?_)
  · exact (yields_bracedStatements hg).bind fun _ hbody =>
      .node rfl (by simpa [Form.children] using hbody)
  · exact yields_methodOrField hg start isStatic

theorem yields_classBody : Yields (Each NamesApart) (classBody g) := by
  have hmember : Yields (Part NamesApart) (do
      if ← accept (.punct .semicolon) then return none
      else if ← isAt .endOfFile then fail (.expected (.punct .closeBrace))
      else return some (← classMember g)) := by
    refine .next fun _ => .ite (.pure part_none) (.next fun _ => .ite (.fail _) ?_)
    exact (yields_classMember hg).bind fun _ he => .pure (part_some.2 he)
  refine .next fun _ => (Yields.many _ hmember).bind fun members h => .next fun _ => .pure ?_
  intro c hc
  obtain ⟨o, ho, rfl⟩ := List.mem_filterMap.1 hc
  exact h _ ho c rfl

theorem yields_classParts (nameRequired : Bool) :
    Yields (fun c => Each (Part NamesApart) c.children) (classParts g nameRequired) := by
  refine .next fun _ => (yields_optionalName _).bind fun name hname => ?_
  have hbody : ∀ superClass, Part NamesApart superClass →
      Yields (fun c => Each (Part NamesApart) c.children) (do
        let members ← nested (allowIn (classBody g))
        return (⟨name, superClass, members⟩ : ClassParts Node)) :=
    fun _ hsuper => (yields_classBody hg).allowIn.nested.bind fun _ hmembers =>
      .pure (by simp [ClassParts.children, hname, hsuper, hmembers])
  refine .next fun _ => .ite ?_ ?_
  · exact ((hg _).map fun _ => part_some.2).bind hbody
  · exact (Yields.pure part_none).bind hbody

theorem yields_classDeclaration (nameRequired : Bool) :
    Yields NamesApart (classDeclaration g nameRequired) :=
  .next fun _ => (yields_classParts hg _).bind fun _ hc => .node rfl hc

theorem yields_classExpression : Yields NamesApart (classExpression g) :=
  .next fun _ => (yields_classParts hg _).bind fun _ hc => .node rfl hc

-- ---------------------------------------------------------------------------
-- Primary expressions
-- ---------------------------------------------------------------------------

omit hg in
theorem yields_literal (make : String → Literal) : Yields NamesApart (literal make) :=
  .next fun _ => .next fun _ => .node rfl each_nil

omit hg in
/-- A form without parts, other than a property name. -/
theorem yields_word {form : Form Node} (hform : form.isOrdinary = true)
    (hparts : form.children = []) : Yields NamesApart (word form) :=
  .next fun _ => .next fun _ => .node hform (by simp [hparts])

omit hg in
theorem yields_regex : Yields NamesApart regex :=
  .next fun _ => .next fun _ => .ite (yields_literal _) (.fail _)

theorem yields_substitutions (n : Nat) (quasis : List String) {es : List Node}
    (hes : Each NamesApart es) :
    Yields (fun r => Each NamesApart r.2) (substitutions g n quasis es) := by
  induction n generalizing quasis es with
  | zero => exact .exhausted
  | succ n ih =>
    refine .next fun _ => (yields_expression hg).allowIn.bind fun e he => .next fun _ => ?_
    have hmore : Each NamesApart (e :: es) := each_cons.2 ⟨he, hes⟩
    refine .maybe (.next fun _ => .next fun piece => ?_)
    split
    · exact ih _ hmore
    · exact .pure (each_reverse.2 hmore)
    · exact .fail _

theorem yields_templateLiteral : Yields NamesApart (templateLiteral g) := by
  refine .next fun start => .next fun first => ?_
  have hend : ∀ r : List String × List Node, Each NamesApart r.2 → Yields NamesApart (do
      advance
      nodeFrom start (.templateLiteral r.1 r.2)) :=
    fun _ hes => .next fun _ => .node rfl (by simpa [Form.children] using hes)
  have hwhole : Yields (fun r : List String × List Node => Each NamesApart r.2)
      (pure ([first.value], [])) := .pure each_nil
  refine .ite (.next fun n => ?_) ?_
  · exact (yields_substitutions hg n _ each_nil).bind hend
  · exact hwhole.bind hend

theorem yields_inParentheses : Yields NamesApart (inParentheses g) :=
  .next fun _ => (yields_expression hg).allowIn.bind fun _ he => .next fun _ => .pure he

theorem yields_parenthesized : Yields NamesApart (parenthesized g) :=
  .next fun _ => (yields_inParentheses hg).bind fun _ he => .node rfl (by simp [Form.children, he])

theorem yields_spreadable : Yields NamesApart (spreadable g) :=
  .next fun _ => .next fun _ =>
    .ite ((hg _).bind fun _ he => .node rfl (by simp [Form.children, he])) (hg _)

theorem yields_arrayLiteral : Yields NamesApart (arrayLiteral g) := by
  refine .next fun start => .next fun _ => ?_
  have hentry : Yields (fun e => Part NamesApart e.value) (do
      if ← accept (.punct .comma) then return Entry.whole none
      else return Entry.plain (some (← allowIn (spreadable g)))) := by
    refine .next fun _ => .ite (.pure part_none) ?_
    exact (yields_spreadable hg).allowIn.bind fun _ he => .pure (part_some.2 he)
  exact (Yields.listUntil _ hentry).bind fun _ hes => .next fun _ =>
    .node rfl (by simpa [Form.children] using hes)

theorem yields_arguments : Yields (Each NamesApart) (arguments g) :=
  .next fun _ => (Yields.listUntil _ ((yields_spreadable hg).allowIn.map fun _ he => he)).bind
    fun _ hes => .next fun _ => .pure hes

theorem yields_propertyAfter (start : Nat) (head : MemberHead) :
    Yields NamesApart (propertyAfter g start head) := by
  refine .next fun keyStart => .next fun first => (yields_propertyKey hg).bind fun key hkey => ?_
  have hproperty : ∀ {value kind shorthand}, NamesApart value →
      Yields NamesApart (nodeFrom start (.property key value kind shorthand)) :=
    fun hvalue => .node rfl (by simp [Form.children, hkey, hvalue])
  refine .next fun _ => .ite ?_ (.ite (.fail _) (.next fun _ => .ite ?_ (.ite ?_ (.fail _))))
  · exact (yields_methodFunction hg _ _).bind fun _ hvalue => hproperty hvalue
  · exact (hg _).bind fun _ hvalue => hproperty hvalue
  · have hname : Yields NamesApart (nodeFrom keyStart (.identifier first.value)) :=
      .node rfl (by simp [Form.children])
    exact hname.bind fun _ he => (yields_withDefault keyStart he (hg _)).bind fun _ hvalue =>
      hproperty hvalue

theorem yields_objectProperty : Yields NamesApart (objectProperty g) := by
  refine .next fun start => .next fun _ => .ite ?_ (.next fun head => ?_)
  · exact (hg _).bind fun _ he => .node rfl (by simp [Form.children, he])
  · exact yields_propertyAfter hg start head

theorem yields_objectLiteral : Yields NamesApart (objectLiteral g) :=
  .next fun _ => .next fun _ =>
    (Yields.listUntil _ ((yields_objectProperty hg).allowIn.map fun _ he => he)).bind
      fun _ hps => .next fun _ => .node rfl (by simpa [Form.children] using hps)

theorem yields_primary : Yields NamesApart (primary g) := by
  refine .next fun t => .next fun start => ?_
  have htemplate := yields_templateLiteral hg
  have hfunction := yields_functionExpression hg start
  split
  · exact yields_word rfl rfl
  · exact yields_word rfl rfl
  · exact yields_word rfl rfl
  · exact yields_word rfl rfl
  · exact yields_literal _
  · exact yields_literal _
  · exact yields_literal _
  · exact yields_word rfl rfl
  · exact yields_regex
  · exact yields_regex
  · exact htemplate
  · exact htemplate
  · exact yields_parenthesized hg
  · exact yields_arrayLiteral hg
  · exact yields_objectLiteral hg
  · exact hfunction false
  · exact yields_classExpression hg
  · exact .ite (.next fun _ => hfunction true) yields_identifier
  · exact .ite yields_identifier (.fail _)

-- ---------------------------------------------------------------------------
-- Expressions
-- ---------------------------------------------------------------------------

omit hg in
theorem yields_memberName : Yields (fun n => n.isMemberName = true) memberName := by
  have hnode : ∀ start {form : Form Node}, (∀ span, (Node.mk span form).isMemberName = true) →
      Yields (fun n => n.isMemberName = true) (nodeFrom start form) := by
    intro start form h s n t hn
    cases hn
    exact h _
  refine .next fun t => .next fun start => .ite ?_ ?_
  · exact .next fun _ => .next fun _ => hnode _ fun _ => rfl
  · exact .next fun _ => hnode _ fun _ => rfl

theorem yields_computedMember : Yields NamesApart (computedMember g) :=
  .next fun _ => (yields_expression hg).allowIn.bind fun _ he => .next fun _ => .pure he

theorem yields_optionalAccess (start : Nat) {e : Node} (he : NamesApart e) :
    Yields NamesApart (optionalAccess g start e) := by
  refine .next fun k => ?_
  split
  · exact (yields_arguments hg).bind fun _ has => .node rfl (by simp [Form.children, he, has])
  · exact (yields_computedMember hg).bind fun _ hp => .node rfl (by simp [Form.children, he, hp])
  · exact yields_memberName.bind fun _ hp => .access he hp

theorem yields_accesses (start : Nat) (calls : Bool) (n : Nat) (isOptional : Bool) {e : Node}
    (he : NamesApart e) : Yields NamesApart (accesses g start calls n isOptional e) := by
  induction n generalizing isOptional e with
  | zero => exact .exhausted
  | succ n ih =>
    have hnext : ∀ {form : Form Node}, form.isOrdinary = true →
        Each (Part NamesApart) form.children → Yields NamesApart (do
          accesses g start calls n isOptional (← nodeFrom start form)) :=
      fun hform hparts => (Yields.node hform hparts).bind fun _ h => ih _ h
    have htemplate := yields_templateLiteral hg
    refine .next fun k => ?_
    split
    · exact .next fun _ => yields_memberName.bind fun _ hp =>
        (Yields.access he hp).bind fun _ h => ih _ h
    · refine .ite (.next fun _ => ?_) (.pure he)
      exact (yields_optionalAccess hg start he).bind fun _ h => ih _ h
    · exact (yields_computedMember hg).bind fun _ hp =>
        hnext rfl (by simp [Form.children, he, hp])
    · exact .ite (.fail _) (htemplate.bind fun _ hq => hnext rfl (by simp [Form.children, he, hq]))
    · exact .ite (.fail _) (htemplate.bind fun _ hq => hnext rfl (by simp [Form.children, he, hq]))
    · exact .ite ((yields_arguments hg).bind fun _ has =>
        hnext rfl (by simp [Form.children, he, has])) (.pure he)
    · exact .pure he

omit hg in
theorem yields_metaProperty (start : Nat) (object property : String) :
    Yields NamesApart (metaProperty start object property) :=
  .next fun _ => .ite (.node rfl each_nil) (.fail _)

theorem yields_construction : Yields NamesApart (construction g) := by
  refine .next fun start => .next fun _ => .next fun _ => .ite (yields_metaProperty _ _ _) ?_
  refine .next fun calleeStart => .next fun k => ?_
  have hrest : ∀ callee : Node, NamesApart callee → Yields NamesApart (do
      let callee ← accesses g calleeStart false (← rounds) false callee
      let values ← if ← isAt (.punct .openParen) then arguments g else pure []
      nodeFrom start (.newExpression callee values)) := by
    refine fun callee hcallee => .next fun n => ?_
    refine (yields_accesses hg _ _ _ _ hcallee).bind fun e he => .next fun _ => ?_
    have hend : ∀ values, Each NamesApart values →
        Yields NamesApart (nodeFrom start (.newExpression e values)) :=
      fun _ hvalues => .node rfl (by simp [Form.children, he, hvalues])
    exact .ite ((yields_arguments hg).bind hend) ((Yields.pure each_nil).bind hend)
  split
  · exact (hg _).bind hrest
  · exact (yields_word rfl rfl).bind hrest
  · exact (yields_primary hg).bind hrest

theorem yields_importExpression : Yields NamesApart (importExpression g) := by
  refine .next fun start => .next fun _ => .next fun _ => .ite (yields_metaProperty _ _ _) ?_
  refine .next fun _ => (hg _).allowIn.bind fun source hsource => ?_
  have hend : Yields NamesApart (do
      expect (.punct .closeParen)
      nodeFrom start (.importExpression source)) :=
    .next fun _ => .node rfl (by simp [Form.children, hsource])
  exact .next fun _ => .ite (.next fun _ => .ite (.next fun _ => .next fun _ => hend) hend) hend

theorem yields_leftHandSide : Yields NamesApart (leftHandSide g) := by
  refine .next fun start => .next fun k => ?_
  have hrest : ∀ e : Node, NamesApart e → Yields NamesApart (do
      accesses g start true (← rounds) false e) :=
    fun _ he => .next fun _ => yields_accesses hg _ _ _ _ he
  split
  · exact (yields_construction hg).bind hrest
  · exact (yields_word rfl rfl).bind hrest
  · exact (yields_importExpression hg).bind hrest
  · exact (yields_primary hg).bind hrest

theorem yields_updated : Yields NamesApart (updated g) :=
  .next fun _ => (yields_leftHandSide hg).bind fun _ he => .next fun _ =>
    .ite (.next fun _ => .node rfl (by simp [Form.children, he])) (.pure he)

theorem yields_unary : Yields NamesApart (unary g) := by
  refine .nested (.next fun start => .next fun op => ?_)
  have hoperand : ∀ form : Node → Form Node, (∀ e, (form e).isOrdinary = true) →
      (∀ e, (form e).children = [some e]) → Yields NamesApart (do
        advance
        nodeFrom start (form (← g .unary))) :=
    fun _ hform hparts => .next fun _ => (hg _).bind fun e he =>
      .node (hform e) (by simp [hparts, he])
  exact .ite (hoperand _ (fun _ => rfl) fun _ => rfl)
    (.ite (hoperand _ (fun _ => rfl) fun _ => rfl)
      (.ite (hoperand _ (fun _ => rfl) fun _ => rfl) (yields_updated hg)))

theorem yields_operations (start above n : Nat) {left : Node} (hleft : NamesApart left) :
    Yields NamesApart (operations g start above n left) := by
  induction n generalizing left with
  | zero => exact .exhausted
  | succ n ih =>
    refine .next fun op => .next fun _ => .ite ?_ (.pure hleft)
    refine .next fun _ => (hg _).bind fun right hright => ?_
    have hnode : Yields NamesApart (nodeFrom start (.binaryExpression op left right)) :=
      .node rfl (by simp [Form.children, hleft, hright])
    exact hnode.bind fun _ h => ih h

theorem yields_binary (above : Nat) : Yields NamesApart (binary g above) :=
  .next fun _ => (yields_unary hg).bind fun _ he => .next fun _ =>
    yields_operations hg _ _ _ he

theorem yields_conditional : Yields NamesApart (conditional g) := by
  refine .next fun start => (yields_binary hg 0).bind fun test htest => ?_
  refine .next fun _ => .ite ?_ (.pure htest)
  exact (hg _).allowIn.bind fun _ hc => .next fun _ => (hg _).bind fun _ ha =>
    .node rfl (by simp [Form.children, htest, hc, ha])

theorem yields_yieldExpression : Yields NamesApart (yieldExpression g) := by
  refine .next fun start => .next fun _ => ?_
  have hvalue : ∀ delegates, Yields NamesApart (do
      nodeFrom start (.yieldExpression (some (← g .assignment)) delegates)) :=
    fun _ => (hg _).bind fun _ he => .node rfl (by simp [Form.children, he])
  have hnone : Yields NamesApart (nodeFrom start (.yieldExpression none false)) :=
    .node rfl (by simp [Form.children])
  exact .next fun _ => .ite hnone (.next fun _ => .ite (hvalue _) (.next fun _ =>
    .ite (hvalue _) hnone))

theorem yields_arrowBody : Yields NamesApart (arrowBody g) :=
  .next fun _ => .ite (yields_functionBody hg) (hg _)

theorem yields_arrowEnd (start : Nat) (isAsync : Bool) {params : List Node}
    (hparams : Each NamesApart params) : Yields NamesApart (arrowEnd g start isAsync params) :=
  .next fun _ => .maybe <| .next fun _ => (yields_arrowBody hg).bind fun _ hbody =>
    .node rfl (by simp [Form.children, hparams, hbody])

theorem yields_arrowParts (start : Nat) (isAsync : Bool) :
    Yields NamesApart (arrowParts g start isAsync) := by
  have hname : Yields (Each NamesApart) ((fun p => [p]) <$> identifier) :=
    yields_identifier.map fun _ he => by simpa using he
  exact .next fun _ => .ite
    ((yields_parameters hg).bind fun _ hparams => yields_arrowEnd hg _ _ hparams)
    (hname.bind fun _ hparams => yields_arrowEnd hg _ _ hparams)

theorem yields_arrowFunction : Yields NamesApart (arrowFunction g) :=
  .next fun _ => .next fun _ => .maybe (yields_arrowParts hg _ _)

theorem yields_assignment : Yields NamesApart (assignment g) := by
  refine .nested (.next fun _ => .ite (yields_yieldExpression hg) ?_)
  refine .next fun _ => .ite (yields_arrowFunction hg) ?_
  refine .next fun start => (yields_conditional hg).bind fun left hleft => ?_
  refine .next fun op => .ite (.next fun _ => (hg _).bind fun right hright => ?_) (.pure hleft)
  have htarget : NamesApart (if op = .punct .assign then left.toTarget else left) := by
    split
    · exact hleft.toTarget
    · exact hleft
  exact .node rfl (by simp [Form.children, htarget, hright])

-- ---------------------------------------------------------------------------
-- Statements
-- ---------------------------------------------------------------------------

theorem yields_declarator : Yields NamesApart (declarator g) := by
  refine .next fun start => (hg _).bind fun target htarget => .next fun _ => ?_
  have hend : ∀ value, Part NamesApart value →
      Yields NamesApart (nodeFrom start (.variableDeclarator target value)) :=
    fun _ hvalue => .node rfl (by simp [Form.children, htarget, hvalue])
  exact .ite (((hg _).map fun _ => part_some.2).bind hend) ((Yields.pure part_none).bind hend)

theorem yields_variableDeclaration : Yields NamesApart (variableDeclaration g) := by
  refine .next fun start => .next fun k => ?_
  split
  · exact .fail _
  · exact .next fun _ => (Yields.separated (yields_declarator hg)).bind fun _ hds =>
      .node rfl (by simpa [Form.children] using hds)

/-- The statement has the form of its declaration. -/
theorem yields_variableStatement : Yields NamesApart (variableStatement g) := by
  refine (yields_variableDeclaration hg).allowIn.bind fun declaration hd => .next fun _ => ?_
  intro s n t hn
  cases hn
  exact hd.respan _

theorem yields_expressionStatement : Yields NamesApart (expressionStatement g) :=
  .next fun _ => (yields_sequence (yields_assignment hg)).allowIn.bind fun _ he =>
    .next fun _ => .node rfl (by simp [Form.children, he])

theorem yields_ifStatement : Yields NamesApart (ifStatement g) := by
  refine .next fun start => .next fun _ => (yields_inParentheses hg).bind fun test htest => ?_
  refine (hg _).bind fun consequent hc => .next fun _ => ?_
  have hend : ∀ alternate, Part NamesApart alternate →
      Yields NamesApart (nodeFrom start (.ifStatement test consequent alternate)) :=
    fun _ ha => .node rfl (by simp [Form.children, htest, hc, ha])
  exact .ite (((hg _).map fun _ => part_some.2).bind hend) ((Yields.pure part_none).bind hend)

theorem yields_whileStatement : Yields NamesApart (whileStatement g) :=
  .next fun _ => .next fun _ => (yields_inParentheses hg).bind fun _ ht => (hg _).bind fun _ hb =>
    .node rfl (by simp [Form.children, ht, hb])

theorem yields_doStatement : Yields NamesApart (doStatement g) :=
  .next fun _ => .next fun _ => (hg _).bind fun _ hb => .next fun _ =>
    (yields_inParentheses hg).bind fun _ ht => .next fun _ =>
      .node rfl (by simp [Form.children, ht, hb])

theorem yields_forFirst : Yields (Part NamesApart) (forFirst g) := by
  refine .next fun t => ?_
  have hdeclaration : Yields (Part NamesApart)
      (some <$> withIn true (variableDeclaration g)) :=
    (yields_variableDeclaration hg).withIn.map fun _ => part_some.2
  have hexpression : Yields (Part NamesApart) (some <$> withIn true (expression g)) :=
    (yields_expression hg).withIn.map fun _ => part_some.2
  split
  · exact .pure part_none
  · exact hdeclaration
  · exact hdeclaration
  · exact .ite hdeclaration hexpression
  · exact hexpression

theorem yields_clauseBefore (ending : Punctuator) :
    Yields (Part NamesApart) (clauseBefore g ending) := by
  have hend : ∀ clause : Option Node, Part NamesApart clause → Yields (Part NamesApart) (do
      expect (.punct ending)
      return clause) :=
    fun _ hclause => .next fun _ => .pure hclause
  refine .next fun _ => .ite ((Yields.pure part_none).bind hend) ?_
  exact ((yields_expression hg).allowIn.map fun _ => part_some.2).bind hend

theorem yields_forClauses (start : Nat) {first : Option Node} (hfirst : Part NamesApart first) :
    Yields NamesApart (forClauses g start first) :=
  .next fun _ => (yields_clauseBefore hg _).bind fun _ ht =>
    (yields_clauseBefore hg _).bind fun _ hu => (hg _).bind fun _ hb =>
      .node rfl (by simp [Form.children, hfirst, ht, hu, hb])

theorem yields_forOf (start : Nat) (isAwait : Bool) {left : Node} (hleft : NamesApart left) :
    Yields NamesApart (forOf g start isAwait left) :=
  .next fun _ => (hg _).allowIn.bind fun _ hr => .next fun _ => (hg _).bind fun _ hb =>
    .node rfl (by simp [Form.children, hleft.toTarget, hr, hb])

theorem yields_forIn (start : Nat) {left : Node} (hleft : NamesApart left) :
    Yields NamesApart (forIn g start left) :=
  .next fun _ => (yields_expression hg).allowIn.bind fun _ hr => .next fun _ =>
    (hg _).bind fun _ hb => .node rfl (by simp [Form.children, hleft.toTarget, hr, hb])

theorem yields_forStatement : Yields NamesApart (forStatement g) := by
  refine .next fun start => .next fun _ => .next fun isAwait => .next fun _ => ?_
  refine (yields_forFirst hg).bind fun first hfirst => .next fun k => ?_
  split
  · exact yields_forOf hg start isAwait (part_some.1 hfirst)
  · exact yields_forIn hg start (part_some.1 hfirst)
  · exact yields_forClauses hg start hfirst

theorem yields_returnStatement : Yields NamesApart (returnStatement g) := by
  refine .next fun start => .next fun _ => .next fun t => ?_
  have hend : ∀ argument, Part NamesApart argument → Yields NamesApart (do
      endOfStatement
      nodeFrom start (.returnStatement argument)) :=
    fun _ ha => .next fun _ => .node rfl (by simp [Form.children, ha])
  exact .ite ((Yields.pure part_none).bind hend)
    (((yields_expression hg).allowIn.map fun _ => part_some.2).bind hend)

omit hg in
theorem yields_jumpStatement {make : Option String → Form Node}
    (hform : ∀ label, (make label).isOrdinary = true)
    (hparts : ∀ label, (make label).children = []) : Yields NamesApart (jumpStatement make) := by
  refine .next fun start => .next fun _ => .next fun t => ?_
  have hend : ∀ label, Yields NamesApart (do
      endOfStatement
      nodeFrom start (make label)) :=
    fun label => .next fun _ => .node (hform label) (by simp [hparts])
  exact .ite (.next hend) (.next hend)

theorem yields_throwStatement : Yields NamesApart (throwStatement g) := by
  refine .next fun start => .next fun _ => ?_
  have hvalue : Yields NamesApart (do
      let argument ← allowIn (expression g)
      endOfStatement
      nodeFrom start (.throwStatement argument)) :=
    (yields_expression hg).allowIn.bind fun _ he => .next fun _ =>
      .node rfl (by simp [Form.children, he])
  exact .next fun _ => .maybe hvalue

theorem yields_catchClause : Yields NamesApart (catchClause g) := by
  refine .next fun start => .next fun _ => ?_
  have hbody : ∀ param, Part NamesApart param → Yields NamesApart (do
      let body ← block g
      nodeFrom start (.catchClause param body)) :=
    fun _ hp => (yields_block hg).bind fun _ hb => .node rfl (by simp [Form.children, hp, hb])
  refine .next fun _ => .ite ?_ ((Yields.pure part_none).bind hbody)
  exact (hg _).bind fun _ ht => .next fun _ => (Yields.pure (part_some.2 ht)).bind hbody

theorem yields_tryStatement : Yields NamesApart (tryStatement g) := by
  refine .next fun start => .next fun _ => (yields_block hg).bind fun body hbody => ?_
  have hend : ∀ handler finalizer : Option Node, Part NamesApart handler →
      Part NamesApart finalizer → Yields NamesApart (do
        if handler.isNone && finalizer.isNone then fail .handlerExpected
        nodeFrom start (.tryStatement body handler finalizer)) :=
    fun _ _ hh hf => .maybe (.node rfl (by simp [Form.children, hbody, hh, hf]))
  have hfinalizer : ∀ handler : Option Node, Part NamesApart handler → Yields NamesApart (do
      let finalizer ← if ← accept (.word .finallyKw) then some <$> block g else pure none
      if handler.isNone && finalizer.isNone then fail .handlerExpected
      nodeFrom start (.tryStatement body handler finalizer)) :=
    fun handler hh => .next fun _ =>
      .ite (((yields_block hg).map fun _ => part_some.2).bind fun _ hf => hend _ _ hh hf)
        ((Yields.pure part_none).bind fun _ hf => hend _ _ hh hf)
  exact .next fun _ => .ite (((yields_catchClause hg).map fun _ => part_some.2).bind hfinalizer)
    ((Yields.pure part_none).bind hfinalizer)

theorem yields_caseTest : Yields (Part NamesApart) (caseTest g) := by
  refine .next fun k => ?_
  split
  · exact .next fun _ => (yields_expression hg).allowIn.map fun _ => part_some.2
  · exact .next fun _ => .pure part_none
  · exact .fail _

theorem yields_switchCase : Yields NamesApart (switchCase g) :=
  .next fun _ => (yields_caseTest hg).bind fun _ ht => .next fun _ =>
    (Yields.many _ (hg _)).bind fun _ hc => .node rfl (by simp [Form.children, ht, hc])

theorem yields_switchStatement : Yields NamesApart (switchStatement g) :=
  .next fun _ => .next fun _ => (yields_inParentheses hg).bind fun _ hd => .next fun _ =>
    (Yields.many _ (yields_switchCase hg)).bind fun _ hcs => .next fun _ =>
      .node rfl (by simp [Form.children, hd, hcs])

theorem yields_withStatement : Yields NamesApart (withStatement g) :=
  .next fun _ => .next fun _ => (yields_inParentheses hg).bind fun _ ho => (hg _).bind fun _ hb =>
    .node rfl (by simp [Form.children, ho, hb])

theorem yields_labeledStatement : Yields NamesApart (labeledStatement g) :=
  .next fun _ => .next fun _ => .next fun _ => (hg _).bind fun _ hb =>
    .node rfl (by simp [Form.children, hb])

omit hg in
theorem yields_debuggerStatement : Yields NamesApart debuggerStatement :=
  .next fun _ => .next fun _ => .next fun _ => .node rfl each_nil

theorem yields_otherStatement (t : Token) : Yields NamesApart (otherStatement g t) :=
  .ite (yields_labeledStatement hg) (yields_expressionStatement hg)

theorem yields_statement : Yields NamesApart (statement g) := by
  refine .nested (.next fun t => ?_)
  have hother := yields_otherStatement hg t
  have hvariable := yields_variableStatement hg
  have hfunction := yields_functionDeclaration hg t.start.offset
  split
  · exact yields_block hg
  · exact yields_word rfl rfl
  · exact hvariable
  · exact hvariable
  · exact .ite hvariable hother
  · exact hfunction _ _
  · exact .ite (.next fun _ => hfunction _ _) hother
  · exact yields_classDeclaration hg _
  · exact yields_ifStatement hg
  · exact yields_forStatement hg
  · exact yields_whileStatement hg
  · exact yields_doStatement hg
  · exact yields_returnStatement hg
  · exact yields_jumpStatement (fun _ => rfl) fun _ => rfl
  · exact yields_jumpStatement (fun _ => rfl) fun _ => rfl
  · exact yields_throwStatement hg
  · exact yields_tryStatement hg
  · exact yields_switchStatement hg
  · exact yields_withStatement hg
  · exact yields_debuggerStatement
  · exact .ite hother (.fail _)
  · exact .fail _
  · exact hother

-- ---------------------------------------------------------------------------
-- The grammar
-- ---------------------------------------------------------------------------

theorem yields_rule (phrase : Phrase) : Yields NamesApart (rule g phrase) := by
  cases phrase with
  | assignment => exact yields_assignment hg
  | unary => exact yields_unary hg
  | binary above => exact yields_binary hg above
  | construction => exact yields_construction hg
  | leftHandSide => exact yields_leftHandSide hg
  | statement => exact yields_statement hg
  | bindingTarget => exact yields_bindingTarget hg

omit hg in
/-- The induction over the grammar: each phrase is read by its rule, and the
phrases inside it with one round less. -/
theorem yields_read (n : Nat) (phrase : Phrase) : Yields NamesApart (read n phrase) := by
  induction n generalizing phrase with
  | zero => exact .exhausted
  | succ n ih => exact yields_rule ih phrase

-- ---------------------------------------------------------------------------
-- Imports, exports and modules
-- ---------------------------------------------------------------------------

omit hg in
theorem yields_importDeclaration : Yields NamesApart importDeclaration :=
  .next fun _ => .next fun _ => .next fun _ =>
    .ite (.next fun _ => .next fun _ => .node rfl each_nil)
      (.next fun _ => .next fun _ => .node rfl each_nil)

omit hg in
theorem yields_exportList (start : Nat) : Yields NamesApart (exportList start) := by
  have hend : ∀ specifiers source,
      Yields NamesApart (nodeFrom start (.exportNamed none specifiers source)) :=
    fun _ _ => .node rfl (by simp [Form.children])
  exact .next fun _ => .next fun _ => .next fun _ => .next fun _ =>
    .ite (.next fun _ => hend _ _) (.next fun _ => hend _ _)

omit hg in
theorem yields_exportAll (start : Nat) : Yields NamesApart (exportAll start) := by
  have hsource : ∀ exported, Yields NamesApart (do
      let source ← fromClause
      nodeFrom start (.exportAll exported source)) :=
    fun _ => .next fun _ => .node rfl each_nil
  exact .next fun _ => .next fun _ => .ite (.next hsource) (.next hsource)

theorem yields_defaultValue : Yields NamesApart (defaultValue g) := by
  refine .next fun t => ?_
  split
  · exact yields_functionDeclaration hg _ _ _
  · exact yields_classDeclaration hg _
  · refine .ite (.next fun _ => yields_functionDeclaration hg _ _ _) ?_
    exact (hg _).allowIn.bind fun _ he => .next fun _ => .pure he

theorem yields_exportedDeclaration (start : Nat) :
    Yields NamesApart (exportedDeclaration g start) :=
  (hg _).bind fun _ hd => .node rfl (by simp [Form.children, hd])

theorem yields_exportDeclaration : Yields NamesApart (exportDeclaration g) := by
  refine .next fun start => .next fun _ => .next fun t => ?_
  have hdeclaration := yields_exportedDeclaration hg start
  split
  · exact yields_exportAll start
  · exact yields_exportList start
  · exact .next fun _ => (yields_defaultValue hg).bind fun _ hd =>
      .node rfl (by simp [Form.children, hd])
  · exact hdeclaration
  · exact hdeclaration
  · exact hdeclaration
  · exact hdeclaration
  · exact hdeclaration
  · exact .ite hdeclaration (.fail _)
  · exact .fail _

theorem yields_moduleItem : Yields NamesApart (moduleItem g) := by
  refine .next fun t => ?_
  split
  · exact .ite (hg _) yields_importDeclaration
  · exact yields_exportDeclaration hg
  · exact hg _

theorem yields_program : Yields NamesApart (program g) := by
  refine .next fun _ => (Yields.many _ (yields_moduleItem hg)).bind fun body hbody => ?_
  intro s n t hn
  cases hn
  exact .of_parts rfl (by simpa [Form.children] using hbody)

end Rules

end Grammar

-- ---------------------------------------------------------------------------
-- Accepted texts
-- ---------------------------------------------------------------------------

/-- In the tree of an accepted text, property names stand after dots only, and
after dots there are names of members only. -/
theorem namesApart_parse {text : String} {tree : Node} (h : Node.parse text = .ok tree) :
    NamesApart tree := by
  rw [Node.parse, Grammar.readModule] at h
  split at h
  · rename_i tree' _ hprogram
    obtain rfl : tree' = tree := Except.ok.inj h
    exact Grammar.yields_program (Grammar.yields_read _) hprogram
  · cases h

end ModuleBundler

import Mathlib.Data.List.Forall2
import ModuleBundler.Proofs.Positions
import ModuleBundler.Proofs.PropertyNames
import ModuleBundler.Proofs.Spans

/-!
# ModuleBundler — how deep trees are

A parser runs on a call stack, and what it calls for a part that begins where the
whole does is called but once for a chain of such parts. What nests is a part that
begins further on.

* `Node.furtherSteps`, `Node.unguardedSteps` — the steps of a position that go
  further on, and those to parts that no rule counts.
* `Bounded` — trees with no more of the former than a bound and the latter.
* `Bounded.toTarget` — rereading a literal as a pattern makes it no deeper.
* `Within` — what holds of all results of a parser that begins at a given depth.
-/

namespace ModuleBundler

-- ---------------------------------------------------------------------------
-- Steps
-- ---------------------------------------------------------------------------

/-- Whether the part with a number is read by a rule that does not count it,
though it begins further on than the form. -/
def Form.isUnguarded {α : Type} (form : Form α) (i : Nat) : Bool :=
  match form with
  | .newExpression _ _ => i = 0
  | .binaryExpression (.punct .power) _ _ => i = 1
  | .classDeclaration c | .classExpression c => c.superClass.isSome && i = c.name.toList.length
  | _ => false

namespace Node

/-- How many steps of a position are of a kind, which is told from the node that
is left, the number of the kid and the kid. -/
def steps (isCounted : Node → Nat → Node → Bool) (n : Node) : Position → Nat
  | [] => 0
  | i :: p =>
    match n.kids[i]? with
    | none => 0
    | some c => (isCounted n i c).toNat + c.steps isCounted p

/-- The steps to a kid that begins after its parent does. -/
def furtherSteps : Node → Position → Nat :=
  steps fun n _ c => n.span.start < c.span.start

/-- The steps to a kid that no rule counts. -/
def unguardedSteps : Node → Position → Nat :=
  steps fun n i _ => n.form.isUnguarded i

end Node

/-- The steps that go further on are no more than a bound and those to parts that
are not counted. -/
def Bounded (b : Nat) (n : Node) : Prop :=
  ∀ p, n.furtherSteps p ≤ b + n.unguardedSteps p

/-- The bounds of the parts of a class. There is one step more in what it extends. -/
structure BoundedClass (b : Nat) (c : ClassParts Node) : Prop where
  name : Part (Bounded b) c.name
  superClass : Part (Bounded (b + 1)) c.superClass
  members : Each (Bounded b) c.members

section Steps

variable {isCounted : Node → Nat → Node → Bool} {n c : Node} {i : Nat}

@[simp] theorem Node.steps_nil : n.steps isCounted [] = 0 := rfl

theorem Node.steps_cons (h : n.kids[i]? = some c) (p : Position) :
    n.steps isCounted (i :: p) = (isCounted n i c).toNat + c.steps isCounted p := by
  rw [steps, h]

theorem Node.steps_of_none (h : n.kids[i]? = none) (p : Position) :
    n.steps isCounted (i :: p) = 0 := by
  rw [steps, h]

end Steps

-- ---------------------------------------------------------------------------
-- Bounded trees
-- ---------------------------------------------------------------------------

namespace Bounded

variable {b m : Nat} {n c head : Node} {span : Text.Span} {form : Form Node}

theorem mono (h : Bounded b n) (hle : b ≤ m) : Bounded m n := by
  intro p
  have := h p
  omega

/-- A step goes further on by one at most, and a step to where the node begins or
to a part that is not counted is free. -/
theorem of_kids (h : ∀ i c, n.kids[i]? = some c → Bounded b c ∨
    Bounded (b + 1) c ∧ (c.span.start = n.span.start ∨ n.form.isUnguarded i = true)) :
    Bounded (b + 1) n := by
  intro p
  unfold Node.furtherSteps Node.unguardedSteps
  cases p with
  | nil => simp
  | cons i p =>
    cases hc : n.kids[i]? with
    | none =>
      rw [Node.steps_of_none hc]
      omega
    | some c =>
      rw [Node.steps_cons hc, Node.steps_cons hc]
      have hstep := Bool.toNat_le (decide (n.span.start < c.span.start))
      rcases h i c hc with hb | ⟨hb, heq | hfree⟩
      · have hp := hb p
        unfold Node.furtherSteps Node.unguardedSteps at hp
        omega
      · have hp := hb p
        unfold Node.furtherSteps Node.unguardedSteps at hp
        rw [heq, decide_eq_false (Nat.lt_irrefl _), Bool.toNat_false]
        omega
      · have hp := hb p
        unfold Node.furtherSteps Node.unguardedSteps at hp
        rw [hfree, Bool.toNat_true]
        omega

/-- A node is deeper than its parts by one at most. -/
theorem of_parts (hparts : Each (Part (Bounded b)) form.children) :
    Bounded (b + 1) (.mk span form) := by
  refine of_kids fun i c hc => .inl ?_
  obtain ⟨o, ho, rfl⟩ := List.mem_filterMap.1 (List.mem_of_getElem? hc)
  exact hparts _ ho c rfl

/-- A node is no deeper than its first part, if that is free. -/
theorem of_head {rest : List (Option Node)} (hchildren : form.children = some head :: rest)
    (hfree : head.span.start = span.start ∨ form.isUnguarded 0 = true)
    (hhead : Bounded (b + 1) head) (hrest : Each (Part (Bounded b)) rest) :
    Bounded (b + 1) (.mk span form) := by
  have hkids : (Node.mk span form).kids = head :: rest.filterMap id := by
    rw [Node.kids, Node.form, hchildren]
    rfl
  refine of_kids fun i c hc => ?_
  rw [hkids] at hc
  cases i with
  | zero =>
    obtain rfl := Option.some.inj hc
    exact .inr ⟨hhead, hfree⟩
  | succ i =>
    obtain ⟨o, ho, rfl⟩ := List.mem_filterMap.1 (List.mem_of_getElem? hc)
    exact .inl (hrest _ ho c rfl)

/-- The right operand of `**` is free. -/
theorem of_power {left right : Node} (hstart : left.span.start = span.start)
    (hleft : Bounded (b + 1) left) (hright : Bounded (b + 1) right) :
    Bounded (b + 1) (.mk span (.binaryExpression (.punct .power) left right)) := by
  refine of_kids fun i c hc => .inr ?_
  have hkids : (Node.mk span (.binaryExpression (.punct .power) left right)).kids =
      [left, right] := rfl
  rw [hkids] at hc
  match i with
  | 0 =>
    obtain rfl := Option.some.inj hc
    exact ⟨hleft, .inl hstart⟩
  | 1 =>
    obtain rfl := Option.some.inj hc
    exact ⟨hright, .inr rfl⟩

/-- What a class extends is free. -/
theorem of_class {parts : ClassParts Node} (hchildren : form.children = parts.children)
    (hform : ∀ i, form.isUnguarded i = (parts.superClass.isSome && i = parts.name.toList.length))
    (h : BoundedClass b parts) : Bounded (b + 1) (.mk span form) := by
  have hkids : (Node.mk span form).kids =
      parts.name.toList ++ (parts.superClass.toList ++ parts.members) := by
    rw [Node.kids, Node.form, hchildren, ClassParts.children]
    cases parts.name <;> cases parts.superClass <;> simp
  refine of_kids fun i c hc => ?_
  rw [hkids, List.getElem?_append, List.getElem?_append] at hc
  split at hc
  · exact .inl (h.name c (by simpa using List.mem_of_getElem? hc))
  split at hc
  · have hmem : c ∈ parts.superClass := by simpa using List.mem_of_getElem? hc
    refine .inr ⟨h.superClass c hmem, .inr ?_⟩
    show form.isUnguarded i = true
    rw [hform, Option.isSome_of_mem hmem]
    have hlength : parts.superClass.toList.length ≤ 1 := by
      cases parts.superClass <;> simp
    simp only [Bool.true_and, decide_eq_true_eq]
    omega
  · exact .inl (h.members c (List.mem_of_getElem? hc))

theorem of_leaf (hkids : form.children.filterMap id = []) : Bounded b (.mk span form) := by
  intro p
  unfold Node.furtherSteps
  cases p with
  | nil => simp
  | cons i p =>
    have hkid : (Node.mk span form).kids[i]? = none := by
      rw [Node.kids, Node.form, hkids]
      rfl
    rw [Node.steps_of_none hkid]
    omega

/-- Where a node stops makes no difference. -/
theorem respan (h : Bounded b n) (hstart : span.start = n.span.start) :
    Bounded b (.mk span n.form) := by
  intro p
  have hp := h p
  unfold Node.furtherSteps Node.unguardedSteps at hp ⊢
  cases p with
  | nil => simp
  | cons i p =>
    have hkids : (Node.mk span n.form).kids = n.kids := rfl
    cases hc : n.kids[i]? with
    | none =>
      rw [Node.steps_of_none (by rw [hkids, hc])]
      omega
    | some c =>
      rw [Node.steps_cons hc, Node.steps_cons hc] at hp
      rw [Node.steps_cons (by rw [hkids, hc]), Node.steps_cons (by rw [hkids, hc])]
      show (decide (span.start < c.span.start)).toNat + _ ≤ _
      rw [hstart]
      exact hp

end Bounded

-- ---------------------------------------------------------------------------
-- Literals reread as patterns
-- ---------------------------------------------------------------------------

namespace Node

theorem span_toTarget (n : Node) : n.toTarget.span = n.span := by
  fun_cases toTarget n <;> rfl

theorem isUnguarded_toTarget (n : Node) (i : Nat) :
    n.toTarget.form.isUnguarded i = n.form.isUnguarded i := by
  fun_cases toTarget n <;> rfl

/-- The kids of a pattern are those of the literal, and may be reread themselves. -/
theorem kids_toTarget (n : Node) :
    List.Forall₂ (fun c t => t = c ∨ t = c.toTarget) n.kids n.toTarget.kids := by
  have hsame : ∀ l : List Node, List.Forall₂ (fun c t => t = c ∨ t = c.toTarget) l l :=
    fun l => List.forall₂_same.2 fun _ _ => .inl rfl
  have hreread : ∀ l : List Node,
      List.Forall₂ (fun c t => t = c ∨ t = c.toTarget) l (l.map toTarget) :=
    fun l => List.forall₂_map_right_iff.2 (List.forall₂_same.2 fun _ _ => .inr rfl)
  fun_cases toTarget n with
  | case1 s ps => simp [kids, form, Form.children]
  | case2 s es =>
    have hkids : (mk s (.arrayPattern (es.map fun e => e.attach.map (·.1.toTarget)))).kids =
        (es.filterMap id).map toTarget := by
      simp only [kids, form, Form.children, List.filterMap_map, List.map_filterMap]
      congr 1
      funext e
      cases e <;> rfl
    show List.Forall₂ _ (es.filterMap id)
      (mk s (.arrayPattern (es.map fun e => e.attach.map (·.1.toTarget)))).kids
    rw [hkids]
    exact hreread _
  | case3 s key value kind shorthand =>
    simp only [kids, form, Form.children, List.filterMap_append]
    refine List.rel_append (hsame _) ?_
    exact .cons (.inr rfl) .nil
  | case4 s argument => exact .cons (.inr rfl) .nil
  | case5 s argument => exact .cons (.inr rfl) .nil
  | case6 s left right => exact .cons (.inr rfl) (.cons (.inl rfl) .nil)
  | case7 => exact hsame _

/-- A count of steps that goes by the ends of nodes and by what is told alike of a
literal and its pattern is the same for both. -/
theorem steps_toTarget {isCounted : Node → Nat → Node → Bool}
    (hcounted : ∀ n i c t, t.span = c.span → isCounted (toTarget n) i t = isCounted n i c)
    (n : Node) (p : Position) : n.toTarget.steps isCounted p = n.steps isCounted p := by
  induction p generalizing n with
  | nil => rfl
  | cons i p ih =>
    have hlength := n.kids_toTarget.length_eq
    cases hc : n.kids[i]? with
    | none =>
      have ht : n.toTarget.kids[i]? = none := by
        rw [List.getElem?_eq_none_iff] at hc ⊢
        omega
      rw [steps_of_none hc, steps_of_none ht]
    | some c =>
      obtain ⟨hlt, rfl⟩ := List.getElem?_eq_some_iff.1 hc
      have hlt' : i < n.toTarget.kids.length := by omega
      rw [steps_cons hc, steps_cons (List.getElem?_eq_getElem hlt')]
      have hpair := n.kids_toTarget.get hlt hlt'
      rw [List.get_eq_getElem, List.get_eq_getElem] at hpair
      obtain heq | heq := hpair
      · rw [heq, hcounted n i _ _ rfl]
      · rw [heq, hcounted n i _ _ (span_toTarget _), ih]

end Node

/-- A literal is as deep as the pattern that it stands for. -/
theorem Bounded.toTarget {b : Nat} {n : Node} (h : Bounded b n) : Bounded b n.toTarget := by
  intro p
  have hp := h p
  unfold Node.furtherSteps Node.unguardedSteps at hp ⊢
  rw [Node.steps_toTarget, Node.steps_toTarget]
  · exact hp
  · intro n i c t _
    exact n.isUnguarded_toTarget i
  · intro n i c t ht
    simp only [n.span_toTarget, ht]

namespace Grammar

-- ---------------------------------------------------------------------------
-- Parsers that leave the depth alone
-- ---------------------------------------------------------------------------

/-- A parser after which the depth is what it was before. -/
class Still {α : Type} (p : Parser α) : Prop where
  depth_eq : ∀ ⦃s a t⦄, p s = .ok a t → t.depth = s.depth

namespace Still

variable {α β : Type}

theorem of_look {v : State → α} : Still fun s => .ok (v s) s where
  depth_eq s a t h := by
    cases h
    rfl

instance current : Still Grammar.current := of_look
instance kind : Still Grammar.kind := of_look
instance isAt (k : TokenKind) : Still (Grammar.isAt k) := of_look
instance position : Still Grammar.position := of_look
instance afterLineBreak : Still Grammar.afterLineBreak := of_look
instance rounds : Still Grammar.rounds := of_look
instance goesOn (op : TokenKind) (above : Nat) : Still (Grammar.goesOn op above) := of_look
instance atArrowFunction : Still Grammar.atArrowFunction := of_look
instance nodeFrom (start : Nat) (form : Form Node) : Still (Grammar.nodeFrom start form) := of_look
instance pure (x : α) : Still (Pure.pure x : Parser α) := of_look

instance advance : Still Grammar.advance where
  depth_eq s a t h := by
    cases h
    rfl

instance reread (f : Token → Token) : Still (Grammar.reread f) where
  depth_eq s a t h := by
    cases h
    rfl

instance fail (fault : SyntaxFault) : Still (Grammar.fail fault : Parser α) where
  depth_eq s a t h := by cases h

instance exhausted : Still (Grammar.exhausted : Parser α) where
  depth_eq s a t h := by cases h

instance bind (p : Parser α) (f : α → Parser β) [Still p] [∀ x, Still (f x)] :
    Still (p >>= f) where
  depth_eq s b u h := by
    obtain ⟨x, t, hx, hb⟩ := bind_ok h
    rw [depth_eq hb, depth_eq hx]

instance map (f : α → β) (p : Parser α) [Still p] : Still (f <$> p) := by
  rw [map_eq_pure_bind]
  infer_instance

instance ite (c : Prop) [Decidable c] (p q : Parser α) [Still p] [Still q] :
    Still (if c then p else q) := by
  split <;> infer_instance

instance accept (k : TokenKind) : Still (Grammar.accept k) := by
  unfold Grammar.accept
  infer_instance

instance expect (k : TokenKind) : Still (Grammar.expect k) := by
  unfold Grammar.expect
  infer_instance

instance endOfStatement : Still Grammar.endOfStatement := by
  unfold Grammar.endOfStatement
  infer_instance

instance takeValue : Still Grammar.takeValue := by
  unfold Grammar.takeValue
  infer_instance

instance bindingName : Still Grammar.bindingName := by
  unfold Grammar.bindingName
  infer_instance

instance anyName : Still Grammar.anyName := by
  unfold Grammar.anyName
  infer_instance

instance stringText : Still Grammar.stringText := by
  unfold Grammar.stringText
  infer_instance

instance exportName : Still Grammar.exportName := by
  unfold Grammar.exportName
  infer_instance

instance qualifier (word : Keyword) : Still (Grammar.qualifier word) := by
  unfold Grammar.qualifier
  infer_instance

instance accessorKind : Still Grammar.accessorKind := by
  unfold Grammar.accessorKind
  infer_instance

instance memberHead : Still Grammar.memberHead := by
  unfold Grammar.memberHead
  infer_instance

end Still

-- ---------------------------------------------------------------------------
-- Results at a depth
-- ---------------------------------------------------------------------------

/-- What holds of all results of a parser that begins at a depth. The depth is the
same after it. -/
def Within {α : Type} (d : Nat) (P : α → Prop) (p : Parser α) : Prop :=
  ∀ ⦃s a t⦄, s.depth = d → p s = .ok a t → t.depth = d ∧ P a

namespace Within

variable {α β : Type} {d : Nat} {P : α → Prop} {Q : β → Prop}

theorem of_still {p : Parser α} [Still p] : Within d (fun _ => True) p := by
  intro s a t hs h
  exact ⟨(Still.depth_eq h).trans hs, trivial⟩

theorem still {p : Parser α} (h : ∀ d, Within d P p) : Still p where
  depth_eq _ _ _ hp := (h _ rfl hp).1

theorem mono {R : α → Prop} {p : Parser α} (hp : Within d P p) (h : ∀ a, P a → R a) :
    Within d R p := by
  intro s a t hs ha
  obtain ⟨hd, hP⟩ := hp hs ha
  exact ⟨hd, h a hP⟩

theorem weaken {b m : Nat} {p : Parser Node} (hp : Within d (Bounded b) p) (hle : b ≤ m) :
    Within d (Bounded m) p :=
  hp.mono fun _ hn => hn.mono hle

theorem pure {x : α} (h : P x) : Within d P (Pure.pure x : Parser α) := by
  intro s a t hs ha
  cases ha
  exact ⟨hs, h⟩

theorem exhausted : Within d P (Grammar.exhausted : Parser α) := by
  intro s x t _ h
  cases h

theorem fail (fault : SyntaxFault) : Within d P (Grammar.fail fault) := by
  intro s a t _ h
  cases h

theorem bind {p : Parser α} {f : α → Parser β} (hp : Within d P p)
    (hf : ∀ x, P x → Within d Q (f x)) : Within d Q (p >>= f) := by
  intro s b u hs h
  obtain ⟨x, t, hx, hb⟩ := bind_ok h
  obtain ⟨ht, hP⟩ := hp hs hx
  exact hf x hP ht hb

/-- The result of the first part does not matter. -/
theorem next {p : Parser α} {f : α → Parser β} [Still p] (hf : ∀ x, Within d Q (f x)) :
    Within d Q (p >>= f) :=
  of_still.bind fun x _ => hf x

theorem map {p : Parser α} {f : α → β} (hp : Within d P p) (hf : ∀ x, P x → Q (f x)) :
    Within d Q (f <$> p) := by
  rw [map_eq_pure_bind]
  exact hp.bind fun x hx => .pure (hf x hx)

theorem ite {c : Prop} [Decidable c] {p q : Parser α} (hp : Within d P p) (hq : Within d P q) :
    Within d P (if c then p else q) := by
  split
  · exact hp
  · exact hq

/-- What may be done first makes no difference. -/
theorem maybe {c : Prop} [Decidable c] {p : Parser β} {q : Parser α} [Still p]
    (hq : Within d P q) : Within d P (if c then p >>= fun _ => q else q) :=
  .ite (.next fun _ => hq) hq

/-- A phrase that counts as nested runs one deeper, if there is room. -/
theorem nested {p : Parser α} (hp : d < maxDepth → Within (d + 1) P p) :
    Within d P (Grammar.nested p) := by
  intro s a u hs h
  have hroom : s.depth < maxDepth := by
    unfold Grammar.nested at h
    split at h
    · assumption
    · cases h
  obtain ⟨t, ht, rfl⟩ := nested_ok h
  obtain ⟨hd, hP⟩ := hp (by omega) (show s.depth + 1 = d + 1 by omega) ht
  refine ⟨?_, hP⟩
  show t.depth - 1 = d
  omega

theorem withIn {noIn : Bool} {p : Parser α} (hp : Within d P p) :
    Within d P (Grammar.withIn noIn p) := by
  intro s a u hs h
  obtain ⟨t, ht, rfl⟩ := withIn_ok h
  have ha := hp (show State.depth { s with noIn := noIn } = d from hs) ht
  exact ha

theorem allowIn {p : Parser α} (hp : Within d P p) : Within d P (Grammar.allowIn p) := hp.withIn

/-- A part that begins at the current token, and what follows it. -/
theorem begun {p : Parser Node} {P : Node → Prop} {f : Node → Parser β} {s u : State} {x : β}
    (hs : s.depth = d) (h : (p >>= f) s = .ok x u) (hp : Within d P p) (hstarts : StartsHere p)
    (hf : ∀ e, P e → e.span.start = s.token.start.offset → Within d Q (f e)) :
    u.depth = d ∧ Q x := by
  obtain ⟨e, t, he, h⟩ := bind_ok h
  obtain ⟨ht, hP⟩ := hp hs he
  exact hf e hP (hstarts he) ht h

/-- The node begins with its first part. -/
theorem part {p : Parser Node} {P : Node → Prop} {f : Nat → Node → Parser β} (hp : Within d P p)
    (hstarts : StartsHere p)
    (hf : ∀ start e, P e → e.span.start = start → Within d Q (f start e)) :
    Within d Q (do
      let start ← Grammar.position
      let e ← p
      f start e) := by
  intro s b u hs h
  obtain ⟨start, _, hpos, h⟩ := bind_ok h
  cases hpos
  exact begun hs h hp hstarts (hf _)

section Nodes

variable {b start : Nat} {form : Form Node}

theorem made (h : ∀ stop, Bounded b (.mk ⟨start, stop⟩ form)) :
    Within d (Bounded b) (nodeFrom start form) := by
  intro s n t hs hn
  cases hn
  exact ⟨hs, h _⟩

/-- A node is deeper than its parts by one at most. -/
theorem node (hparts : Each (Part (Bounded b)) form.children) :
    Within d (Bounded (b + 1)) (nodeFrom start form) :=
  made fun _ => .of_parts hparts

theorem leaf (hkids : form.children.filterMap id = []) :
    Within d (Bounded b) (nodeFrom start form) :=
  made fun _ => .of_leaf hkids

/-- A node is no deeper than its first part, if it begins with it. -/
theorem head {head : Node} {rest : List (Option Node)} (hchildren : form.children = some head :: rest)
    (hstart : head.span.start = start) (hhead : Bounded (b + 1) head)
    (hrest : Each (Part (Bounded b)) rest) :
    Within d (Bounded (b + 1)) (nodeFrom start form) :=
  made fun _ => .of_head hchildren (.inl hstart) hhead hrest

end Nodes

-- ---------------------------------------------------------------------------
-- Lists
-- ---------------------------------------------------------------------------

theorem many_go (ends : TokenKind → Bool) {item : Parser α} (hitem : Within d P item) (n : Nat)
    {acc : List α} (hacc : Each P acc) :
    Within d (Each P) (many.go ends item n acc) := by
  induction n generalizing acc with
  | zero => exact .exhausted
  | succ n ih =>
    refine .next fun _ => .ite (.pure (by simpa using hacc)) ?_
    exact hitem.bind fun a ha => ih (each_cons.2 ⟨ha, hacc⟩)

theorem many (ends : TokenKind → Bool) {item : Parser α} (hitem : Within d P item) :
    Within d (Each P) (Grammar.many ends item) :=
  .next fun n => many_go ends hitem n each_nil

theorem listUntil_go (closing : Punctuator) {entry : Parser (Entry α)}
    (hentry : Within d (fun e => P e.value) entry) (n : Nat) {acc : List α} (hacc : Each P acc) :
    Within d (Each P) (listUntil.go closing entry n acc) := by
  induction n generalizing acc with
  | zero => exact .exhausted
  | succ n ih =>
    refine .next fun _ => .ite (.pure (by simpa using hacc)) (hentry.bind fun e he => ?_)
    have hmore : Each P (e.value :: acc) := each_cons.2 ⟨he, hacc⟩
    cases e with
    | plain a => exact .next fun _ => .maybe (ih hmore)
    | whole a => exact ih hmore
    | last a => exact .pure (each_reverse.2 hmore)

theorem listUntil (closing : Punctuator) {entry : Parser (Entry α)}
    (hentry : Within d (fun e => P e.value) entry) :
    Within d (Each P) (Grammar.listUntil closing entry) :=
  .next fun n => listUntil_go closing hentry n each_nil

theorem separated_go {item : Parser α} (hitem : Within d P item) (n : Nat) {acc : List α}
    (hacc : Each P acc) : Within d (Each P) (separated.go item n acc) := by
  induction n generalizing acc with
  | zero => exact .exhausted
  | succ n ih =>
    refine .next fun _ => .ite ?_ (.pure (by simpa using hacc))
    exact hitem.bind fun a ha => ih (each_cons.2 ⟨ha, hacc⟩)

theorem separated {item : Parser α} (hitem : Within d P item) :
    Within d (Each P) (Grammar.separated item) :=
  .next fun n => hitem.bind fun a ha => separated_go hitem n (by simpa using ha)

end Within

end Grammar

end ModuleBundler

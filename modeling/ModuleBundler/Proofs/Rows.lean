import ModuleBundler.Proofs.Depth
import ModuleBundler.Proofs.Forward

/-!
# ModuleBundler — bricks in a row

A rule makes its node last, from an offset it has noted to the last token it took. What it
took before is a row of bricks, tokens and nodes, one behind the other. The node reaches over
the whole row, and if it is made of the nodes of the row, in this order, then its kids lie
in it one behind the other.

Where a rule notes its offset no brick has been taken, so a node covers a character if and
only if some brick is in its row.

* `InRow` — bricks of a text that lie one behind the other.
* `Node.Laid` — a node with its kids in a row inside it, and so on downwards.
* `LaysOn` — parsers that go on with a row, and the steps and loops that this is passed on by.
* `Lays` — the same, from the current token on.
-/

namespace ModuleBundler

open Text (Cursor)

-- ---------------------------------------------------------------------------
-- Rows
-- ---------------------------------------------------------------------------

/-- What a rule takes: a token, or all the tokens of a node. -/
inductive Brick where
  | token
  | node (n : Node)

/-- The node of a brick. -/
def Brick.node? : Brick → Option Node
  | token => none
  | node n => some n

@[simp] theorem Brick.filterMap_token (ps : List Brick) :
    (Brick.token :: ps).filterMap Brick.node? = ps.filterMap Brick.node? := rfl

@[simp] theorem Brick.filterMap_node (n : Node) (ps : List Brick) :
    (Brick.node n :: ps).filterMap Brick.node? = n :: ps.filterMap Brick.node? := rfl

@[simp high] theorem Brick.filterMap_nodes (ns : List Node) :
    (ns.map Brick.node).filterMap Brick.node? = ns := by
  rw [List.filterMap_map]
  exact List.filterMap_some

/-- Bricks that lie one behind the other between two offsets. None of them is empty. -/
def InRow : Nat → Nat → List Brick → Prop
  | _, _, [] => True
  | lo, hi, .token :: ps => ∃ stop, lo < stop ∧ stop ≤ hi ∧ InRow stop hi ps
  | lo, hi, .node n :: ps =>
    lo ≤ n.span.start ∧ n.span.start < n.span.stop ∧ n.span.stop ≤ hi ∧ InRow n.span.stop hi ps

namespace InRow

variable {lo lo' hi hi' : Nat} {ps qs : List Brick}

theorem mono (h : InRow lo hi ps) (hlo : lo' ≤ lo) (hhi : hi ≤ hi') : InRow lo' hi' ps := by
  induction ps generalizing lo lo' with
  | nil => trivial
  | cons p ps ih =>
    cases p with
    | token =>
      obtain ⟨stop, hlt, hle, h⟩ := h
      exact ⟨stop, by omega, by omega, ih h le_rfl⟩
    | node n =>
      obtain ⟨hstart, hne, hstop, h⟩ := h
      exact ⟨by omega, hne, by omega, ih h le_rfl⟩

/-- A row behind another one. -/
theorem append (h : InRow lo hi ps) (h' : InRow lo' hi' qs) (hlo : lo ≤ lo') (hhi : hi ≤ hi')
    (hbetween : hi ≤ lo') : InRow lo hi' (ps ++ qs) := by
  induction ps generalizing lo with
  | nil => exact h'.mono hlo le_rfl
  | cons p ps ih =>
    cases p with
    | token =>
      obtain ⟨stop, hlt, hle, h⟩ := h
      exact ⟨stop, hlt, by omega, ih h (by omega)⟩
    | node n =>
      obtain ⟨hstart, hne, hstop, h⟩ := h
      exact ⟨hstart, hne, by omega, ih h (by omega)⟩

theorem lt (h : InRow lo hi ps) (hne : ps ≠ []) : lo < hi := by
  cases ps with
  | nil => exact absurd rfl hne
  | cons p ps =>
    cases p with
    | token =>
      obtain ⟨stop, hlt, hle, -⟩ := h
      omega
    | node n =>
      obtain ⟨hstart, hne, hstop, -⟩ := h
      omega

/-- The nodes of a row are a row. -/
theorem nodes (h : InRow lo hi ps) : InRow lo hi ((ps.filterMap Brick.node?).map .node) := by
  induction ps generalizing lo with
  | nil => trivial
  | cons p ps ih =>
    cases p with
    | token =>
      obtain ⟨stop, hlt, -, h⟩ := h
      exact (ih h).mono hlt.le le_rfl
    | node n =>
      obtain ⟨hstart, hne, hstop, h⟩ := h
      exact ⟨hstart, hne, hstop, ih h⟩

theorem left (h : InRow lo hi (ps ++ qs)) : InRow lo hi ps := by
  induction ps generalizing lo with
  | nil => trivial
  | cons p ps ih =>
    cases p with
    | token =>
      obtain ⟨stop, hlt, hle, h⟩ := h
      exact ⟨stop, hlt, hle, ih h⟩
    | node n =>
      obtain ⟨hstart, hne, hstop, h⟩ := h
      exact ⟨hstart, hne, hstop, ih h⟩

variable {ns ms : List Node}

/-- Where a row lies is a matter of spans. -/
theorem of_spans (h : InRow lo hi (ns.map .node))
    (hspans : List.Forall₂ (fun n m => m.span = n.span) ns ms) : InRow lo hi (ms.map .node) := by
  induction hspans generalizing lo with
  | nil => trivial
  | cons heq _ ih =>
    obtain ⟨hstart, hne, hstop, h⟩ := h
    rw [← heq] at hstart hne hstop h
    exact ⟨hstart, hne, hstop, ih h⟩

theorem mem (h : InRow lo hi (ns.map .node)) {n : Node} (hn : n ∈ ns) :
    lo ≤ n.span.start ∧ n.span.start < n.span.stop ∧ n.span.stop ≤ hi := by
  induction ns generalizing lo with
  | nil => cases hn
  | cons m ns ih =>
    obtain ⟨hstart, hne, hstop, h⟩ := h
    rcases List.mem_cons.1 hn with rfl | hn
    · exact ⟨hstart, hne, hstop⟩
    · obtain ⟨hlo, hlt, hhi⟩ := ih h hn
      exact ⟨by omega, hlt, hhi⟩

theorem pairwise (h : InRow lo hi (ns.map .node)) :
    ns.Pairwise fun n m => n.span.stop ≤ m.span.start := by
  induction ns generalizing lo with
  | nil => exact .nil
  | cons n ns ih =>
    obtain ⟨-, -, -, h⟩ := h
    exact .cons (fun m hm => (h.mem hm).1) (ih h)

end InRow

-- ---------------------------------------------------------------------------
-- Nodes that are laid out
-- ---------------------------------------------------------------------------

namespace Node

/-- A node between characters of a text, with its kids in a row inside it, which are laid
out as well. -/
inductive Laid (text : String) : Node → Prop
  | intro {n : Node} (lies : Grammar.SpanLies text n.span)
    (row : InRow n.span.start n.span.stop (n.kids.map .node))
    (kids : ∀ kid ∈ n.kids, Laid text kid) : Laid text n

theorem Laid.toTarget {text : String} {n : Node} (h : n.Laid text) : n.toTarget.Laid text := by
  induction h with
  | @intro n lies row kids ih =>
    have hkids := n.kids_toTarget
    have hspans : List.Forall₂ (fun c d => d.span = c.span) n.kids n.toTarget.kids := by
      refine hkids.imp fun c t h => ?_
      rcases h with rfl | rfl
      · rfl
      · exact span_toTarget c
    refine .intro ?_ ?_ fun t ht => ?_
    · rwa [span_toTarget]
    · rw [span_toTarget]
      exact row.of_spans hspans
    · obtain ⟨i, hi, rfl⟩ := List.getElem_of_mem ht
      have hi' : i < n.kids.length := by rwa [hkids.length_eq]
      rcases hkids.get hi' hi with h | h
      · rw [List.get_eq_getElem, List.get_eq_getElem] at h
        rw [h]
        exact kids _ (List.getElem_mem _)
      · rw [List.get_eq_getElem, List.get_eq_getElem] at h
        rw [h]
        exact ih _ (List.getElem_mem _)

end Node

/-- A row whose nodes are laid out. -/
structure Row (text : String) (lo hi : Nat) (ps : List Brick) : Prop where
  inRow : InRow lo hi ps
  laid : ∀ n, .node n ∈ ps → n.Laid text

namespace Row

variable {text : String} {lo lo' hi hi' : Nat} {ps qs : List Brick}

theorem nil : Row text lo hi [] := ⟨trivial, nofun⟩

theorem mono (h : Row text lo hi ps) (hlo : lo' ≤ lo) (hhi : hi ≤ hi') : Row text lo' hi' ps :=
  ⟨h.inRow.mono hlo hhi, h.laid⟩

theorem append (h : Row text lo hi ps) (h' : Row text lo' hi' qs) (hlo : lo ≤ lo')
    (hhi : hi ≤ hi') (hbetween : hi ≤ lo') : Row text lo hi' (ps ++ qs) := by
  refine ⟨h.inRow.append h'.inRow hlo hhi hbetween, fun n hn => ?_⟩
  rcases List.mem_append.1 hn with hn | hn
  · exact h.laid n hn
  · exact h'.laid n hn

theorem left (h : Row text lo hi (ps ++ qs)) : Row text lo hi ps :=
  ⟨h.inRow.left, fun n hn => h.laid n (List.mem_append_left _ hn)⟩

/-- The node that reaches over a row and is made of its nodes is laid out. -/
theorem node (h : Row text lo hi ps) (hlies : Grammar.SpanLies text ⟨lo, hi⟩) {form : Form Node}
    (hkids : form.children.filterMap id = ps.filterMap Brick.node?) (hne : ps ≠ []) :
    Row text lo hi [.node (.mk ⟨lo, hi⟩ form)] := by
  have hkids : (Node.mk ⟨lo, hi⟩ form).kids = ps.filterMap Brick.node? := hkids
  refine ⟨⟨le_rfl, h.inRow.lt hne, le_rfl, trivial⟩, fun n hn => ?_⟩
  cases List.mem_singleton.1 hn
  refine .intro hlies ?_ fun kid hkid => ?_
  · rw [hkids]
    exact h.inRow.nodes
  · rw [hkids] at hkid
    obtain ⟨p, hp, hnode⟩ := List.mem_filterMap.1 hkid
    cases p with
    | token => cases hnode
    | node m =>
      cases hnode
      exact h.laid _ hp

/-- The same row with a literal reread as a pattern. -/
theorem toTarget {n : Node} (h : Row text lo hi (.node n :: ps)) :
    Row text lo hi (.node n.toTarget :: ps) := by
  obtain ⟨⟨hstart, hne, hstop, hrow⟩, hlaid⟩ := h
  rw [← n.span_toTarget] at hstart hne hstop hrow
  refine ⟨⟨hstart, hne, hstop, hrow⟩, fun m hm => ?_⟩
  rcases List.mem_cons.1 hm with hm | hm
  · cases hm
    exact (hlaid n List.mem_cons_self).toTarget
  · exact hlaid m (List.mem_cons_of_mem _ hm)

end Row

namespace Grammar

-- ---------------------------------------------------------------------------
-- Parsers that go on with a row
-- ---------------------------------------------------------------------------

/-- A state later on a text, or the same one. -/
structure Forward (text : String) (s t : State) : Prop where
  stands : ∃ d, t.StandsAfter text d
  start_le : s.token.start.offset ≤ t.token.start.offset
  lastStop_le : s.lastStop ≤ t.lastStop

/-- A parser that goes on with a row of bricks: where the bricks before it lie from an
offset on, behind which it begins, those of its result do so. -/
def LaysOn {α : Type} (a : Nat) (pre : List Brick) (s : State) (p : Parser α)
    (Q : α → List Brick) : Prop :=
  ∀ ⦃text c x t⦄, s.StandsAfter text c → String.Pos.Raw.isValid text ⟨a⟩ = true →
    a ≤ s.token.start.offset → p s = .ok x t →
      Forward text s t ∧ (Row text a s.lastStop pre → Row text a t.lastStop (Q x))

/-- A parser that lays a row from the current token on. -/
abbrev Lays {α : Type} (s : State) (p : Parser α) (Q : α → List Brick) : Prop :=
  LaysOn s.token.start.offset [] s p Q

section

variable {text : String} {c : Cursor} {s t u : State}

theorem Forward.refl (hs : s.StandsAfter text c) : Forward text s s := ⟨⟨c, hs⟩, le_rfl, le_rfl⟩

theorem Forward.trans (h : Forward text s t) (h' : Forward text t u) : Forward text s u :=
  ⟨h'.stands, h.start_le.trans h'.start_le, h.lastStop_le.trans h'.lastStop_le⟩

/-- What was taken stops before the current token. -/
theorem State.StandsAfter.lastStop_le (hs : s.StandsAfter text c) :
    s.lastStop ≤ s.token.start.offset := by
  rw [hs.lastStop_eq]
  exact hs.holds.start.offset_le

theorem State.StandsAfter.isValid_lastStop (hs : s.StandsAfter text c) :
    String.Pos.Raw.isValid text ⟨s.lastStop⟩ = true := by
  rw [hs.lastStop_eq]
  exact Text.isValid_of_before hs.before

/-- The node that reaches over the bricks taken so far, and is made of their nodes. -/
theorem State.StandsAfter.row_node {a : Nat} {pre : List Brick} {form : Form Node}
    (hs : s.StandsAfter text c) (ha : String.Pos.Raw.isValid text ⟨a⟩ = true)
    (hkids : form.children.filterMap id = pre.filterMap Brick.node?) (hne : pre ≠ [])
    (h : Row text a s.lastStop pre) :
    Row text a s.lastStop [.node (.mk ⟨a, s.lastStop⟩ form)] := by
  refine h.node ⟨(h.inRow.lt hne).le, ?_, ha, hs.isValid_lastStop⟩ hkids hne
  rw [hs.lastStop_eq]
  exact hs.before.offset_le_size

/-- Taking the current token, as it is or read anew. -/
theorem forward_take (hs : s.Holds text c) (hstop : s.lastStop ≤ s.token.start.offset) :
    Forward text s { s with token := s.token.next, lastStop := s.token.stop.offset } := by
  have hstart := hs.stop.offset_le
  have hnext := hs.taken.lastStop_le
  exact ⟨⟨_, hs.taken⟩, hstart.trans hnext, hstop.trans hstart⟩

/-- The token that is taken is a brick behind those before it. -/
theorem State.Holds.row_taken {a : Nat} {pre : List Brick} (hs : s.Holds text c)
    (hstop : s.lastStop ≤ s.token.start.offset) (ha : a ≤ s.token.start.offset)
    (hsig : s.token.Significant) (h : Row text a s.lastStop pre) :
    Row text a s.token.stop.offset (pre ++ [.token]) := by
  have hlt := hs.token.lt hsig
  have htoken : Row text s.token.start.offset s.token.stop.offset [.token] :=
    ⟨⟨_, hlt, le_rfl, trivial⟩, by simp⟩
  exact h.append htoken ha (hstop.trans hlt.le) hstop

end

namespace LaysOn

section Steps

variable {α β σ : Type} {a b : Nat} {s : State} {pre : List Brick} {p q : Parser α}
  {P P' : α → List Brick} {f : α → Parser β} {Q : β → List Brick}

-- ---------------------------------------------------------------------------
-- Steps
-- ---------------------------------------------------------------------------

/-- A step behind another one, of which it is known what it gave. -/
theorem bindOk {mid : α → List Brick} (hp : LaysOn a pre s p mid)
    (hf : ∀ x t, p s = .ok x t → LaysOn a (mid x) t (f x) Q) : LaysOn a pre s (p >>= f) Q := by
  intro text c y u hs ha hle h
  obtain ⟨x, t, hx, h⟩ := bind_ok h
  obtain ⟨hforward, hp⟩ := hp hs ha hle hx
  obtain ⟨d, ht⟩ := hforward.stands
  obtain ⟨hforward', hf⟩ := hf x t hx ht ha (hle.trans hforward.start_le) h
  exact ⟨hforward.trans hforward', fun hrow => hf (hp hrow)⟩

theorem bind {mid : α → List Brick} (hp : LaysOn a pre s p mid)
    (hf : ∀ x t, LaysOn a (mid x) t (f x) Q) : LaysOn a pre s (p >>= f) Q :=
  hp.bindOk fun x t _ => hf x t

/-- What is laid from the current token on lies behind the bricks before it. -/
theorem frame (hp : Lays s p P) : LaysOn a pre s p fun x => pre ++ P x := by
  intro text c x t hs ha hle h
  obtain ⟨hforward, hp⟩ := hp hs hs.holds.tokenLies.startValid le_rfl h
  exact ⟨hforward, fun hrow => hrow.append (hp .nil) hle hforward.lastStop_le hs.lastStop_le⟩

/-- A step behind one that lays bricks of its own. -/
theorem take (hp : Lays s p P) (hf : ∀ x t, LaysOn a (pre ++ P x) t (f x) Q) :
    LaysOn a pre s (p >>= f) Q :=
  (frame hp).bind hf

/-- A step behind one whose bricks do not matter. -/
theorem skip (hp : Lays s p P) (hf : ∀ x t, LaysOn a pre t (f x) Q) :
    LaysOn a pre s (p >>= f) Q := by
  intro text c y u hs ha hle h
  obtain ⟨x, t, hx, h⟩ := bind_ok h
  have hframed : LaysOn a pre s p fun x => pre ++ P x := frame hp
  obtain ⟨hforward, hp⟩ := hframed hs ha hle hx
  obtain ⟨d, ht⟩ := hforward.stands
  obtain ⟨hforward', hf⟩ := hf x t ht ha (hle.trans hforward.start_le) h
  exact ⟨hforward.trans hforward', fun hrow => hf (hp hrow).left⟩

/-- Two steps that lay bricks of their own together. -/
theorem takeBoth {γ : Type} {h : β → Parser γ} {R : γ → List Brick} (hp : Lays s (p >>= f) Q)
    (hh : ∀ y t, LaysOn a (pre ++ Q y) t (h y) R) :
    LaysOn a pre s (p >>= fun x => f x >>= h) R := by
  rw [← bind_assoc]
  exact .take hp hh

/-- Other rows, before and behind. -/
theorem conv {pre' : List Brick} (hp : LaysOn a pre' s p P)
    (hpre : ∀ text hi, Row text a hi pre → Row text a hi pre')
    (hP : ∀ x text hi, Row text a hi (P x) → Row text a hi (P' x)) : LaysOn a pre s p P' := by
  intro text c x t hs ha hle h
  obtain ⟨hforward, hp⟩ := hp hs ha hle h
  exact ⟨hforward, fun hrow => hP x text _ (hp (hpre text _ hrow))⟩

/-- Looking at the state takes nothing, and what is seen is known of the state. -/
theorem look {v : State → α} (h : LaysOn a pre s (f (v s)) Q) :
    LaysOn a pre s ((fun s => .ok (v s) s) >>= f) Q :=
  fun _ _ _ _ hs ha hle hb => h hs ha hle hb

/-- A value that is seen of the state. -/
theorem value {v : State → α} (h : P (v s) = pre) : LaysOn a pre s (fun s => .ok (v s) s) P := by
  intro text c y t hs ha hle hy
  cases hy
  exact ⟨.refl hs, fun hrow => by rwa [h]⟩

theorem pure {x : α} (h : P x = pre) : LaysOn a pre s (Pure.pure x : Parser α) P :=
  .value (v := fun _ => x) h

/-- The node that reaches over the bricks laid so far. -/
theorem nodeOf {form : Form Node}
    (hkids : form.children.filterMap id = pre.filterMap Brick.node?) (hne : pre ≠ []) :
    LaysOn a pre s (nodeFrom a form) fun n => [.node n] := by
  intro text c n t hs ha hle hn
  cases hn
  exact ⟨.refl hs, hs.row_node ha hkids hne⟩

/-- The same where it is plain that there is a brick. -/
theorem node {brick : Brick} {bricks : List Brick} {form : Form Node}
    (hkids : form.children.filterMap id = (brick :: bricks).filterMap Brick.node?) :
    LaysOn a (brick :: bricks) s (nodeFrom a form) fun n => [.node n] :=
  .nodeOf hkids (by simp)

theorem fail {fault : SyntaxFault} : LaysOn a pre s (Grammar.fail fault : Parser α) P :=
  fun _ _ _ _ _ _ _ h => nomatch h

theorem exhausted : LaysOn a pre s (Grammar.exhausted : Parser α) P :=
  fun _ _ _ _ _ _ _ h => nomatch h

theorem ite {c : Prop} [Decidable c] (hp : c → LaysOn a pre s p P)
    (hq : ¬c → LaysOn a pre s q P) : LaysOn a pre s (if c then p else q) P := by
  split
  · exact hp ‹_›
  · exact hq ‹_›

theorem map {g : α → β} (hp : LaysOn a pre s p P) (h : ∀ x, Q (g x) = P x) :
    LaysOn a pre s (g <$> p) Q := by
  rw [map_eq_pure_bind]
  exact hp.bind fun x _ => .pure (h x)

theorem nested (hp : LaysOn a pre { s with depth := s.depth + 1 } p P) :
    LaysOn a pre s (Grammar.nested p) P := by
  intro text c x u hs ha hle h
  obtain ⟨t, ht, rfl⟩ := nested_ok h
  obtain ⟨⟨⟨d, hstands⟩, hstart, hstop⟩, hp⟩ := hp (hs.setDepth _) ha hle ht
  exact ⟨⟨⟨d, hstands.setDepth _⟩, hstart, hstop⟩, hp⟩

theorem withIn {noIn : Bool} (hp : LaysOn a pre { s with noIn := noIn } p P) :
    LaysOn a pre s (Grammar.withIn noIn p) P := by
  intro text c x u hs ha hle h
  obtain ⟨t, ht, rfl⟩ := withIn_ok h
  obtain ⟨⟨⟨d, hstands⟩, hstart, hstop⟩, hp⟩ := hp (hs.setNoIn _) ha hle ht
  exact ⟨⟨⟨d, hstands.setNoIn _⟩, hstart, hstop⟩, hp⟩

theorem allowIn (hp : LaysOn a pre { s with noIn := false } p P) :
    LaysOn a pre s (Grammar.allowIn p) P :=
  hp.withIn

-- ---------------------------------------------------------------------------
-- Tokens of a kind
-- ---------------------------------------------------------------------------

variable {κ : TokenKind}

theorem advance (hsig : s.token.Significant) : Lays s Grammar.advance fun _ => [.token] := by
  intro text c x t hs ha hle hx
  cases hx
  exact ⟨forward_take hs.holds hs.lastStop_le, hs.holds.row_taken hs.lastStop_le hle hsig⟩

theorem takeValue (hsig : s.token.Significant) :
    Lays s Grammar.takeValue fun _ => [.token] :=
  .look <| (advance hsig).bind fun _ _ => .pure rfl

/-- What follows a token that may be there, and what stands in its place. -/
theorem accepting (hκ : κ.isSignificant = true) {p q : Parser β}
    (hp : s.token.kind = κ → ∀ t, LaysOn a (pre ++ [.token]) t p Q)
    (hq : s.token.kind ≠ κ → LaysOn a pre s q Q) :
    LaysOn a pre s (Grammar.accept κ >>= fun taken => if taken then p else q) Q := by
  intro text c y u hs ha hle h
  obtain ⟨taken, t, haccept, h⟩ := bind_ok h
  obtain ⟨isThere, _, hat, haccept⟩ := bind_ok haccept
  cases hat
  by_cases hk : s.token.kind = κ
  · rw [if_pos (by simpa using hk)] at haccept
    cases haccept
    have htaken : LaysOn a pre s (Grammar.advance >>= fun _ => p) Q :=
      .take (advance (.of_kind_eq hk hκ)) fun _ t => hp hk t
    exact htaken hs ha hle h
  · rw [if_neg (by simpa using hk)] at haccept
    cases haccept
    exact hq hk hs ha hle h

/-- The same where no brick of the token is used. -/
theorem passing (hκ : κ.isSignificant = true) {p q : Parser β}
    (hp : s.token.kind = κ → ∀ t, LaysOn a pre t p Q)
    (hq : s.token.kind ≠ κ → LaysOn a pre s q Q) :
    LaysOn a pre s (Grammar.accept κ >>= fun taken => if taken then p else q) Q :=
  .accepting hκ (fun hk t => (hp hk t).conv (fun _ _ h => h.left) fun _ _ _ h => h) hq

theorem expect (hκ : κ.isSignificant = true) :
    Lays s (Grammar.expect κ) fun _ => [.token] := by
  intro text c x t hs ha hle h
  obtain ⟨hk, rfl⟩ := expect_ok h
  exact advance (.of_kind_eq hk hκ) hs ha hle rfl

/-- Whether a token is there or not, no brick of it is used. -/
theorem accept (hκ : κ.isSignificant = true) : Lays s (Grammar.accept κ) fun _ => [] :=
  .look <| .ite (fun hk => .skip (advance (.of_kind_eq (of_decide_eq_true hk) hκ))
    fun _ _ => .pure rfl) fun _ => .pure rfl

-- ---------------------------------------------------------------------------
-- Loops
-- ---------------------------------------------------------------------------

/-- A loop whose rounds go on from the bricks of what is gathered. -/
theorem loop {round : σ → Parser (σ ⊕ β)} {I : σ → List Brick}
    (hround : ∀ x t, LaysOn a (I x) t (round x) (Sum.elim I Q)) (n : Nat) (x : σ) :
    LaysOn a (I x) s (Grammar.loop round n x) Q := by
  induction n generalizing s x with
  | zero => exact .exhausted
  | succ n ih =>
    refine (hround x s).bind fun r t => ?_
    cases r with
    | inl y => exact ih y
    | inr b => exact .pure rfl

theorem manyRound {ends : TokenKind → Bool} {item : Parser α} (hitem : ∀ t, Lays t item P)
    (acc : List α) : LaysOn a (acc.reverse.flatMap P) s (Grammar.manyRound ends item acc)
      (Sum.elim (·.reverse.flatMap P) (·.flatMap P)) :=
  .look <| .ite (fun _ => .pure rfl) fun _ => .take (hitem _) fun _ _ => .pure (by simp)

theorem many {ends : TokenKind → Bool} {item : Parser α} (hitem : ∀ t, Lays t item P) :
    Lays s (Grammar.many ends item) (·.flatMap P) := by
  refine .look ?_
  rw [many_go_eq]
  exact loop (fun acc _ => manyRound hitem acc) _ []

theorem listRound {closing : Punctuator} {entry : Parser (Entry α)}
    (hentry : ∀ t, Lays t entry fun e => P e.value) (acc : List α) :
    LaysOn a (acc.reverse.flatMap P) s (Grammar.listRound closing entry acc)
      (Sum.elim (·.reverse.flatMap P) (·.flatMap P)) := by
  refine .look (.ite (fun _ => .pure rfl) fun _ => .take (hentry _) fun e t => ?_)
  cases e with
  | plain x =>
    exact .look <| .ite (fun _ => .skip (.expect rfl) fun _ _ => .pure (by simp [Entry.value]))
      fun _ => .pure (by simp [Entry.value])
  | whole x => exact .pure (by simp [Entry.value])
  | last x => exact .pure (by simp [Entry.value])

theorem listUntil {closing : Punctuator} {entry : Parser (Entry α)}
    (hentry : ∀ t, Lays t entry fun e => P e.value) :
    Lays s (Grammar.listUntil closing entry) (·.flatMap P) := by
  refine .look ?_
  rw [listUntil_go_eq]
  exact loop (fun acc _ => listRound hentry acc) _ []

theorem separatedRound {item : Parser α} (hitem : ∀ t, Lays t item P) (acc : List α) :
    LaysOn a (acc.reverse.flatMap P) s (Grammar.separatedRound item acc)
      (Sum.elim (·.reverse.flatMap P) (·.flatMap P)) :=
  .passing rfl (fun _ _ => .take (hitem _) fun _ _ => .pure (by simp)) fun _ => .pure rfl

theorem separated {item : Parser α} (hitem : ∀ t, Lays t item P) :
    Lays s (Grammar.separated item) (·.flatMap P) := by
  refine .look (.bind (hitem s) fun x t => ?_)
  rw [separated_go_eq]
  have hrest := loop (s := t) (fun acc _ => separatedRound (a := s.token.start.offset) hitem acc)
    (s.ahead + 1) [x]
  rwa [List.reverse_singleton, List.flatMap_singleton] at hrest

end Steps

-- ---------------------------------------------------------------------------
-- Lists of nodes
-- ---------------------------------------------------------------------------

section Nodes

variable {s : State} {closing : Punctuator}

theorem flatMap_node (l : List Node) : (l.flatMap fun n => [Brick.node n]) = l.map .node :=
  List.map_eq_flatMap.symm

theorem flatMap_kid (l : List (Option Node)) :
    (l.flatMap fun o => o.toList.map Brick.node) = (l.filterMap id).map .node := by
  induction l with
  | nil => rfl
  | cons o l ih => cases o <;> simp_all

theorem manyNodes {ends : TokenKind → Bool} {item : Parser Node}
    (hitem : ∀ t, Lays t item fun n => [.node n]) :
    Lays s (Grammar.many ends item) fun l => l.map .node := by
  simp only [← flatMap_node]
  exact .many hitem

theorem separatedNodes {item : Parser Node} (hitem : ∀ t, Lays t item fun n => [.node n]) :
    Lays s (Grammar.separated item) fun l => l.map .node := by
  simp only [← flatMap_node]
  exact .separated hitem

theorem nodesUntil {entry : Parser (Entry Node)}
    (hentry : ∀ t, Lays t entry fun e => [.node e.value]) :
    Lays s (Grammar.listUntil closing entry) fun l => l.map .node := by
  simp only [← flatMap_node]
  exact .listUntil hentry

/-- Lists of nodes that are there or not. -/
theorem manyKids {ends : TokenKind → Bool} {item : Parser (Option Node)}
    (hitem : ∀ t, Lays t item fun o => o.toList.map .node) :
    Lays s (Grammar.many ends item) fun l => (l.filterMap id).map .node := by
  simp only [← flatMap_kid]
  exact .many hitem

theorem kidsUntil {entry : Parser (Entry (Option Node))}
    (hentry : ∀ t, Lays t entry fun e => e.value.toList.map .node) :
    Lays s (Grammar.listUntil closing entry) fun l => (l.filterMap id).map .node := by
  simp only [← flatMap_kid]
  exact .listUntil (P := fun o : Option Node => o.toList.map .node) hentry

end Nodes

end LaysOn

end Grammar

end ModuleBundler

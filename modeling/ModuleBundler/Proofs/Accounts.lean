import ModuleBundler.Proofs.Forward
import ModuleBundler.Proofs.Pieces

/-!
# ModuleBundler — parsers account for what they take

What a parser takes are the tokens of its result. A rule does so piece by piece:
before each of its steps the tokens so far are those of a list of pieces, which the
step goes on with.

* `Spelt` — a run of tokens for a list of pieces.
* `Completes` — parsers that go on from a list of pieces to those of their result,
  and the steps and loops that this is passed on by.
-/

namespace ModuleBundler

open Text (Cursor)

-- ---------------------------------------------------------------------------
-- Tokens
-- ---------------------------------------------------------------------------

theorem TokenKind.isSignificant_of_isMark {k : TokenKind} (h : k.isMark = true) :
    k.isSignificant = true := by
  cases k <;> first | rfl | cases h

theorem Token.isMark_of_kind_eq {t : Token} {k : TokenKind} (h : t.kind = k)
    (hk : k.isMark = true) : t.kind.isMark = true := by
  rwa [h]

theorem Token.significant_of_isMark {t : Token} (h : t.kind.isMark = true) : t.Significant :=
  .of_kind_eq rfl (TokenKind.isSignificant_of_isMark h)

theorem Keyword.text_of_ofWord {value : String} {k : Keyword}
    (h : TokenKind.ofWord value = .word k) : value = k.text := by
  unfold TokenKind.ofWord at h
  split at h
  · rename_i w hw
    obtain rfl : w = k := TokenKind.word.inj h
    have htext := List.find?_some hw
    exact (beq_iff_eq.1 htext).symm
  · cases h

/-- Only words are read as names and keywords. -/
theorem scanAt_eq_scanWord {flags : TokenFlags} {c : Cursor}
    (h : (scanAt flags c).kind.isNameOrKeyword = true) : scanAt flags c = scanWord flags c := by
  revert h
  unfold scanAt
  split
  · exact nofun
  split
  · unfold scanString
    dsimp only
    split <;> exact nofun
  split
  · unfold scanTemplate
    dsimp only
    split <;> exact nofun
  split
  · unfold scanNumber
    dsimp only
    split
    · exact nofun
    split
    · exact nofun
    split <;> exact nofun
  split
  · unfold scanPrivateName
    dsimp only
    split <;> exact nofun
  split
  · exact fun _ => rfl
  · unfold scanPunctuator
    split <;> exact nofun

/-- The value of a name or a keyword is its text, which tells its kind. -/
theorem Token.kind_of_isNameOrKeyword {c : Cursor}
    (h : (Token.after c).kind.isNameOrKeyword = true) :
    (Token.after c).kind = .ofWord (Token.after c).value ∧
      (Token.after c).value = (Token.after c).text := by
  have hsig : (Token.after c).Significant := .of_kind TokenKind.isNameOrKeyword h rfl rfl
  obtain ⟨-, flags, heq⟩ := Token.after_significant hsig
  rw [heq] at h ⊢
  rw [scanAt_eq_scanWord h]
  exact ⟨rfl, rfl⟩

/-- The value of a keyword is the keyword. -/
theorem Token.value_of_word {c : Cursor} {k : Keyword} (h : (Token.after c).kind = .word k) :
    (Token.after c).value = k.text := by
  have hword : (Token.after c).kind.isNameOrKeyword = true := by
    rw [h]
    rfl
  exact Keyword.text_of_ofWord ((Token.kind_of_isNameOrKeyword hword).1.symm.trans h)

-- ---------------------------------------------------------------------------
-- Runs of tokens
-- ---------------------------------------------------------------------------

/-- The pieces that a clause with some words may be put together from. -/
def Piece.Among (words : List String) : Piece → Prop
  | .word v => v ∈ words
  | .clause ws => ws ⊆ words
  | _ => False

/-- The tokens of such pieces are marks and these words. -/
theorem Spells.among {words : List String} {ps : List Piece} {us : List Use} (h : Spells ps us)
    (hps : ∀ p ∈ ps, p.Among words) :
    ∀ u ∈ us, u.token.kind.isMark = true ∨ u.token.value ∈ words := by
  induction h with
  | nil => exact fun _ hu => absurd hu List.not_mem_nil
  | mark hmark _ ih =>
    intro u hu
    rcases List.mem_cons.1 hu with rfl | hu
    · exact .inl hmark
    · exact ih hps u hu
  | name => exact (hps _ List.mem_cons_self).elim
  | word _ ih =>
    obtain ⟨hword, hps⟩ := List.forall_mem_cons.1 hps
    intro u hu
    rcases List.mem_cons.1 hu with rfl | hu
    · exact .inr hword
    · exact ih hps u hu
  | @clause ws ts _ _ hts _ ih =>
    obtain ⟨hws, hps⟩ := List.forall_mem_cons.1 hps
    intro u hu
    rcases List.mem_append.1 hu with hu | hu
    · obtain ⟨t, ht, rfl⟩ := List.mem_map.1 hu
      exact (hts t ht).imp_right fun h => hws h
    · exact ih hps u hu
  | node => exact (hps _ List.mem_cons_self).elim
  | kept => exact (hps _ List.mem_cons_self).elim
  | dropped => exact (hps _ List.mem_cons_self).elim

/-- A run of tokens for a list of pieces. -/
def Spelt (ps : List Piece) (ts : List Token) : Prop :=
  ∃ us, Spells ps us ∧ us.map Use.token = ts

namespace Spelt

variable {ps qs : List Piece} {ts us : List Token} {t : Token}

theorem nil : Spelt [] [] := ⟨[], .nil, rfl⟩

theorem append (h : Spelt ps ts) (h' : Spelt qs us) : Spelt (ps ++ qs) (ts ++ us) := by
  obtain ⟨vs, hv, rfl⟩ := h
  obtain ⟨ws, hw, rfl⟩ := h'
  exact ⟨vs ++ ws, hv.append hw, List.map_append⟩

theorem mark (h : t.kind.isMark = true) : Spelt [] [t] := ⟨[_], .mark h .nil, rfl⟩

theorem name (h : t.isBindingName = true) : Spelt [.name t.span t.value] [t] :=
  ⟨[_], .name h .nil, rfl⟩

theorem word (t : Token) : Spelt [.word t.value] [t] := ⟨[_], .word .nil, rfl⟩

theorem node {n : Node} (h : Spelt n.pieces ts) : Spelt [.node n] ts := by
  obtain ⟨us, hu, rfl⟩ := h
  exact ⟨us, .node (by rwa [List.append_nil]), rfl⟩

theorem kept : Spelt [.dropped] [] := ⟨[], .kept .nil, rfl⟩

theorem dropped {e : Node} (h : Spelt [.node e] ts) : Spelt [.dropped] ts := by
  obtain ⟨us, hu, rfl⟩ := h
  refine ⟨us.map Use.drop, ?_, ?_⟩
  · have h := Spells.dropped hu .nil
    rwa [List.append_nil] at h
  · rw [List.map_map]
    refine List.map_congr_left fun u _ => ?_
    show u.drop.token = u.token
    unfold Use.drop
    split <;> rfl

theorem clause {words : List String} (h : Spelt ps ts) (hps : ∀ p ∈ ps, p.Among words) :
    Spelt [.clause words] ts := by
  obtain ⟨us, hu, rfl⟩ := h
  have hwords : ∀ t ∈ us.map Use.token, t.kind.isMark = true ∨ t.value ∈ words := by
    intro t ht
    obtain ⟨u, hmem, rfl⟩ := List.mem_map.1 ht
    exact hu.among hps u hmem
  refine ⟨(us.map Use.token).map (⟨.word, ·⟩), ?_, ?_⟩
  · have h := Spells.clause hwords .nil
    rwa [List.append_nil] at h
  · rw [List.map_map]
    exact (List.map_congr_left fun _ _ => rfl).trans (List.map_id' _)

theorem toTarget {n : Node} (h : Spelt [.node n] ts) : Spelt [.node n.toTarget] ts := by
  obtain ⟨us, hu, rfl⟩ := h
  exact ⟨us, hu.toTarget, rfl⟩

end Spelt

namespace Grammar

-- ---------------------------------------------------------------------------
-- Parsers that go on with pieces
-- ---------------------------------------------------------------------------

/-- A parser that goes on from a list of pieces: if the tokens before it are those of the
pieces, then with the tokens it takes they are those of the pieces of its result. -/
def Completes {α : Type} (s : State) (pre : List Piece) (p : Parser α) (Q : α → List Piece) :
    Prop :=
  ∀ ⦃text c a t⦄, s.StandsAfter text c → p s = .ok a t →
    ∃ d ts, Reads c ts d ∧ t.StandsAfter text d ∧ ∀ us, Spelt pre us → Spelt (Q a) (us ++ ts)

namespace Completes

section Steps

variable {α β : Type} {s : State} {pre : List Piece} {p q : Parser α} {P P' : α → List Piece}
  {f : α → Parser β} {Q : β → List Piece}

-- ---------------------------------------------------------------------------
-- Steps
-- ---------------------------------------------------------------------------

/-- What two steps take one after the other. -/
theorem steps {mid : α → List Piece} {text : String} {c : Cursor} {a : α} {b : β} {t u : State}
    (hp : Completes s pre p mid) (hs : s.StandsAfter text c) (ha : p s = .ok a t)
    (hf : Completes t (mid a) (f a) Q) (hb : f a t = .ok b u) :
    ∃ d ts, Reads c ts d ∧ u.StandsAfter text d ∧ ∀ us, Spelt pre us → Spelt (Q b) (us ++ ts) := by
  obtain ⟨d, ts, hreads, ht, hp⟩ := hp hs ha
  obtain ⟨e, us, hreads', hu, hf⟩ := hf ht hb
  refine ⟨e, ts ++ us, hreads.append hreads', hu, fun vs hvs => ?_⟩
  rw [← List.append_assoc]
  exact hf _ (hp vs hvs)

/-- A step behind another one, of which it is known what it gave. -/
theorem bindOk {mid : α → List Piece} (hp : Completes s pre p mid)
    (hf : ∀ a t, p s = .ok a t → Completes t (mid a) (f a) Q) : Completes s pre (p >>= f) Q := by
  intro text c b u hs h
  obtain ⟨a, t, ha, h⟩ := bind_ok h
  exact hp.steps hs ha (hf a t ha) h

theorem bind {mid : α → List Piece} (hp : Completes s pre p mid)
    (hf : ∀ a t, Completes t (mid a) (f a) Q) : Completes s pre (p >>= f) Q :=
  hp.bindOk fun a t _ => hf a t

/-- What stands before does not matter. -/
theorem frame (hp : Completes s [] p P) : Completes s pre p fun a => pre ++ P a := by
  intro text c a t hs h
  obtain ⟨d, ts, hreads, ht, hp⟩ := hp hs h
  exact ⟨d, ts, hreads, ht, fun us hus => hus.append (hp [] .nil)⟩

/-- A step behind one that has pieces of its own. -/
theorem take (hp : Completes s [] p P) (hf : ∀ a t, Completes t (pre ++ P a) (f a) Q) :
    Completes s pre (p >>= f) Q :=
  hp.frame.bind hf

/-- A step behind one that takes marks only. -/
theorem skip (hp : Completes s [] p fun _ => []) (hf : ∀ a t, Completes t pre (f a) Q) :
    Completes s pre (p >>= f) Q :=
  hp.take fun a t => by
    rw [List.append_nil]
    exact hf a t

/-- A step whose tokens may be taken as one of two lists of pieces. -/
theorem either (hp : Completes s [] p P) (hp' : Completes s [] p P')
    (hf : ∀ a t, p s = .ok a t →
      Completes t (pre ++ P a) (f a) Q ∨ Completes t (pre ++ P' a) (f a) Q) :
    Completes s pre (p >>= f) Q := by
  intro text c b u hs h
  obtain ⟨a, t, ha, h⟩ := bind_ok h
  rcases hf a t ha with hf | hf
  · exact hp.frame.steps hs ha hf h
  · exact hp'.frame.steps hs ha hf h

/-- Other lists of pieces with the same tokens, before and behind. -/
theorem conv {pre' : List Piece} {P' : α → List Piece} (hp : Completes s pre' p P)
    (hpre : ∀ us, Spelt pre us → Spelt pre' us)
    (hP : ∀ a us, Spelt (P a) us → Spelt (P' a) us) : Completes s pre p P' := by
  intro text c a t hs h
  obtain ⟨d, ts, hreads, ht, hp⟩ := hp hs h
  exact ⟨d, ts, hreads, ht, fun us hus => hP a _ (hp us (hpre us hus))⟩

/-- Looking at the state takes nothing, and what is seen is known of the state. -/
theorem look {v : State → α} (h : Completes s pre (f (v s)) Q) :
    Completes s pre ((fun s => .ok (v s) s) >>= f) Q :=
  fun _ _ _ _ hs hb => h hs hb

theorem done {v : State → α} (h : ∀ us, Spelt pre us → Spelt (P (v s)) us) :
    Completes s pre (fun s => .ok (v s) s) P := by
  intro text c a t hs ha
  cases ha
  refine ⟨c, [], .nil c, hs, fun us hus => ?_⟩
  rw [List.append_nil]
  exact h us hus

/-- A node of the pieces that stand before. -/
theorem node {start : Nat} {form : Form Node}
    (h : ∀ stop, (Node.mk ⟨start, stop⟩ form).pieces = pre) :
    Completes s pre (nodeFrom start form) fun n => [.node n] :=
  .done fun us hus => .node (by rwa [h])

/-- A node of a clause, which the pieces that stand before make up. -/
theorem clauseNode {start : Nat} {form : Form Node} {words : List String}
    (h : ∀ stop, (Node.mk ⟨start, stop⟩ form).pieces = [.clause words])
    (hpre : ∀ p ∈ pre, p.Among words) :
    Completes s pre (nodeFrom start form) fun n => [.node n] :=
  .done fun us hus => .node (by rw [h]; exact hus.clause hpre)

theorem pure {a : α} (h : P a = pre) : Completes s pre (Pure.pure a : Parser α) P :=
  .done (v := fun _ => a) fun us hus => by rwa [h]

theorem fail {fault : SyntaxFault} : Completes s pre (Grammar.fail fault : Parser α) P :=
  fun _ _ _ _ _ h => nomatch h

theorem exhausted : Completes s pre (Grammar.exhausted : Parser α) P :=
  fun _ _ _ _ _ h => nomatch h

theorem ite {c : Prop} [Decidable c] (hp : c → Completes s pre p P)
    (hq : ¬c → Completes s pre q P) : Completes s pre (if c then p else q) P := by
  split
  · exact hp ‹_›
  · exact hq ‹_›

theorem map {g : α → β} (hp : Completes s pre p P) (h : ∀ a, Q (g a) = P a) :
    Completes s pre (g <$> p) Q := by
  rw [map_eq_pure_bind]
  exact hp.bind fun a _ => .pure (h a)

theorem nested (hp : Completes { s with depth := s.depth + 1 } pre p P) :
    Completes s pre (Grammar.nested p) P := by
  intro text c a u hs h
  obtain ⟨t, ht, rfl⟩ := nested_ok h
  obtain ⟨d, ts, hreads, hstands, hp⟩ := hp (hs.setDepth _) ht
  exact ⟨d, ts, hreads, hstands.setDepth _, hp⟩

theorem withIn {noIn : Bool} (hp : Completes { s with noIn := noIn } pre p P) :
    Completes s pre (Grammar.withIn noIn p) P := by
  intro text c a u hs h
  obtain ⟨t, ht, rfl⟩ := withIn_ok h
  obtain ⟨d, ts, hreads, hstands, hp⟩ := hp (hs.setNoIn _) ht
  exact ⟨d, ts, hreads, hstands.setNoIn _, hp⟩

theorem allowIn (hp : Completes { s with noIn := false } pre p P) :
    Completes s pre (Grammar.allowIn p) P :=
  hp.withIn

-- ---------------------------------------------------------------------------
-- Tokens of a kind
-- ---------------------------------------------------------------------------

variable {κ : TokenKind}

theorem advance (hs : s.token.Significant) {ps : List Piece} (h : Spelt ps [s.token]) :
    Completes s [] Grammar.advance fun _ => ps := by
  intro text c a t hstands ha
  cases ha
  obtain ⟨hstands, hreads, -, -⟩ := later_advance hstands hs
  refine ⟨_, _, hreads, hstands, fun us hus => ?_⟩
  exact .append hus h

/-- Takes a mark. -/
theorem advanceMark (h : s.token.kind.isMark = true) :
    Completes s [] Grammar.advance fun _ => [] :=
  .advance (Token.significant_of_isMark h) (.mark h)

/-- Takes a keyword. -/
theorem advanceWord {k : Keyword} (h : s.token.kind = .word k) :
    Completes s [] Grammar.advance fun _ => [.word k.text] := by
  intro text c a t hs ha
  have hvalue : s.token.value = k.text := by
    have htoken := hs.token_eq
    rw [htoken] at h ⊢
    exact Token.value_of_word h
  rw [← hvalue]
  exact advance (.of_kind_eq h rfl) (.word s.token) hs ha

theorem takeValue (hs : s.token.Significant) :
    Completes s [] Grammar.takeValue fun v => [.word v] :=
  .look <| (advance hs (.word s.token)).bind fun _ _ => .pure rfl

/-- Takes the text of a mark. -/
theorem takeMark (h : s.token.kind.isMark = true) :
    Completes s [] Grammar.takeValue fun _ => [] :=
  .look <| (advanceMark h).bind fun _ _ => .pure rfl

theorem accept (hκ : κ.isMark = true) : Completes s [] (Grammar.accept κ) fun _ => [] :=
  .look <| .ite
    (fun h => .skip (.advanceMark (Token.isMark_of_kind_eq (of_decide_eq_true h) hκ))
      fun _ _ => .pure rfl)
    fun _ => .pure rfl

/-- What follows a token that may be there, and what stands in its place. -/
theorem acceptingAs {ps : List Piece} {p q : Parser β}
    (hadvance : s.token.kind = κ → Completes s [] Grammar.advance fun _ => ps)
    (hp : s.token.kind = κ → ∀ t, Completes t (pre ++ ps) p Q)
    (hq : s.token.kind ≠ κ → Completes s pre q Q) :
    Completes s pre (Grammar.accept κ >>= fun taken => if taken then p else q) Q := by
  intro text c b u hs h
  obtain ⟨taken, t, haccept, h⟩ := bind_ok h
  obtain ⟨isThere, _, hat, haccept⟩ := bind_ok haccept
  cases hat
  by_cases hk : s.token.kind = κ
  · rw [if_pos (by simpa using hk)] at haccept
    cases haccept
    have htaken : Completes s pre (Grammar.advance >>= fun _ => p) Q :=
      .take (hadvance hk) fun _ t => hp hk t
    exact htaken hs h
  · rw [if_neg (by simpa using hk)] at haccept
    cases haccept
    exact hq hk hs h

/-- The token is a mark. -/
theorem accepting (hκ : κ.isMark = true) {p q : Parser β}
    (hp : s.token.kind = κ → ∀ t, Completes t pre p Q)
    (hq : s.token.kind ≠ κ → Completes s pre q Q) :
    Completes s pre (Grammar.accept κ >>= fun taken => if taken then p else q) Q := by
  have hmark : s.token.kind = κ → Completes s [] Grammar.advance fun _ => [] :=
    fun hk => .advanceMark (Token.isMark_of_kind_eq hk hκ)
  refine .acceptingAs hmark (fun hk t => ?_) hq
  rw [List.append_nil]
  exact hp hk t

/-- The token is a keyword that may be a name as well. -/
theorem acceptingWord {k : Keyword} {p q : Parser β}
    (hp : ∀ t, Completes t (pre ++ [.word k.text]) p Q) (hq : Completes s pre q Q) :
    Completes s pre (Grammar.accept (.word k) >>= fun taken => if taken then p else q) Q :=
  .acceptingAs .advanceWord (fun _ => hp) fun _ => hq

theorem expect (hκ : κ.isMark = true) : Completes s [] (Grammar.expect κ) fun _ => [] := by
  intro text c a t hs h
  obtain ⟨rfl, rfl⟩ := expect_ok h
  exact advanceMark hκ hs rfl

theorem expectWord {k : Keyword} :
    Completes s [] (Grammar.expect (.word k)) fun _ => [.word k.text] := by
  intro text c a t hs h
  obtain ⟨hk, rfl⟩ := expect_ok h
  exact advanceWord hk hs rfl

-- ---------------------------------------------------------------------------
-- Loops
-- ---------------------------------------------------------------------------

/-- A loop whose rounds go on from the pieces of what is gathered. -/
theorem loop {σ : Type} {round : σ → Parser (σ ⊕ β)} {I : σ → List Piece}
    (hround : ∀ x t, Completes t (I x) (round x) (Sum.elim I Q)) (n : Nat) (x : σ) :
    Completes s (I x) (Grammar.loop round n x) Q := by
  induction n generalizing s x with
  | zero => exact .exhausted
  | succ n ih =>
    refine (hround x s).bind fun r t => ?_
    cases r with
    | inl y => exact ih y
    | inr b => exact .pure rfl

theorem manyRound {ends : TokenKind → Bool} {item : Parser α}
    (hitem : ∀ t, Completes t [] item P) (acc : List α) :
    Completes s (acc.reverse.flatMap P) (Grammar.manyRound ends item acc)
      (Sum.elim (·.reverse.flatMap P) (·.flatMap P)) :=
  .look <| .ite (fun _ => .pure rfl) fun _ => .take (hitem _) fun _ _ => .pure (by simp)

theorem many {ends : TokenKind → Bool} {item : Parser α}
    (hitem : ∀ t, Completes t [] item P) :
    Completes s [] (Grammar.many ends item) (·.flatMap P) := by
  refine .look ?_
  rw [many_go_eq]
  exact loop (fun acc _ => manyRound hitem acc) _ []

theorem listRound {closing : Punctuator} {entry : Parser (Entry α)}
    (hentry : ∀ t, Completes t [] entry fun e => P e.value) (acc : List α) :
    Completes s (acc.reverse.flatMap P) (Grammar.listRound closing entry acc)
      (Sum.elim (·.reverse.flatMap P) (·.flatMap P)) := by
  refine .look (.ite (fun _ => .pure rfl) fun _ => .take (hentry _) fun e t => ?_)
  cases e with
  | plain a =>
    exact .look <| .ite (fun _ => .skip (.expect rfl) fun _ _ => .pure (by simp [Entry.value]))
      fun _ => .pure (by simp [Entry.value])
  | whole a => exact .pure (by simp [Entry.value])
  | last a => exact .pure (by simp [Entry.value])

theorem listUntil {closing : Punctuator} {entry : Parser (Entry α)}
    (hentry : ∀ t, Completes t [] entry fun e => P e.value) :
    Completes s [] (Grammar.listUntil closing entry) (·.flatMap P) := by
  refine .look ?_
  rw [listUntil_go_eq]
  exact loop (fun acc _ => listRound hentry acc) _ []

theorem separatedRound {item : Parser α} (hitem : ∀ t, Completes t [] item P) (acc : List α) :
    Completes s (acc.reverse.flatMap P) (Grammar.separatedRound item acc)
      (Sum.elim (·.reverse.flatMap P) (·.flatMap P)) :=
  .accepting rfl (fun _ _ => .take (hitem _) fun _ _ => .pure (by simp)) fun _ => .pure rfl

theorem separated {item : Parser α} (hitem : ∀ t, Completes t [] item P) :
    Completes s [] (Grammar.separated item) (·.flatMap P) := by
  refine .look (.bind (hitem s) fun a t => ?_)
  rw [separated_go_eq]
  have hrest := loop (s := t) (fun acc _ => separatedRound hitem acc) (s.ahead + 1) [a]
  rwa [List.reverse_singleton, List.flatMap_singleton] at hrest

end Steps

-- ---------------------------------------------------------------------------
-- Lists of nodes
-- ---------------------------------------------------------------------------

section Nodes

variable {s : State} {closing : Punctuator}

theorem flatMap_node (l : List Node) :
    (l.flatMap fun n => [Piece.node n]) = l.map Piece.node :=
  List.map_eq_flatMap.symm

theorem nodes_map_some (l : List Node) :
    ((l.map some).filterMap id).map Piece.node = l.map Piece.node := by
  simp

theorem flatMap_part (l : List (Option Node)) :
    (l.flatMap fun o => o.toList.map Piece.node) = (l.filterMap id).map Piece.node := by
  induction l with
  | nil => rfl
  | cons o l ih => cases o <;> simp_all

theorem manyNodes {ends : TokenKind → Bool} {item : Parser Node}
    (hitem : ∀ t, Completes t [] item fun n => [.node n]) :
    Completes s [] (Grammar.many ends item) fun l => l.map .node := by
  simp only [← flatMap_node]
  exact .many hitem

theorem separatedNodes {item : Parser Node}
    (hitem : ∀ t, Completes t [] item fun n => [.node n]) :
    Completes s [] (Grammar.separated item) fun l => l.map .node := by
  simp only [← flatMap_node]
  exact .separated hitem

theorem nodesUntil {entry : Parser (Entry Node)}
    (hentry : ∀ t, Completes t [] entry fun e => [.node e.value]) :
    Completes s [] (Grammar.listUntil closing entry) fun l => l.map .node := by
  simp only [← flatMap_node]
  exact .listUntil hentry

/-- Lists of parts that are there or not. -/
theorem manyParts {ends : TokenKind → Bool} {item : Parser (Option Node)}
    (hitem : ∀ t, Completes t [] item fun o => o.toList.map .node) :
    Completes s [] (Grammar.many ends item) fun l => (l.filterMap id).map .node := by
  simp only [← flatMap_part]
  exact .many hitem

theorem partsUntil {entry : Parser (Entry (Option Node))}
    (hentry : ∀ t, Completes t [] entry fun e => e.value.toList.map .node) :
    Completes s [] (Grammar.listUntil closing entry) fun l => (l.filterMap id).map .node := by
  simp only [← flatMap_part]
  exact .listUntil (P := fun o : Option Node => o.toList.map .node) hentry

/-- The clause of a list is made up of those of its entries. -/
theorem clausesUntil {α : Type} (words : α → List String) {entry : Parser (Entry α)}
    (hentry : ∀ t, Completes t [] entry fun e => [.clause (words e.value)]) :
    Completes s [] (Grammar.listUntil closing entry) fun l => [.clause (l.flatMap words)] := by
  refine (Completes.listUntil (P := fun a => [.clause (words a)]) hentry).conv (fun _ h => h)
    fun l us hus => hus.clause fun p hp => ?_
  obtain ⟨a, ha, hp⟩ := List.mem_flatMap.1 hp
  obtain rfl := List.mem_singleton.1 hp
  exact fun word hword => List.mem_flatMap.2 ⟨a, ha, hword⟩

end Nodes

end Completes

end Grammar

end ModuleBundler

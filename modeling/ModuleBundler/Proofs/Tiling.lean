import ModuleBundler.Proofs.Programs
import ModuleBundler.Proofs.TokenStream

/-!
# ModuleBundler — statements tile the text

A bundle keeps some statements of a text and drops others. Nothing of the text is lost
between them and nothing belongs to two of them: what is not in a statement is spacing, and
every token that the parser takes is in exactly one of them, whether the statement ends
with a semicolon, at the end of a line or with a token that was read again.

* `Statement.StandsBehind` — where a statement stands, and its text.
* `Tiled` — statements that stand one behind the other, up to the end of a text.
* `statements_tile` — the statements of a text tile it.
-/

namespace ModuleBundler

open Text (Cursor Span)
open Grammar

/-- A token is in a span. -/
def Token.LiesIn (t : Token) (span : Span) : Prop :=
  span.start ≤ t.span.start ∧ t.span.stop ≤ span.stop

/-- A statement stands behind an offset of a text: with nothing but spacing before it, not
empty, with both ends between characters, and its text is what stands between them. -/
structure Statement.StandsBehind (text : String) (offset : Nat) (s : Statement) : Prop where
  spacing : OnlySpacing text offset s.node.span.start
  nonempty : s.node.span.start < s.node.span.stop
  lies : SpanLies text s.node.span
  text_eq : ∃ cs ahead, Between text s.node.span.start s.node.span.stop cs ahead ∧
    s.view.toText = String.ofList cs

/-- The first token of a statement begins where it begins, and the last one stops where it
stops. -/
def Statement.MadeOf (s : Statement) (ts : List Token) : Prop :=
  (∃ t ∈ ts.head?, t.span.start = s.node.span.start) ∧
    ∃ t ∈ ts.getLast?, t.span.stop = s.node.span.stop

/-- Statements stand one behind the other from an offset on, and after the last one there is
nothing but spacing up to the end of the text. -/
inductive Tiled (text : String) : Nat → List Statement → Prop
  | nil {offset : Nat} (rest : OnlySpacing text offset text.utf8ByteSize) : Tiled text offset []
  | cons {offset : Nat} {s : Statement} {ss : List Statement} (first : s.StandsBehind text offset)
    (rest : Tiled text s.node.span.stop ss) : Tiled text offset (s :: ss)

section

variable {text : String} {offset : Nat} {s : Statement} {ss : List Statement}

theorem OnlySpacing.le {start stop : Nat} (h : OnlySpacing text start stop) : start ≤ stop := by
  obtain ⟨cs, ahead, ⟨before, -, -, hstop⟩, -⟩ := h
  omega

/-- All the statements begin behind the offset. -/
theorem Tiled.le_start (h : Tiled text offset ss) (hs : s ∈ ss) :
    offset ≤ s.node.span.start := by
  induction h with
  | nil => exact nomatch hs
  | cons first rest ih =>
    have hfirst := first.spacing.le
    rcases List.mem_cons.1 hs with rfl | hs
    · exact hfirst
    · have hlt := first.nonempty
      have hle := ih hs
      omega

end

namespace Reads

variable {c d : Cursor} {t : Token} {ts : List Token}

/-- Tokens that are read on the way are not empty and lie on the way. -/
theorem liesIn (h : Reads c ts d) (ht : t ∈ ts) :
    t.LiesIn ⟨(Token.after c).start.offset, d.offset⟩ ∧ t.span.start < t.span.stop := by
  induction h with
  | nil => exact nomatch ht
  | @cons c d u ts token significant rest ih =>
    have hlt := token.lt significant
    rcases List.mem_cons.1 ht with rfl | ht
    · refine ⟨⟨?_, rest.before.offset_le⟩, hlt⟩
      rw [← token.start_eq]
      exact Nat.le_refl _
    · obtain ⟨⟨hstart, hstop⟩, hnonempty⟩ := ih ht
      have hnext := (Token.before_after_start u.stop).offset_le
      have hfirst := token.start_eq
      refine ⟨⟨?_, hstop⟩, hnonempty⟩
      show (Token.after c).start.offset ≤ t.span.start
      have hstart : (Token.after u.stop).start.offset ≤ t.span.start := hstart
      rw [← hfirst]
      omega

/-- The first one begins where a token follows the cursor. -/
theorem head (h : Reads c ts d) (hne : ts ≠ []) :
    ∃ t ∈ ts.head?, t.span.start = (Token.after c).start.offset := by
  cases h with
  | nil => exact absurd rfl hne
  | cons token _ _ =>
    refine ⟨_, rfl, ?_⟩
    rw [← token.start_eq]
    rfl

/-- The last one stops at the other cursor. -/
theorem getLast (h : Reads c ts d) (hne : ts ≠ []) :
    ∃ t ∈ ts.getLast?, t.span.stop = d.offset := by
  induction h with
  | nil => exact absurd rfl hne
  | @cons c d u ts token significant rest ih =>
    cases ts with
    | nil =>
      cases rest
      exact ⟨u, rfl, rfl⟩
    | cons v ts =>
      obtain ⟨t, ht, hstop⟩ := ih (List.cons_ne_nil v ts)
      refine ⟨t, ?_, hstop⟩
      rw [List.getLast?_cons_cons]
      exact ht

end Reads

-- ---------------------------------------------------------------------------
-- The statements of a chain of items
-- ---------------------------------------------------------------------------

/-- The statements of some items of a module, which are counted from a position on. -/
def statementsFrom (moduleId : Nat) (text : String) (index : Nat) (ns : List Node) :
    List Statement :=
  ns.mapIdx fun i => Statement.ofNode moduleId (.whole text) (index + i)

theorem statementsFrom_cons (moduleId : Nat) (text : String) (index : Nat) (n : Node)
    (ns : List Node) :
    statementsFrom moduleId text index (n :: ns) =
      .ofNode moduleId (.whole text) index n :: statementsFrom moduleId text (index + 1) ns := by
  unfold statementsFrom
  rw [List.mapIdx_cons]
  congr 2
  funext i
  congr 1
  omega

section

variable {text : String} {k : Nat} {c : Cursor} {t : State} {ns : List Node} {n : Node}

/-- The statement of an item stands behind the item before it. -/
theorem statement_standsBehind (moduleId index : Nat) (hc : (Cursor.start text).Before c)
    (h : moduleItem (read k) (.between text c) = .ok n t) :
    (Statement.ofNode moduleId (.whole text) index n).StandsBehind text c.offset := by
  obtain ⟨d, rfl, hcd, hlies, hlt⟩ := moduleItem_between hc h
  have hstart := hc.trans (Token.before_after_start c)
  have hstop := hc.trans hcd
  obtain ⟨m, hm, hoff⟩ := (hstart.of_offset_le hstop hlt.le).exists_passed
  have hspan : (Statement.ofNode moduleId (.whole text) index n).node.span =
      ⟨(Token.after c).start.offset, d.offset⟩ := hlies.span_eq
  have htext : (Statement.ofNode moduleId (.whole text) index n).view.toText = _ :=
    Statement.view_eq hc hcd hlies hlt
  constructor
  · rw [hspan]
    exact Token.onlySpacing_after hc
  · rw [hspan]
    exact hlt
  · rw [hspan]
    exact ⟨hlt.le, hstop.offset_le_size, Text.isValid_of_before hstart,
      Text.isValid_of_before hstop⟩
  · rw [hspan, htext, Text.slice_eq hstart hm hoff]
    exact ⟨m, d.rest, between_of_passed hstart hm hoff, rfl⟩

/-- The statements of a chain of items that ends with the text tile what is ahead. -/
theorem Grammar.Chain.tiled (hc : (Cursor.start text).Before c)
    (h : Chain (moduleItem (read k)) (.between text c) ns t) (hend : t.token.kind = .endOfFile)
    (moduleId index : Nat) : Tiled text c.offset (statementsFrom moduleId text index ns) := by
  induction ns generalizing c index with
  | nil =>
    cases h
    refine .nil ?_
    rcases Token.after_end_or_lt c with ⟨-, heq, hrest⟩ | ⟨hmore, -⟩
    · have hsize : (Token.after c).start.offset = text.utf8ByteSize := by
        rw [heq]
        exact (hc.trans ((Token.before_after_start c).trans
          (Token.after_start_before c))).offset_eq_size hrest
      rw [← hsize]
      exact Token.onlySpacing_after hc
    · exact absurd hend hmore
  | cons n ns ih =>
    cases h with
    | cons hn hrest =>
      rw [statementsFrom_cons]
      have hstands := statement_standsBehind moduleId index hc hn
      obtain ⟨d, rfl, hcd, hlies, -⟩ := moduleItem_between hc hn
      have hstop : n.span.stop = d.offset := congrArg Span.stop hlies.span_eq
      refine .cons hstands ?_
      show Tiled text n.span.stop _
      rw [hstop]
      exact ih (hc.trans hcd) hrest (index + 1)

/-- The statements of a chain of items are made of the tokens that the items take, and each
of these is in exactly one statement. -/
theorem Grammar.Chain.tokens (hc : (Cursor.start text).Before c)
    (h : Chain (moduleItem (read k)) (.between text c) ns t) (hend : t.token.kind = .endOfFile)
    (moduleId index : Nat) :
    ∃ runs e, t = .between text e ∧ Reads c runs.flatten e ∧
      List.Forall₂ Statement.MadeOf (statementsFrom moduleId text index ns) runs ∧
        ∀ token ∈ runs.flatten,
          ∃! s, s ∈ statementsFrom moduleId text index ns ∧ token.LiesIn s.node.span := by
  induction ns generalizing c index with
  | nil =>
    cases h
    exact ⟨[], c, rfl, .nil c, .nil, fun _ h => nomatch h⟩
  | cons n ns ih =>
    cases h with
    | cons hn hrest =>
      obtain ⟨d, us, rfl, hreads, hne⟩ := moduleItem_reads hc hn
      have hd := hc.trans hreads.before
      have hlies := moduleItem_lies (State.standsAfter_between hc) hn
      have hspan : (Statement.ofNode moduleId (.whole text) index n).node.span =
          ⟨(Token.after c).start.offset, d.offset⟩ := hlies.span_eq
      have hmade : (Statement.ofNode moduleId (.whole text) index n).MadeOf us := by
        unfold Statement.MadeOf
        rw [hspan]
        exact ⟨hreads.head hne, hreads.getLast hne⟩
      have htiled := hrest.tiled hd hend moduleId (index + 1)
      obtain ⟨runs, e, rfl, hvs, hruns, hone⟩ := ih hd hrest (index + 1)
      rw [statementsFrom_cons]
      refine ⟨us :: runs, e, rfl, hreads.append hvs, .cons hmade hruns, fun token htoken => ?_⟩
      rw [List.flatten_cons] at htoken
      rcases List.mem_append.1 htoken with htoken | htoken
      · -- The token is before all statements that follow.
        obtain ⟨hin, hnonempty⟩ := hreads.liesIn htoken
        refine ⟨_, ⟨List.mem_cons_self, hspan ▸ hin⟩, ?_⟩
        rintro s ⟨hs, hin'⟩
        rcases List.mem_cons.1 hs with rfl | hs
        · rfl
        · have hle := htiled.le_start hs
          have hstart := hin'.1
          have hstop : token.span.stop ≤ d.offset := hin.2
          omega
      · -- The token is behind the first statement.
        obtain ⟨hin, hnonempty⟩ := hvs.liesIn htoken
        obtain ⟨s, ⟨hs, hin'⟩, honly⟩ := hone token htoken
        refine ⟨s, ⟨List.mem_cons_of_mem _ hs, hin'⟩, ?_⟩
        rintro r ⟨hr, hin''⟩
        rcases List.mem_cons.1 hr with rfl | hr
        · have hnext := (Token.before_after_start d).offset_le
          have hstart : (Token.after d).start.offset ≤ token.span.start := hin.1
          have hstop := hin''.2
          rw [hspan] at hstop
          have hstop : token.span.stop ≤ d.offset := hstop
          omega
        · exact honly r ⟨hr, hin''⟩

/-- The statements of a text tile it: they are not empty and stand one behind the other with
nothing but spacing between them, and the text of each is what stands in its place. They are
made of the tokens from the beginning of the text to its end, and every one of these is in
exactly one statement. -/
theorem statements_tile {tree : Node} (h : Node.parse text = .ok tree) (moduleId : Nat) :
    Tiled text 0 (tree.statements text moduleId) ∧
      ∃ runs e, Reads (Cursor.start text) runs.flatten e ∧ (Token.after e).kind = .endOfFile ∧
        List.Forall₂ Statement.MadeOf (tree.statements text moduleId) runs ∧
          ∀ token ∈ runs.flatten,
            ∃! s, s ∈ tree.statements text moduleId ∧ token.LiesIn s.node.span := by
  obtain ⟨ns, t, rfl, hchain, hend⟩ := parse_eq_ok.1 h
  have hstatements : Node.statements (.mk ⟨0, text.utf8ByteSize⟩ (.program ns)) text moduleId =
      statementsFrom moduleId text 0 ns := by
    unfold statementsFrom
    simp only [Nat.zero_add]
    rfl
  rw [hstatements]
  obtain ⟨runs, e, rfl, hreads, hmade, hone⟩ := hchain.tokens (.refl _) hend moduleId 0
  exact ⟨hchain.tiled (.refl _) hend moduleId 0, runs, e, hreads, hend, hmade, hone⟩

end

/-- Two statements, whose ends depend on tokens that are read again: a regular expression with
a quote in it and a template. -/
def rereadText : String := "#!node\nlet a = /'/g // a quote\nuse(`$\x7ba\x7d`)\n"

theorem statements_tile_reread : ∃ tree, Node.parse rereadText = .ok tree ∧
    (tree.statements rereadText).map (·.view.toText) = ["let a = /'/g", "use(`$\x7ba\x7d`)"] ∧
      Tiled rereadText 0 (tree.statements rereadText) ∧
        ∃ runs e, Reads (Cursor.start rereadText) runs.flatten e ∧
          (Token.after e).kind = .endOfFile ∧
            List.Forall₂ Statement.MadeOf (tree.statements rereadText) runs ∧
              ∀ token ∈ runs.flatten,
                ∃! s, s ∈ tree.statements rereadText ∧ token.LiesIn s.node.span := by
  have htexts : ∃ tree ∈ (Node.parse rereadText).toOption,
      (tree.statements rereadText).map (·.view.toText) = ["let a = /'/g", "use(`$\x7ba\x7d`)"] := by
    decide +kernel
  obtain ⟨tree, htree, htexts⟩ := htexts
  cases hparse : Node.parse rereadText with
  | error d =>
    rw [hparse] at htree
    cases htree
  | ok parsed =>
    rw [hparse] at htree
    obtain rfl := Option.some.inj htree
    exact ⟨parsed, rfl, htexts, statements_tile hparse 0⟩

end ModuleBundler

import ModuleBundler.Module.Basic
import ModuleBundler.Proofs.Items

/-!
# ModuleBundler — the statements of a text

A text is parsed by reading one item after the other, from its beginning until
nothing but its end follows. Between two items the parser is in a state that is
given by its cursor alone, so what an item is depends on the text and on where
the item before it stops, and on nothing else.

* `Chain` — items that are read one after the other.
* `parse_eq_ok` — the tree of a text in terms of its chain of items.
* `Statement.view_eq` — the text of a statement is what its item reaches over.
* `BeginsToken`, `Statement.beginsToken_emittedText` — the texts that statements
  have in a bundle begin as tokens do.
-/

namespace ModuleBundler

open Text (Cursor Span View slice slice_eq)
open String (utf8Len)

namespace Grammar

-- ---------------------------------------------------------------------------
-- Chains of items
-- ---------------------------------------------------------------------------

/-- Items that a parser reads one after the other, from one state to another. -/
inductive Chain {α : Type} (item : Parser α) : State → List α → State → Prop
  | nil (s : State) : Chain item s [] s
  | cons {s t u : State} {a : α} {as : List α} :
    item s = .ok a t → Chain item t as u → Chain item s (a :: as) u

theorem bind_of_ok {α β : Type} {p : Parser α} {f : α → Parser β} {s t : State} {a : α}
    (h : p s = .ok a t) : (p >>= f) s = f a t := by
  have heq : (p >>= f) s = EStateM.bind p f s := rfl
  rw [heq, EStateM.bind, h]

/-- A list whose items do not begin where it ends. `P` is what is known of the states between
the items. -/
theorem many_go_eq_ok {α : Type} {P : State → Prop} {ends : TokenKind → Bool} {item : Parser α}
    (hmore : ∀ ⦃s a t⦄, P s → item s = .ok a t → ends s.token.kind = false ∧ P t) {n : Nat}
    {acc bs : List α} {s u : State} (hs : P s) : many.go ends item n acc s = .ok bs u ↔
      ∃ as, bs = acc.reverse ++ as ∧ Chain item s as u ∧ ends u.token.kind = true ∧
        as.length < n := by
  induction n generalizing acc s with
  | zero =>
    constructor
    · intro h
      cases h
    · rintro ⟨as, -, -, -, hlen⟩
      exact absurd hlen (Nat.not_lt_zero _)
  | succ n ih =>
    have hgo : many.go ends item (n + 1) acc s =
        (if ends s.token.kind then pure acc.reverse
          else item >>= fun a => many.go ends item n (a :: acc)) s := rfl
    rw [hgo]
    constructor
    · intro h
      split at h
      · case isTrue hends =>
        cases h
        exact ⟨[], (List.append_nil _).symm, .nil _, hends, Nat.succ_pos n⟩
      · obtain ⟨a, t, ha, h⟩ := bind_ok h
        obtain ⟨as, rfl, hchain, hends, hlen⟩ := (ih (hmore hs ha).2).1 h
        refine ⟨a :: as, ?_, .cons ha hchain, hends, Nat.succ_lt_succ hlen⟩
        rw [List.reverse_cons, List.append_assoc, List.singleton_append]
    · rintro ⟨as, rfl, hchain, hends, hlen⟩
      cases hchain with
      | nil =>
        rw [if_pos hends, List.append_nil]
        rfl
      | @cons _ t _ a as ha hchain =>
        rw [if_neg (by simp [hmore hs ha]), bind_of_ok ha, ih (hmore hs ha).2]
        refine ⟨as, ?_, hchain, hends, Nat.lt_of_succ_lt_succ hlen⟩
        rw [List.reverse_cons, List.append_assoc, List.singleton_append]

section Chains

variable {text : String} {c : Cursor} {t : State} {k : Nat} {ns : List Node}

/-- An item takes tokens, at least one, and comes outside all phrases if it began there. -/
theorem moduleItem_reads {n : Node} (hc : (Cursor.start text).Before c)
    (h : moduleItem (read k) (.between text c) = .ok n t) :
    ∃ d ts, t = .between text d ∧ Reads c ts d ∧ ts ≠ [] := by
  have hs := State.standsAfter_between hc
  obtain ⟨d, ts, hlater, htaken⟩ := (Runs.moduleItem fun phrase t => .read k phrase t).ok hs h
  exact ⟨d, ts, hlater.stands.eq_between hlater.depth_eq hlater.noIn_eq, hlater.reads, htaken rfl⟩

/-- A step along a chain of items: the item comes to a later cursor. -/
theorem moduleItem_between {n : Node} (hc : (Cursor.start text).Before c)
    (h : moduleItem (read k) (.between text c) = .ok n t) :
    ∃ d, t = .between text d ∧ c.Before d ∧ ItemLies text (.between text c) t n ∧
      (Token.after c).start.offset < d.offset := by
  obtain ⟨d, ts, ht, hreads, hne⟩ := moduleItem_reads hc h
  exact ⟨d, ht, hreads.before, moduleItem_lies (State.standsAfter_between hc) h, hreads.lt hne⟩

/-- There are at most as many items as bytes are passed. -/
theorem Chain.between (hc : (Cursor.start text).Before c)
    (h : Chain (moduleItem (read k)) (.between text c) ns t) :
    ∃ d, t = .between text d ∧ c.Before d ∧
      (Token.after c).start.offset + ns.length ≤ (Token.after d).start.offset := by
  induction ns generalizing c with
  | nil =>
    cases h
    exact ⟨c, rfl, .refl c, Nat.le_refl _⟩
  | cons n ns ih =>
    cases h with
    | @cons _ u _ _ _ hn hrest =>
      obtain ⟨d, rfl, hcd, -, hlt⟩ := moduleItem_between hc hn
      obtain ⟨e, rfl, hde, hlen⟩ := ih (hc.trans hcd) hrest
      have hnext := (Token.before_after_start d).offset_le
      refine ⟨e, rfl, hcd.trans hde, ?_⟩
      rw [List.length_cons]
      omega

/-- The items of a chain are read one by one. -/
theorem Chain.exists_read (hc : (Cursor.start text).Before c)
    (h : Chain (moduleItem (read k)) (.between text c) ns t) {n : Node} (hn : n ∈ ns) :
    ∃ d u, (Cursor.start text).Before d ∧ moduleItem (read k) (.between text d) = .ok n u := by
  induction ns generalizing c with
  | nil => exact nomatch hn
  | cons m ns ih =>
    cases h with
    | @cons _ u _ _ _ hm hrest =>
      rcases List.mem_cons.1 hn with rfl | hn
      · exact ⟨c, u, hc, hm⟩
      · obtain ⟨d, rfl, hcd, -, -⟩ := moduleItem_between hc hm
        exact ih (hc.trans hcd) hrest hn

/-- The items of a chain lie where a token begins. -/
theorem Chain.mem_lies (hc : (Cursor.start text).Before c)
    (h : Chain (moduleItem (read k)) (.between text c) ns t) {n : Node} (hn : n ∈ ns) :
    ∃ d e, (Cursor.start text).Before d ∧ d.Before e ∧
      ItemLies text (.between text d) (.between text e) n ∧
      (Token.after d).start.offset < e.offset := by
  obtain ⟨d, u, hd, hread⟩ := h.exists_read hc hn
  obtain ⟨e, rfl, hde, hlies, hlt⟩ := moduleItem_between hd hread
  exact ⟨d, e, hd, hde, hlies, hlt⟩

/-- The rounds that a text is given are enough for its items. -/
theorem many_moduleItem_eq_ok :
    many (· = .endOfFile) (moduleItem (read k)) (.between text (Cursor.start text)) = .ok ns t ↔
      Chain (moduleItem (read k)) (.between text (Cursor.start text)) ns t ∧
        t.token.kind = .endOfFile := by
  have hmore : ∀ ⦃s n t⦄, (∃ c, (Cursor.start text).Before c ∧ s = .between text c) →
      moduleItem (read k) s = .ok n t →
      decide (s.token.kind = .endOfFile) = false ∧
        ∃ c, (Cursor.start text).Before c ∧ t = .between text c := by
    rintro _ n t ⟨c, hc, rfl⟩ h
    obtain ⟨d, rfl, hcd, hlies, -⟩ := moduleItem_between hc h
    exact ⟨decide_eq_false hlies.significant.more, d, hc.trans hcd, rfl⟩
  have hgo : many (· = .endOfFile) (moduleItem (read k)) (.between text (Cursor.start text)) =
      many.go (· = .endOfFile) (moduleItem (read k))
        (text.utf8ByteSize - (Token.after (Cursor.start text)).start.offset + 1) []
        (.between text (Cursor.start text)) := rfl
  rw [hgo, many_go_eq_ok hmore ⟨_, .refl _, rfl⟩]
  constructor
  · rintro ⟨as, rfl, hchain, hends, -⟩
    exact ⟨hchain, of_decide_eq_true hends⟩
  · rintro ⟨hchain, hends⟩
    obtain ⟨d, rfl, hd, hlen⟩ := hchain.between (.refl _)
    have hsize := (hd.trans (Token.before_after_start d)).offset_le_size
    exact ⟨ns, rfl, hchain, decide_eq_true hends, by omega⟩

/-- The tree of a text holds the items from its beginning to its end. -/
theorem parse_eq_ok {tree : Node} :
    Node.parse text = .ok tree ↔
      ∃ ns t, tree = .mk ⟨0, text.utf8ByteSize⟩ (.program ns) ∧
        Chain (moduleItem (read (text.utf8ByteSize + 1))) (.between text (Cursor.start text)) ns t ∧
        t.token.kind = .endOfFile := by
  rw [Node.parse, readModule_eq]
  constructor
  · intro h
    split at h
    · case _ ns t hns =>
      cases h
      obtain ⟨hchain, hends⟩ := many_moduleItem_eq_ok.1 hns
      obtain ⟨d, rfl, -, -⟩ := hchain.between (.refl _)
      exact ⟨ns, _, rfl, hchain, hends⟩
    · cases h
  · rintro ⟨ns, t, rfl, hchain, hends⟩
    obtain ⟨d, rfl, -, -⟩ := hchain.between (.refl _)
    rw [many_moduleItem_eq_ok.2 ⟨hchain, hends⟩]
    rfl

end Chains

end Grammar

-- ---------------------------------------------------------------------------
-- Texts of statements
-- ---------------------------------------------------------------------------

open Grammar

section Texts

variable {text : String} {start stop : Nat}

theorem snip_whole (hle : start ≤ stop) (hsize : stop ≤ text.utf8ByteSize) :
    (View.whole text).snip start stop = ⟨text, ⟨start, stop⟩, []⟩ := by
  have hclamp : (View.whole text).clamp start stop = ⟨start, stop⟩ := by
    unfold View.clamp View.whole
    dsimp only
    congr 1 <;> omega
  unfold View.snip
  rw [hclamp]
  rfl

/-- The text of a view of part of a text. -/
theorem toText_snip (hle : start ≤ stop) (hsize : stop ≤ text.utf8ByteSize) :
    ((View.whole text).snip start stop).toText = slice text start stop := by
  rw [snip_whole hle hsize]
  rfl

/-- Without its beginning, a part of a text is a smaller part of it. -/
theorem toText_remove {later : Nat} (hnothing : slice text start start = "")
    (hstart : start ≤ later) (hle : later ≤ stop) (hsize : stop ≤ text.utf8ByteSize) :
    (((View.whole text).snip start stop).remove start later).toText = slice text later stop := by
  have hrange : View.clamp ⟨text, ⟨start, stop⟩, []⟩ start later = ⟨start, later⟩ := by
    unfold View.clamp
    dsimp only
    congr 1 <;> omega
  rw [snip_whole (Nat.le_trans hstart hle) hsize, View.remove, hrange]
  rcases Nat.eq_or_lt_of_le hstart with rfl | hlt
  · rw [Span.isEmpty, decide_eq_true (Nat.le_refl _)]
    rfl
  · rw [Span.isEmpty, decide_eq_false (Nat.not_le.2 hlt)]
    show slice text start start ++ slice text later stop = slice text later stop
    rw [hnothing, String.empty_append]

/-- Texts that begin as tokens do, if not at their end. -/
def BeginsToken (text : String) : Prop :=
  text ≠ "" ∧ ∃ rest, Begins (text.toList ++ rest)

/-- From where a token begins, a part of a text begins as a token does. -/
theorem Grammar.TokenWithin.beginsToken {c e : Cursor} (h : TokenWithin text start c e.offset)
    (he : (Cursor.start text).Before e) : BeginsToken (slice text start e.offset) := by
  have hc := h.before.trans (Token.before_after_start c)
  obtain ⟨m, hm, hoff⟩ := (hc.of_offset_le he h.lt.le).exists_passed
  have hbegins := Token.after_begins h.significant
  rw [h.start_eq, slice_eq hc hm hoff]
  refine ⟨?_, e.rest, ?_⟩
  · intro hnil
    have hlt := h.lt
    rw [String.ofList_eq_empty_iff] at hnil
    rw [hoff, hnil, String.utf8Len_nil] at hlt
    omega
  · rwa [String.toList_ofList, ← hm]

namespace Statement

variable {n : Node} {d e : Cursor} {moduleId index : Nat}

theorem exports_of_exportedDeclaration? {declaration : Node}
    (h : (ofNode moduleId (.whole text) index n).exportedDeclaration? = some declaration) :
    Exports n declaration := by
  unfold exportedDeclaration? at h
  split at h
  · case _ specifiers source hform =>
    exact .inl ⟨specifiers, source, h ▸ hform⟩
  · case _ inner hform =>
    split at h
    · exact .inr (Option.some.inj h ▸ hform)
    · cases h
  · cases h

/-- The text of a statement is what its item reaches over. -/
theorem view_eq (hd : (Cursor.start text).Before d) (he : d.Before e)
    (h : ItemLies text (.between text d) (.between text e) n)
    (hlt : (Token.after d).start.offset < e.offset) :
    (ofNode moduleId (.whole text) index n).view.toText =
      slice text (Token.after d).start.offset e.offset := by
  have hsize := (hd.trans he).offset_le_size
  show ((View.whole text).snip n.span.start n.span.stop).toText = _
  rw [h.span_eq]
  exact toText_snip hlt.le hsize

/-- The text in a bundle of a statement that exports a declaration is that of the statement from
the declaration on. -/
theorem emittedText_of_declaration (hd : (Cursor.start text).Before d) (he : d.Before e)
    (h : ItemLies text (.between text d) (.between text e) n) {declaration : Node}
    (hexported : (ofNode moduleId (.whole text) index n).exportedDeclaration? = some declaration) :
    (ofNode moduleId (.whole text) index n).emittedText =
      slice text declaration.span.start e.offset := by
  have hstart := hd.trans (Token.before_after_start d)
  obtain ⟨c, hc, -, hwithin⟩ := h.exported declaration (exports_of_exportedDeclaration? hexported)
  have hle : (Token.after d).start.offset ≤ declaration.span.start := by
    rw [hwithin.start_eq]
    exact (hc.trans (Token.before_after_start c)).offset_le
  have hlater : declaration.span.start < e.offset := by
    rw [hwithin.start_eq]
    exact hwithin.lt
  rw [emittedText, hexported]
  show (((View.whole text).snip n.span.start n.span.stop).remove n.span.start
    declaration.span.start).toText = _
  rw [h.span_eq]
  show (((View.whole text).snip (Token.after d).start.offset e.offset).remove
    (Token.after d).start.offset declaration.span.start).toText = _
  have hnothing : slice text (Token.after d).start.offset (Token.after d).start.offset = "" :=
    slice_eq (d := (Token.after d).start) hstart rfl rfl
  exact toText_remove hnothing hle hlater.le (hd.trans he).offset_le_size

/-- The text of a statement in a bundle begins where a token begins. -/
theorem beginsToken_emittedText (hd : (Cursor.start text).Before d) (he : d.Before e)
    (h : ItemLies text (.between text d) (.between text e) n)
    (hlt : (Token.after d).start.offset < e.offset) :
    BeginsToken (ofNode moduleId (.whole text) index n).emittedText := by
  cases hexported : (ofNode moduleId (.whole text) index n).exportedDeclaration? with
  | some declaration =>
    obtain ⟨c, -, -, hwithin⟩ :=
      h.exported declaration (exports_of_exportedDeclaration? hexported)
    rw [emittedText_of_declaration hd he h hexported]
    exact hwithin.beginsToken (hd.trans he)
  | none =>
    rw [emittedText, hexported, view_eq hd he h hlt]
    exact Grammar.TokenWithin.beginsToken ⟨hd, h.significant, rfl, hlt⟩ (hd.trans he)

end Statement

end Texts

end ModuleBundler

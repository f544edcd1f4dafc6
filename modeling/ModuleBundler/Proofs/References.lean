import Mathlib.Data.List.Nodup
import ModuleBundler.Proofs.Attached
import ModuleBundler.Proofs.Programs

/-!
# ModuleBundler — every name has its node

Scope analysis sees the names of a statement by a traversal of its tree, so a name that
is read but not in the tree is a name it does not see. The tokens of an accepted text
are those of its tree, in their order, and no two of them have the same span. So there
is one identifier for each token that is a binding or a reference, and a traversal enters
it once.

The exception are the tokens of a second argument of a dynamic import, which are read
and dropped, but stay in the text of their statement.

* `Reads.nodup_span` — tokens that are read one after the other have different spans.
* `spells_parse` — the tokens of an accepted text are those of its tree.
* `entered_once_unless_dropped` — how often a traversal enters an identifier with the
  span of a token.
-/

namespace ModuleBundler

open Text (Cursor Span)

-- ---------------------------------------------------------------------------
-- Spans of tokens
-- ---------------------------------------------------------------------------

namespace Reads

variable {c d : Cursor} {ts : List Token}

theorem le_start (h : Reads c ts d) {t : Token} (ht : t ∈ ts) : c.offset ≤ t.start.offset := by
  induction h with
  | nil => exact nomatch ht
  | cons token _ _ ih =>
    have hstart := token.before_start.offset_le
    rcases List.mem_cons.1 ht with rfl | ht
    · exact hstart
    · have hstop := token.start_before_stop.offset_le
      have hrest := ih ht
      omega

/-- Tokens that are read one after the other have different spans. -/
theorem nodup_span (h : Reads c ts d) : (ts.map Token.span).Nodup := by
  induction h with
  | nil => exact List.nodup_nil
  | @cons c d t ts token significant rest ih =>
    refine List.nodup_cons.2 ⟨fun hmem => ?_, ih⟩
    obtain ⟨u, hu, hspan⟩ := List.mem_map.1 hmem
    have hstart : u.start.offset = t.start.offset := congrArg Span.start hspan
    have hlt := token.lt significant
    have hle := rest.le_start hu
    omega

end Reads

-- ---------------------------------------------------------------------------
-- The tokens of a text
-- ---------------------------------------------------------------------------

namespace Grammar

theorem Chain.spelt {text : String} {item : Parser Node} {s t : State} {ns : List Node}
    {c : Cursor} (hitem : ∀ s, Completes s [] item fun n => [.node n]) (h : Chain item s ns t)
    (hs : s.StandsAfter text c) :
    ∃ d ts, Reads c ts d ∧ t.StandsAfter text d ∧ Spelt (ns.map .node) ts := by
  induction h generalizing c with
  | nil s => exact ⟨c, [], .nil c, hs, .nil⟩
  | @cons s t u n ns hn _ ih =>
    obtain ⟨d, ts, hreads, ht, hspelt⟩ := hitem s hs hn
    obtain ⟨e, us, hreads', hu, hspelt'⟩ := ih ht
    exact ⟨e, ts ++ us, hreads.append hreads', hu, (hspelt [] .nil).append hspelt'⟩

end Grammar

/-- The tokens of an accepted text are those of its tree. -/
theorem spells_parse {text : String} {tree : Node} (h : Node.parse text = .ok tree) :
    ∃ uses e, Reads (Cursor.start text) (uses.map Use.token) e ∧
      (Token.after e).kind = .endOfFile ∧ Spells [.node tree] uses := by
  obtain ⟨ns, t, rfl, hchain, hends⟩ := Grammar.parse_eq_ok.1 h
  obtain ⟨e, ts, hreads, ht, hspelt⟩ :=
    hchain.spelt (fun s => .moduleItem fun phrase t => .read _ phrase t)
      (Grammar.State.standsAfter_between (.refl _))
  have htree : Spelt [.node (.mk ⟨0, text.utf8ByteSize⟩ (.program ns))] ts := by
    refine .node ?_
    simpa [Node.pieces, Node.form, Node.kids, Form.children] using hspelt
  obtain ⟨uses, huses, rfl⟩ := htree
  rw [ht.token_eq] at hends
  exact ⟨uses, e, hreads, hends, huses⟩

-- ---------------------------------------------------------------------------
-- Identifiers
-- ---------------------------------------------------------------------------

namespace Node

/-- The nodes that a traversal enters, in its order. -/
def entered (n : Node) : List Node := n.events.toList.filterMap Event.entered?

/-- An identifier with a span. -/
def isIdentifierAt (span : Span) (n : Node) : Bool :=
  n.identifierName?.isSome && n.span = span

theorem mem_identifiers {n m : Node} :
    m ∈ n.identifiers ↔ m ∈ n.entered ∧ m.identifierName?.isSome = true := by
  unfold identifiers entered
  rw [entered_eq, List.mem_filter]

theorem countP_isIdentifierAt (span : Span) (n : Node) :
    n.entered.countP (·.isIdentifierAt span) = (n.identifiers.map Node.span).count span := by
  unfold identifiers entered
  rw [entered_eq, List.count, List.countP_map, List.countP_filter]
  refine List.countP_congr fun m _ => ?_
  simp [isIdentifierAt, and_comm]

end Node

namespace Spells

variable {tree : Node} {ps : List Piece} {uses : List Use}

theorem isMark (h : Spells ps uses) {u : Use} (hu : u ∈ uses) (hrole : u.role = .mark) :
    u.token.kind.isMark = true := by
  induction h generalizing u with
  | nil => exact nomatch hu
  | mark hmark _ ih =>
    rcases List.mem_cons.1 hu with rfl | hu
    · exact hmark
    · exact ih hu hrole
  | name _ _ ih =>
    rcases List.mem_cons.1 hu with rfl | hu
    · exact nomatch hrole
    · exact ih hu hrole
  | word _ ih =>
    rcases List.mem_cons.1 hu with rfl | hu
    · exact nomatch hrole
    · exact ih hu hrole
  | clause _ _ ih =>
    rcases List.mem_append.1 hu with hu | hu
    · obtain ⟨t, -, rfl⟩ := List.mem_map.1 hu
      exact nomatch hrole
    · exact ih hu hrole
  | node _ ih => exact ih hu hrole
  | kept _ ih => exact ih hu hrole
  | dropped _ _ ihlost ih =>
    rcases List.mem_append.1 hu with hu | hu
    · obtain ⟨v, hv, rfl⟩ := List.mem_map.1 hu
      unfold Use.drop at hrole ⊢
      split at hrole
      · exact nomatch hrole
      · rw [if_neg ‹_›]
        exact ihlost hv hrole
    · exact ih hu hrole

theorem isBindingName (h : Spells ps uses) {u : Use} (hu : u ∈ uses) (hrole : u.role = .name) :
    u.token.isBindingName = true := by
  induction h generalizing u with
  | nil => exact nomatch hu
  | mark _ _ ih =>
    rcases List.mem_cons.1 hu with rfl | hu
    · exact nomatch hrole
    · exact ih hu hrole
  | name hname _ ih =>
    rcases List.mem_cons.1 hu with rfl | hu
    · exact hname
    · exact ih hu hrole
  | word _ ih =>
    rcases List.mem_cons.1 hu with rfl | hu
    · exact nomatch hrole
    · exact ih hu hrole
  | clause _ _ ih =>
    rcases List.mem_append.1 hu with hu | hu
    · obtain ⟨t, -, rfl⟩ := List.mem_map.1 hu
      exact nomatch hrole
    · exact ih hu hrole
  | node _ ih => exact ih hu hrole
  | kept _ ih => exact ih hu hrole
  | dropped _ _ _ ih =>
    rcases List.mem_append.1 hu with hu | hu
    · obtain ⟨v, -, rfl⟩ := List.mem_map.1 hu
      unfold Use.drop at hrole
      split at hrole
      · exact nomatch hrole
      · contradiction
    · exact ih hu hrole

/-- The identifiers of a tree are the names among its tokens. -/
theorem identifiers (h : Spells [.node tree] uses) :
    List.Forall₂ (fun n u => n.identifierName? = some u.token.value ∧ n.span = u.token.span)
      tree.identifiers (uses.filter (·.role = .name)) := by
  have h := h.names
  rwa [List.flatMap_singleton] at h

theorem identifiers_span (h : Spells [.node tree] uses) :
    tree.identifiers.map Node.span =
      (uses.filter (·.role = .name)).map (·.token.span) := by
  have h := h.identifiers
  generalize tree.identifiers = ns at h
  generalize uses.filter (·.role = .name) = us at h
  induction h with
  | nil => rfl
  | cons h _ ih => rw [List.map_cons, List.map_cons, h.2, ih]

/-- An identifier of a tree is that of a token that is taken as a name. -/
theorem exists_use (h : Spells [.node tree] uses) {n : Node} (hn : n ∈ tree.identifiers) :
    ∃ u ∈ uses, u.role = .name ∧ n.identifierName? = some u.token.value ∧
      n.span = u.token.span := by
  have h := h.identifiers
  have hmem : ∀ u ∈ uses.filter (·.role = .name), u ∈ uses ∧ u.role = .name := by
    intro u hu
    exact ⟨List.mem_of_mem_filter hu, of_decide_eq_true (List.mem_filter.1 hu).2⟩
  generalize tree.identifiers = ns at h hn
  generalize uses.filter (·.role = .name) = us at h hmem
  induction h with
  | nil => exact nomatch hn
  | @cons m u ms us h _ ih =>
    rcases List.mem_cons.1 hn with rfl | hn
    · obtain ⟨hu, hrole⟩ := hmem u List.mem_cons_self
      exact ⟨u, hu, hrole, h⟩
    · exact ih hn fun v hv => hmem v (List.mem_cons_of_mem u hv)

/-- An identifier of a tree is that of a name among its tokens. -/
theorem exists_name (h : Spells [.node tree] uses) {n : Node} (hn : n ∈ tree.identifiers) :
    ∃ u ∈ uses, n.identifierName? = some u.token.value ∧ n.span = u.token.span := by
  obtain ⟨u, hu, -, hname⟩ := h.exists_use hn
  exact ⟨u, hu, hname⟩

/-- A traversal enters an identifier for each name, and for no other token. -/
theorem countP_entered (h : Spells [.node tree] uses)
    (hspans : (uses.map (·.token.span)).Nodup) {u : Use} (hu : u ∈ uses) :
    tree.entered.countP (·.isIdentifierAt u.token.span) = if u.role = .name then 1 else 0 := by
  rw [Node.countP_isIdentifierAt, h.identifiers_span]
  have hnodup : ((uses.filter (·.role = .name)).map (·.token.span)).Nodup :=
    hspans.sublist (List.filter_sublist.map _)
  split
  · case isTrue hname =>
    refine List.count_eq_one_of_mem hnodup (List.mem_map.2 ⟨u, ?_, rfl⟩)
    exact List.mem_filter.2 ⟨hu, decide_eq_true hname⟩
  · case isFalse hother =>
    refine List.count_eq_zero_of_not_mem fun hmem => ?_
    obtain ⟨v, hv, hspan⟩ := List.mem_map.1 hmem
    obtain ⟨hv, hname⟩ := List.mem_filter.1 hv
    obtain rfl := List.inj_on_of_nodup_map hspans hv hu hspan
    exact hother (of_decide_eq_true hname)

end Spells

/-- A mark is not the name of a binding. -/
theorem Token.isBindingName_of_isMark {t : Token} (h : t.kind.isMark = true) :
    t.isBindingName = false := by
  unfold isBindingName
  split
  · case _ hk =>
    rw [hk] at h
    cases h
  · rfl
  · rfl
  · case _ hk hawait hyield =>
    unfold TokenKind.isMark at h
    split at h
    all_goals first | contradiction | simpa using h

/-- What a traversal of a tree enters for a token: an identifier with its span and its name
for one that is a binding or a reference, and none for another one. -/
structure Use.EnteredIn (tree : Node) (u : Use) : Prop where
  mark : u.role = .mark → u.token.isBindingName = false
  count : tree.entered.countP (·.isIdentifierAt u.token.span) = if u.role = .name then 1 else 0
  name : ∀ n ∈ tree.entered, n.isIdentifierAt u.token.span = true →
    n.identifierName? = some u.token.value

/-- The tokens of an accepted text are those of its tree, and a traversal enters one
identifier for each of them that is taken as a binding or as a reference. It enters none for
the names that are lost, which are those in a second argument of a dynamic import. -/
theorem entered_once_unless_dropped {text : String} {tree : Node}
    (h : Node.parse text = .ok tree) :
    ∃ uses e, Reads (Cursor.start text) (uses.map Use.token) e ∧
      (Token.after e).kind = .endOfFile ∧ Spells [.node tree] uses ∧
      ∀ u ∈ uses, u.EnteredIn tree := by
  obtain ⟨uses, e, hreads, hends, hspells⟩ := spells_parse h
  have hspans : (uses.map (·.token.span)).Nodup := by
    have hnodup := hreads.nodup_span
    rwa [List.map_map] at hnodup
  refine ⟨uses, e, hreads, hends, hspells, fun u hu => ?_⟩
  have hmark : u.role = .mark → u.token.isBindingName = false :=
    fun hrole => Token.isBindingName_of_isMark (hspells.isMark hu hrole)
  refine ⟨hmark, hspells.countP_entered hspans hu, fun n hn hat => ?_⟩
  rw [Node.isIdentifierAt, Bool.and_eq_true, decide_eq_true_eq] at hat
  obtain ⟨v, hv, hname, hspan⟩ := hspells.exists_name (Node.mem_identifiers.2 ⟨hn, hat.1⟩)
  obtain rfl := List.inj_on_of_nodup_map hspans hv hu (hspan.symm.trans hat.2)
  exact hname

/-- In this text `b` is read as a reference, but the only identifier is `a`. -/
theorem entered_importPair : ∃ tree, Node.parse "import(a, b)" = .ok tree ∧
    (tree.entered.filterMap Node.identifierName?) = ["a"] ∧
    (∃ t ∈ tokens "import(a, b)", t.value = "b" ∧ t.isBindingName = true) ∧
    ∃ uses e, Reads (Cursor.start "import(a, b)") (uses.map Use.token) e ∧
      (Token.after e).kind = .endOfFile ∧ Spells [.node tree] uses ∧
      ∀ u ∈ uses, u.EnteredIn tree := by
  have hnames : ∃ tree ∈ (Node.parse "import(a, b)").toOption,
      (tree.entered.filterMap Node.identifierName?) = ["a"] := by
    decide +kernel
  have htoken : ∃ t ∈ tokens "import(a, b)", t.value = "b" ∧ t.isBindingName = true := by
    decide +kernel
  obtain ⟨tree, htree, hnames⟩ := hnames
  cases hparse : Node.parse "import(a, b)" with
  | error d =>
    rw [hparse] at htree
    cases htree
  | ok parsed =>
    rw [hparse] at htree
    obtain rfl := Option.some.inj htree
    exact ⟨parsed, rfl, hnames, htoken, entered_once_unless_dropped hparse⟩

end ModuleBundler

import Mathlib.Data.List.Pairwise
import ModuleBundler.Proofs.Layout
import ModuleBundler.Proofs.References

/-!
# ModuleBundler — the spans of a tree nest

The nodes of an accepted text are laid out: each has its kids in a row inside it. So two
subtrees that hang from one node have no character in common, and since every node but the
whole module holds a character, no node can be reached on two ways.

* `Node.Laid.pairwise_preorder` — nodes lie inside those entered before them, or behind.
* `Node.Laid.eq_of_mem_kids` — a node hangs from one other node only.
* `Node.SpansNest` — what this says of a tree and its traversal.
* `spansNest_parse` — it holds of the tree of every accepted text.
-/

namespace ModuleBundler

open Grammar (SpanLies)
open Text (Cursor)

namespace Node

-- ---------------------------------------------------------------------------
-- Nodes below a node
-- ---------------------------------------------------------------------------

theorem mem_preorder {n m : Node} : m ∈ n.preorder ↔ m = n ∨ ∃ c ∈ n.kids, m ∈ c.preorder := by
  rw [preorder_eq, List.mem_cons, List.mem_flatMap]

theorem mem_preorder_self (n : Node) : n ∈ n.preorder := mem_preorder.2 (.inl rfl)

/-- The kids of a node below another one are below that one. -/
theorem mem_preorder_of_mem_kids (n : Node) {m c : Node} (hm : m ∈ n.preorder) (hc : c ∈ m.kids) :
    c ∈ n.preorder := by
  rcases mem_preorder.1 hm with rfl | ⟨d, hd, hm⟩
  · exact mem_preorder.2 (.inr ⟨c, hc, c.mem_preorder_self⟩)
  · exact mem_preorder.2 (.inr ⟨d, hd, d.mem_preorder_of_mem_kids hm hc⟩)
termination_by sizeOf n
decreasing_by exact sizeOf_kid_lt hd

theorem sizeOf_le_of_mem_preorder (n : Node) {m : Node} (hm : m ∈ n.preorder) :
    sizeOf m ≤ sizeOf n := by
  rcases mem_preorder.1 hm with rfl | ⟨c, hc, hm⟩
  · exact le_rfl
  · exact (c.sizeOf_le_of_mem_preorder hm).trans (sizeOf_kid_lt hc).le
termination_by sizeOf n
decreasing_by exact sizeOf_kid_lt hc

namespace Laid

variable {text : String} {n m c d p q : Node}

theorem lies (h : n.Laid text) : SpanLies text n.span := by
  cases h
  assumption

theorem row (h : n.Laid text) : InRow n.span.start n.span.stop (n.kids.map .node) := by
  cases h
  assumption

theorem kid (h : n.Laid text) (hc : c ∈ n.kids) : c.Laid text := by
  cases h with
  | intro lies row kids => exact kids c hc

theorem of_mem_preorder (h : n.Laid text) (hm : m ∈ n.preorder) : m.Laid text := by
  induction h with
  | @intro n lies row kids ih =>
    rcases mem_preorder.1 hm with rfl | ⟨c, hc, hm⟩
    · exact .intro lies row kids
    · exact ih c hc hm

-- ---------------------------------------------------------------------------
-- Spans
-- ---------------------------------------------------------------------------

/-- All that is below a node lies inside it. -/
theorem encloses (h : n.Laid text) (hm : m ∈ n.preorder) : n.span.encloses m.span = true := by
  rw [Text.Span.encloses, Bool.and_eq_true, decide_eq_true_eq, decide_eq_true_eq]
  induction h with
  | @intro n lies row kids ih =>
    rcases mem_preorder.1 hm with rfl | ⟨c, hc, hm⟩
    · exact ⟨le_rfl, le_rfl⟩
    · obtain ⟨hstart, -, hstop⟩ := row.mem hc
      obtain ⟨hlo, hhi⟩ := ih c hc hm
      exact ⟨hstart.trans hlo, hhi.trans hstop⟩

/-- A node is not empty if it is below a kid of another one. -/
theorem nonempty (h : n.Laid text) (hc : c ∈ n.kids) (hm : m ∈ c.preorder) :
    m.span.start < m.span.stop := by
  induction h generalizing c with
  | @intro n lies row kids ih =>
    rcases mem_preorder.1 hm with rfl | ⟨d, hd, hm⟩
    · exact (row.mem hc).2.1
    · exact ih c hc hd hm

/-- All that is below a kid lies before all that is below a later one. -/
theorem pairwise_kids (h : n.Laid text) : n.kids.Pairwise fun c d =>
    ∀ x ∈ c.preorder, ∀ y ∈ d.preorder, x.span.stop ≤ y.span.start := by
  refine h.row.pairwise.imp_of_mem fun hc hd hle x hx y hy => ?_
  have hx := (h.kid hc).encloses hx
  have hy := (h.kid hd).encloses hy
  rw [Text.Span.encloses, Bool.and_eq_true, decide_eq_true_eq, decide_eq_true_eq] at hx hy
  exact hx.2.trans (hle.trans hy.1)

/-- Of two nodes the later one lies inside the earlier one or behind it. -/
theorem pairwise_preorder (h : n.Laid text) : n.preorder.Pairwise fun x y =>
    x.span.encloses y.span = true ∨ x.span.stop ≤ y.span.start := by
  induction h with
  | @intro n lies row kids ih =>
    have h : n.Laid text := .intro lies row kids
    rw [preorder_eq, List.pairwise_cons]
    refine ⟨fun m hm => .inl (h.encloses ?_), List.pairwise_flatMap.2 ⟨ih, ?_⟩⟩
    · rw [preorder_eq]
      exact List.mem_cons_of_mem _ hm
    · exact h.pairwise_kids.imp fun hle x hx y hy => .inr (hle x hx y hy)

-- ---------------------------------------------------------------------------
-- Ways to a node
-- ---------------------------------------------------------------------------

/-- Subtrees of one node have no node in common. -/
theorem eq_of_mem_both (h : n.Laid text) (hc : c ∈ n.kids) (hd : d ∈ n.kids)
    (hmc : m ∈ c.preorder) (hmd : m ∈ d.preorder) : c = d := by
  by_contra hne
  let Apart (c d : Node) : Prop := m ∈ c.preorder → m ∈ d.preorder → False
  have : Std.Symm Apart := ⟨fun _ _ h hd hc => h hc hd⟩
  have happart : n.kids.Pairwise Apart := by
    refine h.pairwise_kids.imp_of_mem fun hc _ hle hmc hmd => ?_
    have hlt := h.nonempty hc hmc
    have := hle m hmc m hmd
    omega
  exact happart.forall hc hd hne hmc hmd

/-- No node is entered twice. -/
theorem nodup_preorder (h : n.Laid text) : n.preorder.Nodup := by
  induction h with
  | @intro n lies row kids ih =>
    have h : n.Laid text := .intro lies row kids
    rw [preorder_eq, List.nodup_cons]
    refine ⟨fun hmem => ?_, List.pairwise_flatMap.2 ⟨ih, ?_⟩⟩
    · obtain ⟨c, hc, hn⟩ := List.mem_flatMap.1 hmem
      exact absurd (c.sizeOf_le_of_mem_preorder hn) (sizeOf_kid_lt hc).not_ge
    · refine h.pairwise_kids.imp_of_mem fun hc _ hle x hx y hy heq => ?_
      have hne := h.nonempty hc hx
      have hle := hle x hx y hy
      rw [← heq] at hle
      omega

/-- A node below a kid of another one hangs from no node around. -/
theorem not_mem_kids (h : n.Laid text) (hc : c ∈ n.kids) (hq : q ∈ c.preorder) (hm : m ∈ q.kids) :
    m ∉ n.kids := by
  intro hmn
  have hmc := c.mem_preorder_of_mem_kids hq hm
  obtain rfl := h.eq_of_mem_both hc hmn hmc m.mem_preorder_self
  exact absurd (c.sizeOf_le_of_mem_preorder hq) (sizeOf_kid_lt hm).not_ge

/-- A node hangs from one other node only. -/
theorem eq_of_mem_kids (h : n.Laid text) (hp : p ∈ n.preorder) (hq : q ∈ n.preorder)
    (hmp : m ∈ p.kids) (hmq : m ∈ q.kids) : p = q := by
  induction h with
  | @intro n lies row kids ih =>
    have h : n.Laid text := .intro lies row kids
    rcases mem_preorder.1 hp with rfl | ⟨c, hc, hpc⟩
    · rcases mem_preorder.1 hq with rfl | ⟨d, hd, hqd⟩
      · rfl
      · exact absurd hmp (h.not_mem_kids hd hqd hmq)
    · rcases mem_preorder.1 hq with rfl | ⟨d, hd, hqd⟩
      · exact absurd hmq (h.not_mem_kids hc hpc hmp)
      · obtain rfl := h.eq_of_mem_both hc hd (c.mem_preorder_of_mem_kids hpc hmp)
          (d.mem_preorder_of_mem_kids hqd hmq)
        exact ih c hc hpc hqd

end Laid

/-- What is below a node and not the node itself hangs from a node. -/
theorem exists_parent (n : Node) {m : Node} (hm : m ∈ n.preorder) (hne : m ≠ n) :
    ∃ p ∈ n.preorder, m ∈ p.kids := by
  rcases mem_preorder.1 hm with rfl | ⟨c, hc, hm⟩
  · exact absurd rfl hne
  · by_cases heq : m = c
    · exact ⟨n, n.mem_preorder_self, heq ▸ hc⟩
    · obtain ⟨p, hp, hmp⟩ := c.exists_parent hm heq
      exact ⟨p, mem_preorder.2 (.inr ⟨c, hc, hp⟩), hmp⟩
termination_by sizeOf n
decreasing_by exact sizeOf_kid_lt hc

-- ---------------------------------------------------------------------------
-- Accepted texts
-- ---------------------------------------------------------------------------

/-- The spans of the nodes that a traversal of a tree enters nest. -/
structure SpansNest (text : String) (tree : Node) : Prop where
  /-- All nodes but the root hold a character, and begin and end between characters. -/
  covers : ∀ n ∈ tree.entered, n ≠ tree → n.span.start < n.span.stop ∧ SpanLies text n.span
  inside : ∀ n ∈ tree.entered, ∀ kid ∈ n.kids, n.span.encloses kid.span = true
  apart : ∀ n ∈ tree.entered, n.kids.Pairwise fun c d => c.span.stop ≤ d.span.start
  /-- Of the subtrees of a node, an earlier one lies before a later one. -/
  inOrder : ∀ n ∈ tree.entered, n.kids.Pairwise fun c d =>
    ∀ x ∈ c.entered, ∀ y ∈ d.entered, x.span.stop ≤ y.span.start
  /-- What is entered later lies inside or behind. -/
  sorted : tree.entered.Pairwise fun x y =>
    x.span.encloses y.span = true ∨ x.span.stop ≤ y.span.start
  once : tree.entered.Nodup
  parent : ∀ n ∈ tree.entered, n ≠ tree → ∃! p, p ∈ tree.entered ∧ n ∈ p.kids

theorem Laid.spansNest {text : String} {tree : Node} (h : tree.Laid text) :
    tree.SpansNest text := by
  have hentered : ∀ n : Node, n.entered = n.preorder := entered_eq
  constructor
  case covers =>
    intro n hn hne
    rw [hentered] at hn
    obtain ⟨c, hc, hn⟩ := (mem_preorder.1 hn).resolve_left hne
    exact ⟨h.nonempty hc hn, ((h.kid hc).of_mem_preorder hn).lies⟩
  case inside =>
    intro n hn kid hkid
    rw [hentered] at hn
    exact (h.of_mem_preorder hn).encloses (mem_preorder.2 (.inr ⟨kid, hkid, kid.mem_preorder_self⟩))
  case apart =>
    intro n hn
    rw [hentered] at hn
    exact (h.of_mem_preorder hn).row.pairwise
  case inOrder =>
    intro n hn
    rw [hentered] at hn
    simp only [hentered]
    exact (h.of_mem_preorder hn).pairwise_kids
  case sorted =>
    rw [hentered]
    exact h.pairwise_preorder
  case once =>
    rw [hentered]
    exact h.nodup_preorder
  case parent =>
    intro n hn hne
    rw [hentered] at hn ⊢
    obtain ⟨p, hp, hnp⟩ := tree.exists_parent hn hne
    exact ⟨p, ⟨hp, hnp⟩, fun q hq => h.eq_of_mem_kids hq.1 hp hq.2 hnp⟩

end Node

namespace Grammar

/-- A module is laid out, though it may be empty. -/
theorem laid_program {text : String} {k : Nat} {tree : Node} {t : State}
    (h : program (read k) (.initial text) = .ok tree t) : tree.Laid text := by
  obtain ⟨_, s, hfirst, h⟩ := bind_ok h
  cases hfirst
  obtain ⟨body, t, hbody, h⟩ := bind_ok h
  cases h
  have hs : State.StandsAfter text (Cursor.start text) (.between text (Cursor.start text)) :=
    State.standsAfter_between (.refl _)
  have hitems : Lays (.between text (Cursor.start text))
      (many (· = .endOfFile) (moduleItem (read k))) fun ns => ns.map .node :=
    .manyNodes fun _ => .moduleItem (.read k)
  obtain ⟨hforward, hrow⟩ := hitems hs hs.holds.tokenLies.startValid le_rfl hbody
  obtain ⟨d, ht⟩ := hforward.stands
  have hstop : t.lastStop ≤ t.size := by
    rw [ht.lastStop_eq, ht.size_eq]
    exact ht.before.offset_le_size
  have hrow := (hrow .nil).mono (Nat.zero_le _) hstop
  have hkids : (Node.mk ⟨0, t.size⟩ (.program body)).kids = body := by
    simp [Node.kids, Node.form, Form.children]
  refine .intro ⟨Nat.zero_le _, ht.size_eq.le, ?_, ?_⟩ ?_ fun kid hkid => ?_
  · exact Text.isValid_of_before (.refl (Cursor.start text))
  · have hsize : t.size = text.utf8ByteSize := ht.size_eq
    rw [hsize, String.Pos.Raw.isValid_eq_true_iff, String.Pos.Raw.isValid_iff_exists_append]
    exact ⟨text, "", by simp, rfl⟩
  · rw [hkids]
    exact hrow.inRow
  · rw [hkids] at hkid
    exact hrow.laid kid (List.mem_map.2 ⟨kid, hkid, rfl⟩)

theorem laid_parse {text : String} {tree : Node} (h : Node.parse text = .ok tree) :
    tree.Laid text := by
  unfold Node.parse readModule at h
  split at h
  · case _ hok =>
    cases h
    exact laid_program hok
  · cases h

end Grammar

open Grammar in
/-- In the tree of an accepted text every node but the whole module holds a character and ends
between characters, the kids of a node lie inside it one behind the other, and so do the
subtrees in the order in which a traversal enters them, each node from one other only. -/
theorem spansNest_parse {text : String} {tree : Node} (h : Node.parse text = .ok tree) :
    tree.SpansNest text :=
  (laid_parse h).spansNest

/-- Nodes that are made anew: a property that is its own value, a declaration with its semicolon,
and literals that turn out to be patterns. -/
theorem spansNest_patterns : ∃ tree,
    Node.parse "let \x7ba = 1\x7d = b; (\x7ba, c: [d]\x7d = async x => x);" = .ok tree ∧
      (tree.entered.map fun n => (n.span.start, n.span.stop)).contains (0, 16) = true ∧
      tree.SpansNest "let \x7ba = 1\x7d = b; (\x7ba, c: [d]\x7d = async x => x);" := by
  have hdeclared : ∃ tree ∈
      (Node.parse "let \x7ba = 1\x7d = b; (\x7ba, c: [d]\x7d = async x => x);").toOption,
      (tree.entered.map fun n => (n.span.start, n.span.stop)).contains (0, 16) = true := by
    decide +kernel
  obtain ⟨tree, htree, hdeclared⟩ := hdeclared
  cases hparse : Node.parse "let \x7ba = 1\x7d = b; (\x7ba, c: [d]\x7d = async x => x);" with
  | error d =>
    rw [hparse] at htree
    cases htree
  | ok parsed =>
    rw [hparse] at htree
    obtain rfl := Option.some.inj htree
    exact ⟨parsed, rfl, hdeclared, spansNest_parse hparse⟩

end ModuleBundler

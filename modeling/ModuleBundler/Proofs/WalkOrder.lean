import Mathlib.Logic.Relation
import ModuleBundler.Proofs.SpansNest

/-!
# ModuleBundler — the order of a walk

A walk does what the recursion says, event by event, and ends with the last one: the events
that its work list stands for are those of the recursion, and each step takes the first one of
them off. What is said of the order of a walk is therefore said of the events of the recursion.

* `Event.head?_iterate` — the event that a step of the work list carries out.
* `Event.Nested` — events in pairs, each with the events of the kids of its node inside.
* `walk_order` — what a walk over a part of an accepted module does.
-/

namespace ModuleBundler

-- ---------------------------------------------------------------------------
-- How many events there are
-- ---------------------------------------------------------------------------

namespace Node

/-- Each node has two events. -/
theorem length_flatMap_trace (l : List Node) (parent : Option Node) :
    (l.flatMap (trace parent)).length = 2 * total size l := by
  induction l using forest_induction generalizing parent with
  | nil => rfl
  | cons n rest ihkids ihrest =>
    rw [List.flatMap_cons, List.length_append, ihrest, trace_eq, total_cons, size_eq]
    simp only [List.length_cons, List.length_append, List.length_nil, ihkids]
    omega

theorem length_trace (parent : Option Node) (n : Node) : (n.trace parent).length = 2 * n.size := by
  simpa using length_flatMap_trace [n] parent

end Node

-- ---------------------------------------------------------------------------
-- The work list
-- ---------------------------------------------------------------------------

namespace Event

/-- Each step of a work list takes one event off what it stands for. -/
theorem pending_iterate (steps : List Event) (k : Nat) :
    pending (step^[k] steps) = (pending steps).drop k := by
  induction k generalizing steps with
  | zero => rfl
  | succ k ih =>
    rw [Function.iterate_succ_apply, ih]
    cases steps with
    | nil => simp [step]
    | cons e rest => rw [pending_cons e rest, List.drop_succ_cons]

theorem head?_pending (steps : List Event) : (pending steps).head? = steps.head? := by
  cases steps with
  | nil => rfl
  | cons e rest => rw [pending_cons, List.head?_cons, List.head?_cons]

/-- At each step the event is carried out whose turn it is. -/
theorem head?_iterate (steps : List Event) (k : Nat) :
    (step^[k] steps).head? = (pending steps)[k]? := by
  rw [← head?_pending, pending_iterate, List.head?_drop]

-- ---------------------------------------------------------------------------
-- Nested events
-- ---------------------------------------------------------------------------

/-- Nodes under a parent are entered and left one after the other, and between entering
and leaving one of them there are such events under that one. -/
inductive Nested : Option Node → List Event → Prop
  | nil (parent : Option Node) : Nested parent []
  | pair {parent : Option Node} {n : Node} {inner rest : List Event}
      (inside : Nested (some n) inner) (behind : Nested parent rest) :
      Nested parent (.enter n parent :: (inner ++ .leave n parent :: rest))

theorem nested_flatMap_trace (l : List Node) (parent : Option Node) :
    Nested parent (l.flatMap (Node.trace parent)) := by
  induction l using Node.forest_induction generalizing parent with
  | nil => exact .nil parent
  | cons n rest ihkids ihrest =>
    rw [List.flatMap_cons, Node.trace_eq, List.cons_append, List.append_assoc,
      List.singleton_append]
    exact .pair (ihkids _) (ihrest _)

/-- The node that is left. -/
def left? : Event → Option Node
  | .enter _ _ => none
  | .leave n _ => some n

end Event

namespace Node

/-- The nodes that can be reached from a node, going from a node to a kid of it. -/
def Reaches : Node → Node → Prop := Relation.ReflTransGen fun n c => c ∈ n.kids

theorem reaches_iff_mem_preorder {n m : Node} : n.Reaches m ↔ m ∈ n.preorder := by
  constructor
  · intro h
    induction h with
    | refl => exact n.mem_preorder_self
    | tail _ hc ih => exact n.mem_preorder_of_mem_kids ih hc
  · induction n using kids_induction with
    | h n ih =>
      intro hm
      rcases mem_preorder.1 hm with rfl | ⟨c, hc, hm⟩
      · exact .refl
      · exact .head hc (ih c hc hm)

theorem reaches_of_at? {n m : Node} {p : Position} (h : n.at? p = some m) : n.Reaches m := by
  induction p generalizing n with
  | nil =>
    cases h
    exact .refl
  | cons i p ih =>
    obtain ⟨c, hc, h⟩ := Option.bind_eq_some_iff.1 h
    exact .head (List.mem_of_getElem? hc) (ih h)

/-- The nodes are left in another order than they are entered in. -/
theorem left?_flatMap_trace (l : List Node) (parent : Option Node) :
    ((l.flatMap (trace parent)).filterMap Event.left?).Perm (l.flatMap preorder) := by
  induction l using forest_induction generalizing parent with
  | nil => exact .refl []
  | cons n rest ihkids ihrest =>
    rw [List.flatMap_cons, List.flatMap_cons, List.filterMap_append, trace_eq, preorder_eq]
    refine List.Perm.append ?_ (ihrest parent)
    simp only [List.filterMap_cons, List.filterMap_append, Event.left?, List.filterMap_nil]
    exact ((ihkids (some n)).append_right [n]).trans (List.perm_append_singleton n _)

-- ---------------------------------------------------------------------------
-- Walks
-- ---------------------------------------------------------------------------

/-- What a walk over a tree does. -/
structure WalkOrder (root : Node) : Prop where
  /-- A visitor meets the events of the recursion, in their order. -/
  recursion : ∀ {σ : Type} (visit : σ → Event → σ) (s : σ),
    root.walk visit s = (root.trace none).foldl visit s
  /-- Each step of the work list carries out the next event, until there is none. -/
  steps : ∀ k, (Event.step^[k] [.enter root none]).head? = (root.trace none)[k]?
  nested : Event.Nested none (root.trace none)
  entered : ∀ n, n ∈ (root.trace none).filterMap Event.entered? ↔ root.Reaches n
  enteredOnce : ((root.trace none).filterMap Event.entered?).Nodup
  left : ∀ n, n ∈ (root.trace none).filterMap Event.left? ↔ root.Reaches n
  leftOnce : ((root.trace none).filterMap Event.left?).Nodup

theorem Laid.walkOrder {text : String} {root : Node} (h : root.Laid text) : root.WalkOrder := by
  have hentered : (root.trace none).filterMap Event.entered? = root.preorder := by
    simpa using entered?_flatMap_trace [root] none
  have hleft : ((root.trace none).filterMap Event.left?).Perm root.preorder := by
    simpa using left?_flatMap_trace [root] none
  constructor
  case recursion =>
    intro σ visit s
    exact root.walk_eq visit s
  case steps =>
    intro k
    rw [Event.head?_iterate, Event.pending_enter]
  case nested => simpa using Event.nested_flatMap_trace [root] none
  case entered =>
    intro n
    rw [hentered, reaches_iff_mem_preorder]
  case enteredOnce =>
    rw [hentered]
    exact h.nodup_preorder
  case left =>
    intro n
    rw [hleft.mem_iff, reaches_iff_mem_preorder]
  case leftOnce => exact hleft.nodup_iff.2 h.nodup_preorder

end Node

open Grammar in
/-- A walk over any part of an accepted module does what the recursion says, whatever the
visitor: its events come in pairs that nest, each node that can be reached is entered once and
left once, and with the last of these events the walk ends. -/
theorem walk_order {text : String} {tree root : Node} (h : Node.parse text = .ok tree)
    (hroot : tree.Reaches root) : root.WalkOrder :=
  ((laid_parse h).of_mem_preorder (Node.reaches_iff_mem_preorder.1 hroot)).walkOrder

/-- A pattern with a hole and a computed key, walked over by itself. -/
theorem walk_order_pattern : ∃ tree root,
    Node.parse "let [, \x7b [k]: b = 1 \x7d] = c;" = .ok tree ∧ tree.Reaches root ∧
      root.form.kindName = "ArrayPattern" ∧ (root.trace none).length = 14 ∧ root.WalkOrder := by
  have hpattern : ∃ tree ∈ (Node.parse "let [, \x7b [k]: b = 1 \x7d] = c;").toOption,
      ∃ root ∈ tree.at? [0, 0, 0], root.form.kindName = "ArrayPattern" ∧ root.size = 7 := by
    decide +kernel
  obtain ⟨tree, htree, root, hroot, hkind, hsize⟩ := hpattern
  cases hparse : Node.parse "let [, \x7b [k]: b = 1 \x7d] = c;" with
  | error d =>
    rw [hparse] at htree
    cases htree
  | ok parsed =>
    rw [hparse] at htree
    obtain rfl := Option.some.inj htree
    have hreaches := Node.reaches_of_at? hroot
    refine ⟨parsed, root, rfl, hreaches, hkind, ?_, walk_order hparse hreaches⟩
    rw [Node.length_trace, hsize]

end ModuleBundler

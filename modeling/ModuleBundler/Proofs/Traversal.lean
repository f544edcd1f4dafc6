import ModuleBundler.Tree.Traversal

/-!
# ModuleBundler — traversal by recursion

A traversal is carried out by a work list on which entering and leaving stand mixed. What such a
list stands for is a list of events: a node that is to be entered stands for all of its
traversal. A step carries out the first of these events and leaves the list standing for the
others. So the work list does what one would write down as a recursion: enter a node, traverse
its kids, leave the node.

* `Node.forest_induction` — induction over lists of trees, with the kids of a node
  in one case and its siblings in another.
* `Node.kids_induction` — induction over a tree.
* `Node.trace` — the events of a traversal, by recursion.
* `Event.pending` — the events that a work list stands for.
* `Event.run_eq_foldl` — a work list does what it stands for.
* `Node.traverse`, `Node.walk_eq` — a walk by recursion.
-/

namespace ModuleBundler

namespace Node

-- ---------------------------------------------------------------------------
-- Forests
-- ---------------------------------------------------------------------------

theorem size_pos (n : Node) : 0 < n.size := by
  rw [size_eq]
  omega

/-- What holds of a list of trees if it holds of the kids of the first one and of
the other ones holds of all. -/
theorem forest_induction {P : List Node → Prop} (nil : P [])
    (cons : ∀ n rest, P n.kids → P rest → P (n :: rest)) (l : List Node) : P l :=
  match l with
  | [] => nil
  | n :: rest => cons n rest (forest_induction nil cons n.kids) (forest_induction nil cons rest)
termination_by total size l
decreasing_by
  · have := n.size_eq
    rw [total_cons]
    omega
  · have := n.size_pos
    rw [total_cons]
    omega

/-- A kid has fewer nodes than its node. -/
theorem size_kid_lt {n c : Node} (h : c ∈ n.kids) : c.size < n.size := by
  have hle : ∀ ns : List Node, c ∈ ns → c.size ≤ total size ns := by
    intro ns hc
    induction ns with
    | nil => cases hc
    | cons m ns ih =>
      rw [total_cons]
      rcases List.mem_cons.1 hc with rfl | hc
      · omega
      · have := ih hc
        omega
  have := hle n.kids h
  rw [n.size_eq]
  omega

/-- What holds of a node if it holds of its kids holds of all. -/
theorem kids_induction {P : Node → Prop} (h : ∀ n, (∀ c ∈ n.kids, P c) → P n) (n : Node) : P n :=
  h n fun c _ => kids_induction h c
termination_by n.size
decreasing_by exact size_kid_lt ‹_›

-- ---------------------------------------------------------------------------
-- Recursion
-- ---------------------------------------------------------------------------

/-- The events of a node under a parent: it is entered, its kids are traversed in their
order, and it is left. -/
def trace (parent : Option Node) (n : Node) : List Event :=
  .enter n parent ::
    (n.kids.attach.flatMap (fun c => trace (some n) c.1) ++ [.leave n parent])
termination_by sizeOf n
decreasing_by exact sizeOf_kid_lt c.2

theorem trace_eq (parent : Option Node) (n : Node) :
    n.trace parent =
      .enter n parent :: (n.kids.flatMap (trace (some n)) ++ [.leave n parent]) := by
  have hattach : (n.kids.attach.flatMap fun c => c.1.trace (some n)) =
      n.kids.flatMap (trace (some n)) := by
    rw [← List.flatMap_map, List.attach_map_subtype_val]
  rw [trace, hattach]

end Node

-- ---------------------------------------------------------------------------
-- The work list
-- ---------------------------------------------------------------------------

namespace Event

/-- A step of the work list, which carries out the first event of it. -/
def step : List Event → List Event
  | [] => []
  | .enter n parent :: rest => n.kids.map (Event.enter · (some n)) ++ .leave n parent :: rest
  | .leave _ _ :: rest => rest

/-- The events that a work list stands for. -/
def pending (steps : List Event) : List Event :=
  steps.flatMap fun
    | .enter n parent => n.trace parent
    | .leave n parent => [.leave n parent]

@[simp] theorem pending_nil : pending [] = [] := rfl

@[simp] theorem pending_enter (n : Node) (parent : Option Node) :
    pending [.enter n parent] = n.trace parent := by
  simp [pending]

/-- The first one is carried out now, and a step leaves the others. -/
theorem pending_cons (e : Event) (rest : List Event) :
    pending (e :: rest) = e :: pending (step (e :: rest)) := by
  cases e with
  | enter n parent =>
    have hkids : pending (n.kids.map (Event.enter · (some n))) =
        n.kids.flatMap (Node.trace (some n)) := by
      simp [pending, List.flatMap_map]
    have hleave : pending (.leave n parent :: rest) = .leave n parent :: pending rest := rfl
    calc pending (.enter n parent :: rest)
        = n.trace parent ++ pending rest := rfl
      _ = .enter n parent :: (n.kids.flatMap (Node.trace (some n)) ++
            pending (.leave n parent :: rest)) := by
          rw [Node.trace_eq, hleave, List.cons_append, List.append_assoc, List.singleton_append]
      _ = .enter n parent :: pending (step (.enter n parent :: rest)) := by
          rw [← hkids, step]
          simp [pending]
  | leave n parent => rfl

theorem run_cons {σ : Type} (visit : σ → Event → σ) (s : σ) (e : Event) (rest : List Event) :
    run visit s (e :: rest) = run visit (visit s e) (step (e :: rest)) := by
  cases e <;> rw [run, step]

/-- A work list does what it stands for. -/
theorem run_eq_foldl {σ : Type} (visit : σ → Event → σ) (s : σ) (steps : List Event) :
    run visit s steps = (pending steps).foldl visit s := by
  generalize hl : pending steps = l
  induction l generalizing s steps with
  | nil =>
    cases steps with
    | nil => rw [run, List.foldl_nil]
    | cons e rest => cases (pending_cons e rest).symm.trans hl
  | cons e' l ih =>
    cases steps with
    | nil => cases hl
    | cons e rest =>
      obtain ⟨rfl, hrest⟩ := List.cons.inj ((pending_cons e rest).symm.trans hl)
      rw [run_cons, List.foldl_cons, ih _ _ hrest]

end Event

-- ---------------------------------------------------------------------------
-- Walks
-- ---------------------------------------------------------------------------

namespace Node

variable {σ : Type}

/-- Lets a visitor meet the events of a node, one after the other. -/
def traverse (visit : σ → Event → σ) (parent : Option Node) (s : σ) (n : Node) : σ :=
  (n.trace parent).foldl visit s

/-- A node is entered, its kids are traversed and the node is left. -/
theorem traverse_eq (visit : σ → Event → σ) (parent : Option Node) (s : σ) (n : Node) :
    n.traverse visit parent s =
      visit (n.kids.foldl (traverse visit (some n)) (visit s (.enter n parent)))
        (.leave n parent) := by
  rw [traverse, trace_eq, List.foldl_cons, List.foldl_append, List.foldl_flatMap]
  rfl

/-- A walk is a traversal by recursion. -/
theorem walk_eq (n : Node) (visit : σ → Event → σ) (s : σ) :
    n.walk visit s = n.traverse visit none s := by
  rw [walk, Event.run_eq_foldl, Event.pending_enter, traverse]

end Node

end ModuleBundler

import Mathlib.Data.List.Infix
import ModuleBundler.Proofs.Traversal

/-!
# ModuleBundler — positions in a tree

What is said of the nodes of a tree and of the nodes around them is said of
positions. A position is the way to a node from the root: the number of the kid
to go on with, at each step.

* `Node.at?` — the node at a position.
* `Node.positions` — the positions of all nodes, in the order of a traversal.
* `Node.entered_eq` — a traversal enters the nodes at these positions.
* `Position.around` — the positions around a position.
-/

namespace ModuleBundler

/-- The way to a node: the numbers of the kids to go on with, from the root on. -/
abbrev Position := List Nat

namespace Position

/-- The positions around a position, the nearest one first and the root last. -/
def around (p : Position) : List Position := p.inits.dropLast.reverse

@[simp] theorem around_nil : around [] = [] := rfl

theorem around_cons (i : Nat) (p : Position) :
    around (i :: p) = (around p).map (i :: ·) ++ [[]] := by
  have hne : p.inits.map (i :: ·) ≠ [] := by
    cases p <;> simp
  rw [around, around, List.inits_cons, List.dropLast_cons_of_ne_nil hne, List.reverse_cons,
    ← List.map_dropLast, List.map_reverse]

end Position

-- ---------------------------------------------------------------------------
-- Numbered lists
-- ---------------------------------------------------------------------------

section Numbered

variable {α β : Type} {l : List α}

/-- What does not depend on the numbers of a list does not need them. -/
theorem flatMap_zipIdx {f : α × Nat → List β} {g : α → List β}
    (h : ∀ i a, l[i]? = some a → f (a, i) = g a) : l.zipIdx.flatMap f = l.flatMap g := by
  have hcongr : l.zipIdx.flatMap f = l.zipIdx.flatMap fun a => g a.1 := by
    refine List.flatMap_congr fun ⟨a, i⟩ ha => h i a ?_
    exact List.mk_mem_zipIdx_iff_getElem?.1 ha
  rw [hcongr, ← List.flatMap_map, List.zipIdx_map_fst]

/-- What only one number of a list adds to. -/
theorem flatMap_zipIdx_single {i : Nat} {a : α} (hi : l[i]? = some a) {f : α × Nat → List β}
    (h : ∀ j b, j ≠ i → f (b, j) = []) : l.zipIdx.flatMap f = f (a, i) := by
  obtain ⟨hlt, rfl⟩ := List.getElem?_eq_some_iff.1 hi
  have hbefore : (l.take i).zipIdx.flatMap f = [] := by
    refine List.flatMap_eq_nil_iff.2 fun ⟨b, j⟩ hb => h j b ?_
    have := List.snd_lt_of_mem_zipIdx hb
    simp only [List.length_take] at this
    omega
  have hafter : ((l.drop (i + 1)).zipIdx (i + 1)).flatMap f = [] := by
    refine List.flatMap_eq_nil_iff.2 fun ⟨b, j⟩ hb => h j b ?_
    have := List.le_snd_of_mem_zipIdx hb
    omega
  have hlength : 0 + (l.take i).length = i := by
    simp only [List.length_take]
    omega
  calc l.zipIdx.flatMap f
      = (l.take i ++ l[i] :: l.drop (i + 1)).zipIdx.flatMap f := by
        rw [← List.drop_eq_getElem_cons, List.take_append_drop]
    _ = f (l[i], i) := by
        rw [List.zipIdx_append, List.flatMap_append, hbefore, hlength, List.zipIdx_cons,
          List.flatMap_cons, hafter, List.append_nil, List.nil_append]

end Numbered

namespace Node

-- ---------------------------------------------------------------------------
-- Positions
-- ---------------------------------------------------------------------------

/-- The node at a position. -/
def at? (n : Node) : Position → Option Node
  | [] => some n
  | i :: p => n.kids[i]?.bind fun c => c.at? p

/-- The positions of all nodes of a tree, in the order in which a traversal
enters the nodes. -/
def positions (n : Node) : List Position :=
  [] :: n.kids.attach.zipIdx.flatMap fun c => (positions c.1.1).map (c.2 :: ·)
termination_by sizeOf n
decreasing_by exact sizeOf_kid_lt c.1.2

theorem positions_eq (n : Node) :
    n.positions = [] :: n.kids.zipIdx.flatMap fun c => c.1.positions.map (c.2 :: ·) := by
  have hattach : n.kids.zipIdx = n.kids.attach.zipIdx.map (Prod.map Subtype.val id) := by
    rw [← List.zipIdx_map, List.attach_map_subtype_val]
  rw [positions, hattach, List.flatMap_map]
  rfl

@[simp] theorem at?_nil (n : Node) : n.at? [] = some n := rfl

theorem at?_cons {n c : Node} {i : Nat} (h : n.kids[i]? = some c) (p : Position) :
    n.at? (i :: p) = c.at? p := by
  rw [at?, h]
  rfl

/-- What the positions of a tree amount to: the root, and the positions of the
kids, each with the number of the kid in front. -/
theorem flatMap_positions {β : Type} (n : Node) (f : Position → List β) :
    n.positions.flatMap f =
      f [] ++ n.kids.zipIdx.flatMap fun c => c.1.positions.flatMap fun p => f (c.2 :: p) := by
  rw [positions_eq, List.flatMap_cons, List.flatMap_assoc]
  simp only [List.flatMap_map]

theorem filterMap_positions {β : Type} (n : Node) (f : Position → Option β) :
    n.positions.filterMap f = (f []).toList ++
      n.kids.zipIdx.flatMap fun c => c.1.positions.filterMap fun p => f (c.2 :: p) := by
  simp only [List.filterMap_eq_flatMap_toList]
  exact n.flatMap_positions _

-- ---------------------------------------------------------------------------
-- The order of a traversal
-- ---------------------------------------------------------------------------

/-- The nodes of a tree, in the order of their positions. -/
def preorder (n : Node) : List Node := n.positions.filterMap n.at?

theorem preorder_eq (n : Node) : n.preorder = n :: n.kids.flatMap preorder := by
  rw [preorder, filterMap_positions]
  refine congrArg (n :: ·) (flatMap_zipIdx fun i c hc => ?_)
  simp only [at?_cons hc]
  rfl

end Node

/-- The node that is entered. -/
def Event.entered? : Event → Option Node
  | .enter n _ => some n
  | .leave _ _ => none

namespace Node

theorem entered?_flatMap_trace (l : List Node) (parent : Option Node) :
    (l.flatMap (trace parent)).filterMap Event.entered? = l.flatMap preorder := by
  induction l using forest_induction generalizing parent with
  | nil => rfl
  | cons n rest ihkids ihrest =>
    rw [List.flatMap_cons, List.flatMap_cons, List.filterMap_append, ihrest, trace_eq, preorder_eq]
    simp [List.filterMap_append, ihkids, Event.entered?]

/-- The events of a traversal are those of the recursion. -/
theorem toList_events (n : Node) : n.events.toList = n.trace none := by
  rw [events, walk_eq, traverse]
  simp

/-- A traversal enters the nodes of a tree in the order of their positions. -/
theorem entered_eq (n : Node) :
    n.events.toList.filterMap Event.entered? = n.preorder := by
  rw [toList_events]
  simpa using entered?_flatMap_trace [n] none

end Node

end ModuleBundler

import ModuleBundler.Total
import ModuleBundler.Tree.Form

/-!
# ModuleBundler — traversal of syntax trees

A traversal enters a node, traverses its kids in source order, and leaves the
node. It runs on a work list of its own, because trees may be far deeper than a
call stack: a chain `a + b + c + …` nests once per operand.

* `Node.walk` — folds a function over the events of a traversal.
* `Node.events` — the events themselves.
-/

namespace ModuleBundler

/-- Entering or leaving a node, along with the node's parent. -/
inductive Event where
  | enter (node : Node) (parent : Option Node)
  | leave (node : Node) (parent : Option Node)
  deriving Inhabited

namespace Node

/-- The number of nodes of a tree. -/
def size (n : Node) : Nat := 1 + total (fun c => size c.1) n.kids.attach
termination_by sizeOf n
decreasing_by exact sizeOf_kid_lt c.2

theorem size_eq (n : Node) : n.size = 1 + total size n.kids := by
  rw [size, total_attach size]

end Node

/-- How many events a step of the work list stands for. -/
def Event.weight : Event → Nat
  | .enter n _ => 2 * n.size
  | .leave _ _ => 1

theorem Event.total_weight_enter (n : Node) (parent : Option Node) (rest : List Event) :
    total weight (n.kids.map (Event.enter · (some n)) ++ .leave n parent :: rest) <
      total weight (.enter n parent :: rest) := by
  have h := n.size_eq
  simp only [total_append, total_map, total_cons, weight, total_mul]
  omega

/-- Carries out the steps of a work list, the first one first. Entering a node
puts its kids on the list, and then its leaving. -/
def Event.run (visit : σ → Event → σ) (state : σ) : List Event → σ
  | [] => state
  | .enter n parent :: rest =>
    run visit (visit state (.enter n parent))
      (n.kids.map (Event.enter · (some n)) ++ .leave n parent :: rest)
  | .leave n parent :: rest => run visit (visit state (.leave n parent)) rest
termination_by steps => total weight steps
decreasing_by
  · exact total_weight_enter n parent rest
  · simp only [total_cons, weight]
    omega

namespace Node

/-- Folds a function over the events of the traversal of a tree. -/
def walk (root : Node) (visit : σ → Event → σ) (state : σ) : σ :=
  Event.run visit state [.enter root none]

/-- The events of the traversal of a tree. -/
def events (root : Node) : Array Event := root.walk Array.push #[]

end Node

end ModuleBundler

import ModuleBundler.Bundle.Resolution

/-!
# ModuleBundler — expansion

To expand a statement is to emit what it depends on and then the statement
itself. Each statement is emitted once; one that is met again while it is being
expanded is passed over, so that statements may depend on each other.

* `run` — expansion by a work list.
* `Store.unvisited` — the number of statements that are still to be visited.
  Each step of the work list fetches a module, visits a statement or makes the
  list lighter, and this is why it ends.
-/

namespace ModuleBundler

-- ---------------------------------------------------------------------------
-- Unvisited statements
-- ---------------------------------------------------------------------------

namespace Store

/-- The statements of the module at a position. -/
def refsOf (modules : Array Module) (id : Nat) : List StatementRef :=
  match modules[id]? with
  | some m => (List.range m.statements.size).map (StatementRef.mk id)
  | none => []

/-- All statements of all fetched modules. -/
def refs (modules : Array Module) : List StatementRef :=
  (List.range modules.size).flatMap (refsOf modules)

/-- The number of statements that were not visited. -/
def unvisited (s : Store) : Nat := (refs s.modules).countP fun ref => !s.isVisited ref

theorem mem_refs {modules : Array Module} {ref : StatementRef} {m : Module}
    (hm : modules[ref.moduleId]? = some m) (hi : ref.index < m.statements.size) :
    ref ∈ refs modules := by
  have hlt : ref.moduleId < modules.size := (Array.getElem?_eq_some_iff.1 hm).1
  refine List.mem_flatMap.2 ⟨ref.moduleId, List.mem_range.2 hlt, ?_⟩
  simp only [refsOf, hm, List.mem_map, List.mem_range]
  exact ⟨ref.index, hi, rfl⟩

@[simp] theorem isVisited_visit (s : Store) (ref other : StatementRef) (v : Visit) :
    (s.visit ref v).isVisited other = (ref == other || s.isVisited other) := by
  simp [isVisited, visit]

@[simp] theorem modules_visit (s : Store) (ref : StatementRef) (v : Visit) :
    (s.visit ref v).modules = s.modules := rfl

/-- A count goes down when one member stops being counted and none begins to. -/
theorem countP_lt {α : Type} {p q : α → Bool} {l : List α} (hpq : ∀ a, p a = true → q a = true)
    {a : α} (ha : a ∈ l) (hp : p a = false) (hq : q a = true) : l.countP p < l.countP q := by
  induction l with
  | nil => simp at ha
  | cons b l ih =>
    have hle : l.countP p ≤ l.countP q := List.countP_mono_left fun a _ => hpq a
    rcases List.mem_cons.1 ha with rfl | ha
    · simp only [List.countP_cons, hp, hq, Bool.false_eq_true, ↓reduceIte]
      omega
    · have hlt := ih ha
      simp only [List.countP_cons]
      split <;> rename_i hb
      · rw [if_pos (hpq b hb)]
        omega
      · split <;> omega

theorem unvisited_visit_le (s : Store) (ref : StatementRef) (v : Visit) :
    (s.visit ref v).unvisited ≤ s.unvisited :=
  List.countP_mono_left fun other _ h => by
    simp only [isVisited_visit, Bool.not_eq_true', Bool.or_eq_false_iff] at h
    simp [h.2]

/-- A visit to a statement that was not visited leaves fewer of those. -/
theorem unvisited_visit_lt {s : Store} {ref : StatementRef} {m : Module} (v : Visit)
    (hm : s.modules[ref.moduleId]? = some m) (hi : ref.index < m.statements.size)
    (hv : s.isVisited ref = false) : (s.visit ref v).unvisited < s.unvisited := by
  refine countP_lt (fun other h => ?_) (mem_refs hm hi) ?_ ?_
  · simp only [isVisited_visit, Bool.not_eq_true', Bool.or_eq_false_iff] at h
    simp [h.2]
  · simp
  · simp [hv]

end Store

-- ---------------------------------------------------------------------------
-- The work list
-- ---------------------------------------------------------------------------

/-- A step that is still to be done. -/
inductive WorkItem where
  | expand (statement : StatementRef)
  | emit (statement : StatementRef)
  /-- Expands what a name in the scope of a module stands for. -/
  | define (moduleId : Nat) (name : String)
  deriving DecidableEq, Repr

/-- To define a name may take the expansion of a statement. -/
def WorkItem.weight : WorkItem → Nat
  | define _ _ => 2
  | expand _ | emit _ => 1

/-- The steps that the expansion of a statement consists of. -/
def Statement.work (s : Statement) (ref : StatementRef) : List WorkItem :=
  s.dependsOn.map (.define ref.moduleId) ++ [.emit ref]

/-- Either there is less room for modules, or there is no more room and there
are no more statements to visit. -/
theorem Store.Grows.measure_le {capacity : Nat} {s t : Store} (h : Grows capacity s t) :
    capacity - t.modules.size < capacity - s.modules.size ∨
      capacity - t.modules.size = capacity - s.modules.size ∧ t.unvisited = s.unvisited := by
  by_cases hle : t.modules.size ≤ s.modules.size
  · right
    have hm := h.modules_eq_of_size_le hle
    refine ⟨by rw [hm], ?_⟩
    simp only [Store.unvisited, Store.isVisited, hm, h.visits_eq]
  · left
    have := h.size_le
    have := h.size_mono
    omega

/-- Does the steps of a work list, the first one first, and adds to the emitted
statements. -/
def run (sources : Sources) (emitted : Array StatementRef) (work : List WorkItem) (s : Store) :
    EStateM.Result BuildError Store (Array StatementRef) :=
  match work with
  | [] => .ok emitted s
  | .emit ref :: rest => run sources (emitted.push ref) rest (s.visit ref .emitted)
  | .expand ref :: rest =>
    if _hv : s.isVisited ref then run sources emitted rest s
    else
      match _hm : s.modules[ref.moduleId]? with
      | none => .error (.noSuchModule ref.moduleId) s
      | some m =>
        match _hs : m.statement? ref.index with
        | none => run sources emitted rest s
        | some statement =>
          run sources emitted (statement.work ref ++ rest) (s.visit ref .inProgress)
  | .define id name :: rest =>
    match _hr : resolveName sources id name s with
    | .error e t => .error e t
    | .ok none t => run sources emitted rest t
    | .ok (some ref) t =>
      if t.isVisited ref then run sources emitted rest t
      else run sources emitted (.expand ref :: rest) t
termination_by (sources.capacity - s.modules.size, s.unvisited, total WorkItem.weight work)
decreasing_by
  all_goals simp only [total_cons, WorkItem.weight, Prod.lex_def, Store.modules_visit,
    true_and]
  · have := s.unvisited_visit_le ref .emitted
    omega
  · omega
  · omega
  · have hi : ref.index < m.statements.size := (Array.getElem?_eq_some_iff.1 _hs).1
    have := Store.unvisited_visit_lt .inProgress _hm hi (by simpa using _hv)
    omega
  all_goals
    have := ((Bundling.OnlyFetches.resolveName sources id name).grows_of_ok _hr).measure_le
    omega

end ModuleBundler

import ModuleBundler.Bundle.Build

/-!
# ModuleBundler — expansion is depth first

Expansion goes by a work list, so that it needs no stack. What it comes to is told
more simply by a recursion: to expand a statement is to mark it, to expand what
each name that it depends on stands for, in order, and then to emit it. Nothing in
the recursion says that it ends; that it does is part of the result.

* `Recursing` — work on a store that may fail and may never end.
* `StatementRef.expandDeep` — expansion by recursion.
* `run_eq_performDeep` — a work list is done as the recursion does its items.
* `expandDeep_eq` — expansion by work list and by recursion are the same.
-/

namespace ModuleBundler

-- ---------------------------------------------------------------------------
-- The recursion
-- ---------------------------------------------------------------------------

/-- Work on a store that may fail, and may also never end. What failed work did to
the store stays. -/
abbrev Recursing := ExceptT BuildError (StateT Store Option)

/-- Work that ends, taken as work that might not. -/
def Bundling.toRecursing {α : Type} (x : Bundling α) : Recursing α := fun s =>
  match x s with
  | .ok a t => some (.ok a, t)
  | .error e t => some (.error e, t)

instance : MonadLift Bundling Recursing := ⟨Bundling.toRecursing⟩

/-- What a statement depends on, and then the statement itself. A statement that was
visited yields nothing, be it emitted or still in progress, and neither does a name
that comes from outside of all modules. -/
def StatementRef.expandDeep (sources : Sources) (ref : StatementRef) :
    Recursing (Array StatementRef) := do
  if (← get).isVisited ref then return #[]
  let m ← moduleAt ref.moduleId
  match m.statement? ref.index with
  | none => return #[]
  | some st =>
    modify (·.visit ref .inProgress)
    let parts ← st.dependsOn.mapM fun name => do
      match ← resolveName sources ref.moduleId name with
      | none => return #[]
      | some other => other |>.expandDeep sources
    modify (·.visit ref .emitted)
    return (parts.foldl (· ++ ·) #[]).push ref
partial_fixpoint

/-- What a name in the scope of a module needs. -/
def defineDeep (sources : Sources) (id : Nat) (name : String) :
    Recursing (Array StatementRef) := do
  match ← resolveName sources id name with
  | none => return #[]
  | some other => other.expandDeep sources

/-- Does one item of a work list, with all that it takes. -/
def WorkItem.performDeep (sources : Sources) : WorkItem → Recursing (Array StatementRef)
  | .expand ref => ref.expandDeep sources
  | .define id name => defineDeep sources id name
  | .emit ref => do
    modify (·.visit ref .emitted)
    return #[ref]

/-- Does the items of a work list one after the other, and adds to the emitted
statements. -/
def performDeep (sources : Sources) (emitted : Array StatementRef) :
    List WorkItem → Recursing (Array StatementRef)
  | [] => return emitted
  | item :: rest => do performDeep sources (emitted ++ (← item.performDeep sources)) rest

-- ---------------------------------------------------------------------------
-- One step
-- ---------------------------------------------------------------------------

namespace Recursing

variable {α β : Type} {x y : Recursing α} {f : α → Recursing β} {s t : Store}

/-- What comes first matters only by what it comes to. -/
theorem bind_congr (h : x s = y t) : (x >>= f) s = (y >>= f) t := by
  show (x s).bind _ = (y t).bind _
  rw [h]

theorem bind_of_ok {a : α} (h : x s = some (.ok a, t)) : (x >>= f) s = f a t :=
  bind_congr (y := pure a) h

theorem bind_of_error {e : BuildError} (h : x s = some (.error e, t)) :
    (x >>= f) s = some (.error e, t) :=
  bind_congr (y := throw e) h

theorem lift_of_ok {x : Bundling α} {a : α} (h : x s = .ok a t) :
    (liftM x : Recursing α) s = some (.ok a, t) := by
  show x.toRecursing s = _
  rw [Bundling.toRecursing, h]

theorem lift_of_error {x : Bundling α} {e : BuildError} (h : x s = .error e t) :
    (liftM x : Recursing α) s = some (.error e, t) := by
  show x.toRecursing s = _
  rw [Bundling.toRecursing, h]

end Recursing

section

variable {sources : Sources} {ref : StatementRef} {s t : Store}

theorem expandDeep_of_isVisited (hv : s.isVisited ref = true) :
    ref.expandDeep sources s = some (.ok #[], s) := by
  rw [StatementRef.expandDeep, Recursing.bind_of_ok (x := get) rfl, if_pos hv]
  rfl

theorem expandDeep_of_noModule (hv : s.isVisited ref = false)
    (hm : s.modules[ref.moduleId]? = none) :
    ref.expandDeep sources s = some (.error (.noSuchModule ref.moduleId), s) := by
  have hat : moduleAt ref.moduleId s = .error (.noSuchModule ref.moduleId) s :=
    moduleAt_eq_error.2 ⟨hm, rfl, rfl⟩
  rw [StatementRef.expandDeep, Recursing.bind_of_ok (x := get) rfl, if_neg (by simp [hv]),
    Recursing.bind_of_error (Recursing.lift_of_error hat)]

theorem expandDeep_of_absent (hv : s.isVisited ref = false) {m : Module}
    (hm : s.modules[ref.moduleId]? = some m) (hs : m.statement? ref.index = none) :
    ref.expandDeep sources s = some (.ok #[], s) := by
  have hat : moduleAt ref.moduleId s = .ok m s := moduleAt_eq_ok.2 ⟨hm, rfl⟩
  rw [StatementRef.expandDeep, Recursing.bind_of_ok (x := get) rfl, if_neg (by simp [hv]),
    Recursing.bind_of_ok (Recursing.lift_of_ok hat), hs]
  rfl

theorem defineDeep_of_external {id : Nat} {name : String}
    (hr : resolveName sources id name s = .ok none t) :
    defineDeep sources id name s = some (.ok #[], t) := by
  rw [defineDeep, Recursing.bind_of_ok (Recursing.lift_of_ok hr)]
  rfl

theorem defineDeep_of_some {id : Nat} {name : String}
    (hr : resolveName sources id name s = .ok (some ref) t) :
    defineDeep sources id name s = ref.expandDeep sources t := by
  rw [defineDeep, Recursing.bind_of_ok (Recursing.lift_of_ok hr)]

theorem defineDeep_of_error {id : Nat} {name : String} {e : BuildError}
    (hr : resolveName sources id name s = .error e t) :
    defineDeep sources id name s = some (.error e, t) := by
  rw [defineDeep, Recursing.bind_of_error (Recursing.lift_of_error hr)]

end

-- ---------------------------------------------------------------------------
-- Work lists
-- ---------------------------------------------------------------------------

variable {sources : Sources}

theorem performDeep_append (emitted : Array StatementRef) (work rest : List WorkItem) :
    performDeep sources emitted (work ++ rest) =
      performDeep sources emitted work >>= fun first => performDeep sources first rest := by
  induction work generalizing emitted with
  | nil => simp [performDeep]
  | cons item work ih => simp [performDeep, ih]

/-- What was emitted before makes no difference. -/
theorem performDeep_eq (emitted : Array StatementRef) (work : List WorkItem) :
    performDeep sources emitted work = do return emitted ++ (← performDeep sources #[] work) := by
  induction work generalizing emitted with
  | nil => simp [performDeep]
  | cons item work ih =>
    rw [performDeep, performDeep, bind_assoc]
    congr 1
    funext first
    rw [ih, ih (#[] ++ first)]
    simp

/-- The work of a statement is its names, one after the other, and the statement. -/
theorem performDeep_work (emitted : Array StatementRef) (st : Statement) (ref : StatementRef) :
    performDeep sources emitted (st.work ref) = do
      let parts ← st.dependsOn.mapM (defineDeep sources ref.moduleId)
      modify (·.visit ref .emitted)
      return (parts.foldl (· ++ ·) emitted).push ref := by
  rw [Statement.work]
  induction st.dependsOn generalizing emitted with
  | nil => simp [performDeep, WorkItem.performDeep]
  | cons name names ih => simp [performDeep, WorkItem.performDeep, ih]

theorem expandDeep_of_holds {ref : StatementRef} {s : Store} (hv : s.isVisited ref = false)
    {m : Module} (hm : s.modules[ref.moduleId]? = some m) {st : Statement}
    (hs : m.statement? ref.index = some st) :
    ref.expandDeep sources s =
      performDeep sources #[] (st.work ref) (s.visit ref .inProgress) := by
  have hat : moduleAt ref.moduleId s = .ok m s := moduleAt_eq_ok.2 ⟨hm, rfl⟩
  rw [StatementRef.expandDeep, Recursing.bind_of_ok (x := get) rfl, if_neg (by simp [hv]),
    Recursing.bind_of_ok (Recursing.lift_of_ok hat), hs, performDeep_work]
  rfl

/-- A work list is done as the recursion does its items, one after the other. -/
theorem run_eq_performDeep (emitted : Array StatementRef) (work : List WorkItem) (s : Store) :
    Bundling.toRecursing (run sources emitted work) s = performDeep sources emitted work s := by
  unfold Bundling.toRecursing
  fun_induction run sources emitted work s with
  | case1 emitted s => rfl
  | case2 emitted s ref rest ih =>
    rw [ih, performDeep, WorkItem.performDeep, bind_assoc]
    rfl
  | case3 emitted s ref rest hv ih =>
    rw [ih, performDeep, WorkItem.performDeep,
      Recursing.bind_of_ok (expandDeep_of_isVisited hv), Array.append_empty]
  | case4 emitted s ref rest hv hm =>
    rw [performDeep, WorkItem.performDeep,
      Recursing.bind_of_error (expandDeep_of_noModule (by simpa using hv) hm)]
  | case5 emitted s ref rest hv m hm hs ih =>
    rw [ih, performDeep, WorkItem.performDeep,
      Recursing.bind_of_ok (expandDeep_of_absent (by simpa using hv) hm hs), Array.append_empty]
  | case6 emitted s ref rest hv m hm st hs ih =>
    -- the work of the statement is all done before the rest
    have hfirst : ref.expandDeep sources s = _ := expandDeep_of_holds (by simpa using hv) hm hs
    rw [ih, performDeep_append, performDeep_eq, performDeep, WorkItem.performDeep, bind_assoc]
    simp only [pure_bind]
    exact Recursing.bind_congr hfirst.symm
  | case7 emitted s id name rest e t hr =>
    rw [performDeep, WorkItem.performDeep, Recursing.bind_of_error (defineDeep_of_error hr)]
  | case8 emitted s id name rest t hr ih =>
    rw [ih, performDeep, WorkItem.performDeep,
      Recursing.bind_of_ok (defineDeep_of_external hr), Array.append_empty]
  | case9 emitted s id name rest ref t hr hv ih =>
    have hnone := (defineDeep_of_some hr).trans (expandDeep_of_isVisited hv)
    rw [ih, performDeep, WorkItem.performDeep, Recursing.bind_of_ok hnone, Array.append_empty]
  | case10 emitted s id name rest ref t hr hv ih =>
    rw [ih, performDeep, performDeep, WorkItem.performDeep, WorkItem.performDeep]
    exact Recursing.bind_congr (defineDeep_of_some hr).symm

/-- Expansion by work list is expansion by recursion: it emits the same statements in
the same order and leaves the same store behind, or it fails with the same error at
the same place. In particular the recursion ends. -/
theorem expandDeep_eq (sources : Sources) (ref : StatementRef) (s : Store) :
    ref.expandDeep sources s =
      match expand sources ref s with
      | .ok emitted t => some (.ok emitted, t)
      | .error e t => some (.error e, t) := by
  have hone : performDeep sources #[] [.expand ref] = ref.expandDeep sources := by
    simp [performDeep, WorkItem.performDeep]
  rw [← hone, ← run_eq_performDeep]
  unfold Bundling.toRecursing expand
  cases run sources #[] [.expand ref] s <;> rfl

end ModuleBundler

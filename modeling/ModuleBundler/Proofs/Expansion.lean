import ModuleBundler.Bundle.Build
import ModuleBundler.Proofs.Agreement
import Mathlib.Logic.Relation

/-!
# ModuleBundler — what expansion keeps

A bundler that is asked for statements, and for nothing else, goes through states
that consist of what it emitted so far, what is left to do and its store. What
holds of all these states:

* `History.visited_iff`, `History.nodup` — a statement is visited once, and then
  is either emitted or about to be.
* `History.serves` — what is to be done before a statement is emitted, is done
  for it.
* `History.settled` — before a statement is emitted, the names that it depends on
  are looked up.
* `History.done` — what an emitted statement depends on is emitted before it, or
  depends on it in turn.
-/

namespace ModuleBundler

variable {sources : Sources}

-- ---------------------------------------------------------------------------
-- Dependence
-- ---------------------------------------------------------------------------

/-- A statement of the store depends on a name. -/
def Store.Reads (u : Store) (ref : StatementRef) (name : String) : Prop :=
  ∃ st, u.Holds ref st ∧ name ∈ st.dependsOn

/-- A name in the scope of a module stands for a statement, or for none. -/
def StandsFor (sources : Sources) (u : Store) (id : Nat) (name : String)
    (o : Option StatementRef) : Prop :=
  ∃ v, resolveName sources id name u = .ok o v

/-- A statement depends on another one: some name that it depends on stands, in
its module, for the other one. -/
def DependsOn (sources : Sources) (u : Store) (ref other : StatementRef) : Prop :=
  ∃ name, u.Reads ref name ∧ StandsFor sources u ref.moduleId name (some other)

theorem StandsFor.unique {u : Store} {id : Nat} {name : String} {o o' : Option StatementRef}
    (h : StandsFor sources u id name o) (h' : StandsFor sources u id name o') : o = o' := by
  obtain ⟨v, hv⟩ := h
  obtain ⟨v', hv'⟩ := h'
  rw [hv] at hv'
  cases hv'
  rfl

-- ---------------------------------------------------------------------------
-- Steps
-- ---------------------------------------------------------------------------

/-- A state of a bundler: the emitted statements, the work list and the store. -/
structure Progress where
  emitted : List StatementRef
  work : List WorkItem
  store : Store

/-- An item of the work list that turns out to need no more work. -/
inductive Idle (sources : Sources) : WorkItem → Store → Store → Prop
  | visited {ref : StatementRef} {s : Store} (hv : s.isVisited ref = true) :
    Idle sources (.expand ref) s s
  | absent {ref : StatementRef} {s : Store} {m : Module} (hm : s.modules[ref.moduleId]? = some m)
    (hs : m.statement? ref.index = none) : Idle sources (.expand ref) s s
  | external {id : Nat} {name : String} {s t : Store}
    (hr : resolveName sources id name s = .ok none t) : Idle sources (.define id name) s t
  | known {id : Nat} {name : String} {ref : StatementRef} {s t : Store}
    (hr : resolveName sources id name s = .ok (some ref) t) (hv : t.isVisited ref = true) :
    Idle sources (.define id name) s t

/-- One step of expansion. -/
inductive Step (sources : Sources) : Progress → Progress → Prop
  | skip {emitted : List StatementRef} {item : WorkItem} {rest : List WorkItem} {s t : Store}
    (h : Idle sources item s t) : Step sources ⟨emitted, item :: rest, s⟩ ⟨emitted, rest, t⟩
  | emit {emitted : List StatementRef} {ref : StatementRef} {rest : List WorkItem} {s : Store} :
    Step sources ⟨emitted, .emit ref :: rest, s⟩ ⟨emitted ++ [ref], rest, s.visit ref .emitted⟩
  | enter {emitted : List StatementRef} {ref : StatementRef} {rest : List WorkItem} {s : Store}
    {st : Statement} (hv : s.isVisited ref = false) (hs : s.Holds ref st) :
    Step sources ⟨emitted, .expand ref :: rest, s⟩
      ⟨emitted, st.work ref ++ rest, s.visit ref .inProgress⟩
  | need {emitted : List StatementRef} {id : Nat} {name : String} {ref : StatementRef}
    {rest : List WorkItem} {s t : Store} (hr : resolveName sources id name s = .ok (some ref) t)
    (hv : t.isVisited ref = false) :
    Step sources ⟨emitted, .define id name :: rest, s⟩ ⟨emitted, .expand ref :: rest, t⟩

/-- Steps in a row. -/
abbrev Steps (sources : Sources) : Progress → Progress → Prop :=
  Relation.ReflTransGen (Step sources)

/-- The first item of a work list cannot be done. -/
inductive Stuck (sources : Sources) : Progress → BuildError → Store → Prop
  | unresolved {emitted : List StatementRef} {id : Nat} {name : String} {rest : List WorkItem}
    {s t : Store} {e : BuildError} (hr : resolveName sources id name s = .error e t) :
    Stuck sources ⟨emitted, .define id name :: rest, s⟩ e t
  | noModule {emitted : List StatementRef} {ref : StatementRef} {rest : List WorkItem} {s : Store}
    {e : BuildError} (hm : s.modules[ref.moduleId]? = none) :
    Stuck sources ⟨emitted, .expand ref :: rest, s⟩ e s

/-- How the work on a list ends, when some statements were emitted already: all is
done and more statements are emitted, or one item cannot be done. What was
emitted before makes no difference. -/
def Ends (sources : Sources) (emitted : List StatementRef) (work : List WorkItem) (s : Store) :
    EStateM.Result BuildError Store (Array StatementRef) → Prop
  | .ok out u => ∃ more, out.toList = emitted ++ more ∧
      ∀ before, Steps sources ⟨before, work, s⟩ ⟨before ++ more, [], u⟩
  | .error e u => ∀ before, ∃ c, Steps sources ⟨before, work, s⟩ c ∧ Stuck sources c e u

theorem Ends.head {emitted extra : List StatementRef} {work work' : List WorkItem} {s s' : Store}
    {r : EStateM.Result BuildError Store (Array StatementRef)}
    (h : ∀ before, Step sources ⟨before, work, s⟩ ⟨before ++ extra, work', s'⟩)
    (hr : Ends sources (emitted ++ extra) work' s' r) : Ends sources emitted work s r := by
  cases r with
  | ok out u =>
    obtain ⟨more, hout, hsteps⟩ := hr
    refine ⟨extra ++ more, by rw [hout, List.append_assoc], fun before => ?_⟩
    rw [← List.append_assoc]
    exact .head (h before) (hsteps _)
  | error e u =>
    intro before
    obtain ⟨c, hsteps, hstuck⟩ := hr (before ++ extra)
    exact ⟨c, .head (h before) hsteps, hstuck⟩

/-- A step that emits nothing. -/
theorem Ends.quiet {emitted : List StatementRef} {work work' : List WorkItem} {s s' : Store}
    {r : EStateM.Result BuildError Store (Array StatementRef)}
    (h : ∀ before, Step sources ⟨before, work, s⟩ ⟨before, work', s'⟩)
    (hr : Ends sources emitted work' s' r) : Ends sources emitted work s r :=
  @Ends.head _ _ [] _ _ _ _ _ (fun before => by simpa using h before) (by simpa using hr)

/-- A work list is done step by step. -/
theorem run_ends (emitted : Array StatementRef) (work : List WorkItem) (s : Store) :
    Ends sources emitted.toList work s (run sources emitted work s) := by
  fun_induction run sources emitted work s with
  | case1 emitted s => exact ⟨[], by simp, fun before => by rw [List.append_nil]⟩
  | case2 emitted s ref rest ih =>
    rw [Array.toList_push] at ih
    exact ih.head fun before => .emit
  | case3 emitted s ref rest hv ih => exact ih.quiet fun before => .skip (.visited hv)
  | case4 emitted s ref rest hv hm => exact fun before => ⟨_, .refl, .noModule hm⟩
  | case5 emitted s ref rest hv m hm hs ih => exact ih.quiet fun before => .skip (.absent hm hs)
  | case6 emitted s ref rest hv m hm st hs ih =>
    exact ih.quiet fun before => .enter (by simpa using hv) ⟨m, hm, hs⟩
  | case7 emitted s id name rest e t hr => exact fun before => ⟨_, .refl, .unresolved hr⟩
  | case8 emitted s id name rest t hr ih => exact ih.quiet fun before => .skip (.external hr)
  | case9 emitted s id name rest ref t hr hv ih => exact ih.quiet fun before => .skip (.known hr hv)
  | case10 emitted s id name rest ref t hr hv ih =>
    exact ih.quiet fun before => .need hr (by simpa using hv)

/-- A step makes no difference to what expansion comes to. -/
theorem Step.run_eq {emitted emitted' : Array StatementRef} {work work' : List WorkItem}
    {s t : Store} (h : Step sources ⟨emitted.toList, work, s⟩ ⟨emitted'.toList, work', t⟩) :
    run sources emitted work s = run sources emitted' work' t := by
  generalize hc : Progress.mk emitted.toList work s = c at h
  generalize hd : Progress.mk emitted'.toList work' t = d at h
  cases h with
  | skip h =>
    obtain ⟨rfl, rfl, rfl⟩ := Progress.mk.inj hc
    obtain ⟨he, rfl, rfl⟩ := Progress.mk.inj hd
    obtain rfl := Array.toList_inj.1 he
    cases h with
    | visited hv => rw [run, dif_pos hv]
    | absent hm hs => rw [run]; split <;> grind
    | external hr => rw [run]; split <;> grind
    | known hr hv => rw [run]; split <;> grind
  | emit =>
    obtain ⟨rfl, rfl, rfl⟩ := Progress.mk.inj hc
    obtain ⟨he, rfl, rfl⟩ := Progress.mk.inj hd
    rw [← Array.toList_push] at he
    obtain rfl := Array.toList_inj.1 he
    rw [run]
  | enter hv hs =>
    obtain ⟨rfl, rfl, rfl⟩ := Progress.mk.inj hc
    obtain ⟨he, rfl, rfl⟩ := Progress.mk.inj hd
    obtain rfl := Array.toList_inj.1 he
    obtain ⟨m, hm, hi⟩ := hs
    rw [run, dif_neg (by simp [hv])]
    split <;> grind
  | need hr hv =>
    obtain ⟨rfl, rfl, rfl⟩ := Progress.mk.inj hc
    obtain ⟨he, rfl, rfl⟩ := Progress.mk.inj hd
    obtain rfl := Array.toList_inj.1 he
    conv_lhs => rw [run]
    split <;> grind

/-- Steps in a row that do all the work are what expansion comes to. -/
theorem run_of_steps {c : Progress} {out : List StatementRef} {u : Store}
    (h : Steps sources c ⟨out, [], u⟩) :
    run sources c.emitted.toArray c.work c.store = .ok out.toArray u := by
  induction h using Relation.ReflTransGen.head_induction_on with
  | refl => rw [run]
  | @head c d hstep _ ih => exact (Step.run_eq hstep).trans ih

/-- A work list that is done leads to the state where its statements are emitted. -/
theorem steps_of_run {emitted : List StatementRef} {work : List WorkItem} {s u : Store}
    {out : Array StatementRef} (h : run sources #[] work s = .ok out u) :
    Steps sources ⟨emitted, work, s⟩ ⟨emitted ++ out.toList, [], u⟩ := by
  have hends := @run_ends sources #[] work s
  rw [h] at hends
  obtain ⟨more, hout, hsteps⟩ := hends
  obtain rfl : out.toList = more := hout
  exact hsteps emitted

/-- A work list that cannot be done leads to the state where it gets stuck. -/
theorem stuck_of_run {emitted : List StatementRef} {work : List WorkItem} {s u : Store}
    {e : BuildError} (h : run sources #[] work s = .error e u) :
    ∃ c, Steps sources ⟨emitted, work, s⟩ c ∧ Stuck sources c e u := by
  have hends := @run_ends sources #[] work s
  rw [h] at hends
  exact hends emitted

-- ---------------------------------------------------------------------------
-- What a step does to the store
-- ---------------------------------------------------------------------------

theorem isVisited_of_resolveName {id : Nat} {name : String} {s t : Store}
    {o : Option StatementRef} (h : resolveName sources id name s = .ok o t) :
    t.isVisited = s.isVisited := by
  funext ref
  rw [Store.isVisited, Store.isVisited,
    ((Bundling.OnlyFetches.resolveName sources id name).grows_of_ok h).visits_eq]

theorem Store.Coherent.visit {s : Store} (h : s.Coherent sources) (ref : StatementRef)
    (v : Visit) : (s.visit ref v).Coherent sources := ⟨h.loaded, h.distinct⟩

namespace Idle

variable {item : WorkItem} {s t : Store}

theorem later (h : Idle sources item s t) (laws : sources.Lawful) (hs : s.Coherent sources) :
    s.Later sources t := by
  cases h with
  | visited hv => exact hs.later
  | absent hm hi => exact hs.later
  | external hr => exact (resolveName_later laws hs hr).1
  | known hr hv => exact (resolveName_later laws hs hr).1

theorem isVisited_eq (h : Idle sources item s t) : t.isVisited = s.isVisited := by
  cases h with
  | visited hv => rfl
  | absent hm hi => rfl
  | external hr => exact isVisited_of_resolveName hr
  | known hr hv => exact isVisited_of_resolveName hr

theorem ne_emit (h : Idle sources item s t) (ref : StatementRef) : item ≠ .emit ref := by
  rintro rfl
  cases h

end Idle

theorem Step.later {c d : Progress} (h : Step sources c d) (laws : sources.Lawful)
    (hc : c.store.Coherent sources) : c.store.Later sources d.store := by
  cases h with
  | skip h => exact h.later laws hc
  | emit => exact ⟨.refl _, hc.visit _ _⟩
  | enter hv hs => exact ⟨.refl _, hc.visit _ _⟩
  | need hr hv => exact (resolveName_later laws hc hr).1

/-- What was visited stays visited. -/
theorem Step.isVisited {c d : Progress} (h : Step sources c d) {ref : StatementRef}
    (hv : c.store.isVisited ref = true) : d.store.isVisited ref = true := by
  cases h with
  | skip h => rwa [h.isVisited_eq]
  | emit => rw [Store.isVisited_visit, hv, Bool.or_true]
  | enter _ _ => rw [Store.isVisited_visit, hv, Bool.or_true]
  | need hr _ => rwa [isVisited_of_resolveName hr]

theorem Steps.later {c d : Progress} (h : Steps sources c d) (laws : sources.Lawful)
    (hc : c.store.Coherent sources) : c.store.Later sources d.store := by
  induction h with
  | refl => exact hc.later
  | tail _ hstep ih => exact ih.trans (hstep.later laws ih.coherent)

theorem Steps.isVisited {c d : Progress} (h : Steps sources c d) {ref : StatementRef}
    (hv : c.store.isVisited ref = true) : d.store.isVisited ref = true := by
  induction h with
  | refl => exact hv
  | tail _ hstep ih => exact hstep.isVisited ih

-- ---------------------------------------------------------------------------
-- The work of a statement
-- ---------------------------------------------------------------------------

section

variable (st : Statement) (ref : StatementRef)

@[simp] theorem emit_mem_work (other : StatementRef) :
    .emit other ∈ st.work ref ↔ other = ref := by
  simp [Statement.work]

@[simp] theorem expand_mem_work (other : StatementRef) : .expand other ∉ st.work ref := by
  simp [Statement.work]

@[simp] theorem define_mem_work (id : Nat) (name : String) :
    .define id name ∈ st.work ref ↔ id = ref.moduleId ∧ name ∈ st.dependsOn := by
  simp [Statement.work, and_comm, eq_comm]

end

-- ---------------------------------------------------------------------------
-- The states of a bundler
-- ---------------------------------------------------------------------------

/-- The states that a bundler goes through when it is asked for some items, one
after the other is done, and may fetch modules in between. -/
inductive History (sources : Sources) (asked : WorkItem → Prop) : Progress → Prop
  | start : History sources asked ⟨[], [], .empty⟩
  | fetched {emitted : List StatementRef} {s t : Store}
    (h : History sources asked ⟨emitted, [], s⟩) (ht : s.Later sources t)
    (hv : t.visits = s.visits) : History sources asked ⟨emitted, [], t⟩
  | ask {emitted : List StatementRef} {item : WorkItem} {s : Store}
    (h : History sources asked ⟨emitted, [], s⟩) (ha : asked item)
    (he : ∀ ref, item ≠ .emit ref) : History sources asked ⟨emitted, [item], s⟩
  | step {c d : Progress} (h : History sources asked c) (hstep : Step sources c d) :
    History sources asked d

namespace History

variable {asked : WorkItem → Prop} {c d : Progress}

theorem steps (h : History sources asked c) (hs : Steps sources c d) : History sources asked d := by
  induction hs with
  | refl => exact h
  | tail _ hstep ih => exact ih.step hstep

theorem coherent (h : History sources asked c) (laws : sources.Lawful) :
    c.store.Coherent sources := by
  induction h with
  | start => exact .empty sources
  | fetched _ ht _ _ => exact ht.coherent
  | ask _ _ _ ih => exact ih
  | step _ hstep ih => exact (hstep.later laws ih).coherent

/-- A statement is visited exactly if it is emitted or will be. -/
theorem visited_iff (h : History sources asked c) (ref : StatementRef) :
    c.store.isVisited ref = true ↔ ref ∈ c.emitted ∨ .emit ref ∈ c.work := by
  induction h with
  | start => simp [Store.isVisited, Store.empty]
  | fetched _ _ hv ih => rwa [Store.isVisited, hv]
  | @ask _ item _ _ _ he ih => simpa [Ne.symm (he ref)] using ih
  | step _ hstep ih =>
    cases hstep with
    | skip h =>
      rw [h.isVisited_eq, ih, List.mem_cons]
      simp [Ne.symm (h.ne_emit ref)]
    | @emit emitted other rest s =>
      simp only [Store.isVisited_visit, Bool.or_eq_true, beq_iff_eq, ih, List.mem_append,
        List.mem_cons, WorkItem.emit.injEq, List.not_mem_nil]
      tauto
    | @enter emitted other rest s st hv hs =>
      simp only [Store.isVisited_visit, Bool.or_eq_true, beq_iff_eq, ih, List.mem_append,
        List.mem_cons, emit_mem_work, reduceCtorEq, false_or]
      tauto
    | need hr hv =>
      rw [isVisited_of_resolveName hr, ih]
      simp

/-- The statements that are visited and not emitted yet. -/
def pending (work : List WorkItem) : List StatementRef :=
  work.filterMap fun
    | .emit ref => some ref
    | _ => none

theorem mem_pending {work : List WorkItem} {ref : StatementRef} :
    ref ∈ pending work ↔ .emit ref ∈ work := by
  rw [pending, List.mem_filterMap]
  constructor
  · rintro ⟨item, hmem, hitem⟩
    cases item <;> simp_all
  · intro hmem
    exact ⟨_, hmem, rfl⟩

theorem pending_work (st : Statement) (ref : StatementRef) (rest : List WorkItem) :
    pending (st.work ref ++ rest) = ref :: pending rest := by
  rw [pending, Statement.work, List.append_assoc, List.filterMap_append]
  have hnames : ((st.dependsOn.map (WorkItem.define ref.moduleId)).filterMap fun
      | .emit ref => some ref
      | _ => none) = [] := by
    simp
  rw [hnames]
  rfl

/-- No statement is emitted twice. -/
theorem nodup (h : History sources asked c) : (c.emitted ++ pending c.work).Nodup := by
  induction h with
  | start => exact List.nodup_nil
  | fetched _ _ _ ih => exact ih
  | @ask _ item _ _ _ he ih =>
    cases item with
    | emit ref => exact absurd rfl (he ref)
    | expand ref => exact ih
    | define id name => exact ih
  | step hc hstep ih =>
    cases hstep with
    | @skip _ item _ _ _ h =>
      cases item with
      | emit ref => exact absurd rfl (h.ne_emit ref)
      | expand ref => exact ih
      | define id name => exact ih
    | @emit emitted ref rest s =>
      rw [List.append_assoc]
      exact ih
    | @enter emitted ref rest s st hv hs =>
      show (emitted ++ pending (st.work ref ++ rest)).Nodup
      have hnot : ref ∉ emitted ++ pending rest := by
        rw [List.mem_append, mem_pending]
        intro hmem
        have := (hc.visited_iff ref).2 (hmem.imp_right (List.mem_cons_of_mem _))
        rw [hv] at this
        cases this
      rw [pending_work]
      exact List.nodup_middle.2 (List.nodup_cons.2 ⟨hnot, ih⟩)
    | need hr hv => exact ih

/-- Statements that are visited, or will be unless they were asked for, are there. -/
theorem held (h : History sources asked c) (laws : sources.Lawful) (ref : StatementRef) :
    (c.store.isVisited ref = true → ∃ st, c.store.Holds ref st) ∧
      (.expand ref ∈ c.work → asked (.expand ref) ∨ ∃ st, c.store.Holds ref st) := by
  induction h with
  | start => exact ⟨fun hv => by simp [Store.isVisited, Store.empty] at hv, fun hw => by simp at hw⟩
  | @fetched emitted s t _ ht hv ih =>
    refine ⟨fun hr => ?_, fun hw => by simp at hw⟩
    rw [Store.isVisited, hv] at hr
    obtain ⟨st, hst⟩ := ih.1 hr
    exact ⟨st, hst.mono ht.extends_⟩
  | ask _ ha _ ih =>
    refine ⟨ih.1, fun hw => .inl ?_⟩
    rwa [List.mem_singleton.1 hw]
  | @step c d hc hstep ih =>
    have hcoherent := hc.coherent laws
    have hext := (hstep.later laws hcoherent).extends_
    have hold : (∃ st, c.store.Holds ref st) → ∃ st, d.store.Holds ref st := by
      rintro ⟨st, hst⟩
      exact ⟨st, hst.mono hext⟩
    cases hstep with
    | skip h =>
      rw [h.isVisited_eq]
      exact ⟨fun hv => hold (ih.1 hv),
        fun hw => (ih.2 (List.mem_cons_of_mem _ hw)).imp_right hold⟩
    | @emit emitted other rest s =>
      refine ⟨fun hv => ?_, fun hw => (ih.2 (List.mem_cons_of_mem _ hw)).imp_right hold⟩
      rw [Store.isVisited_visit, Bool.or_eq_true, beq_iff_eq] at hv
      rcases hv with rfl | hv
      · exact hold (ih.1 ((hc.visited_iff other).2 (.inr (.head _))))
      · exact hold (ih.1 hv)
    | @enter emitted other rest s st hv hs =>
      refine ⟨fun hv => ?_, fun hw => ?_⟩
      · rw [Store.isVisited_visit, Bool.or_eq_true, beq_iff_eq] at hv
        rcases hv with rfl | hv
        · exact ⟨st, hs⟩
        · exact hold (ih.1 hv)
      · rcases List.mem_append.1 hw with hw | hw
        · exact absurd hw (expand_mem_work st other ref)
        · exact (ih.2 (List.mem_cons_of_mem _ hw)).imp_right hold
    | @need emitted id name other rest s t hr hv =>
      rw [isVisited_of_resolveName hr]
      refine ⟨fun hv => hold (ih.1 hv), fun hw => ?_⟩
      rcases List.mem_cons.1 hw with hw | hw
      · cases hw
        exact .inr ((resolveName_later laws hcoherent hr).2 _ rfl)
      · exact (ih.2 (List.mem_cons_of_mem _ hw)).imp_right hold

end History

-- ---------------------------------------------------------------------------
-- What items are done for
-- ---------------------------------------------------------------------------

/-- An item belongs to what a statement, directly or not, depends on. -/
inductive Due (sources : Sources) (u : Store) (ref : StatementRef) : WorkItem → Prop
  | expand {other : StatementRef} (h : Relation.ReflTransGen (DependsOn sources u) ref other) :
    Due sources u ref (.expand other)
  | emit {other : StatementRef} (h : Relation.ReflTransGen (DependsOn sources u) ref other) :
    Due sources u ref (.emit other)
  | define {other : StatementRef} {name : String}
    (h : Relation.ReflTransGen (DependsOn sources u) ref other) (hn : u.Reads other name) :
    Due sources u ref (.define other.moduleId name)

namespace Due

variable {u : Store} {ref other : StatementRef}

theorem work {st : Statement} (h : Due sources u ref (.expand other)) (hs : u.Holds other st)
    {item : WorkItem} (hi : item ∈ st.work other) : Due sources u ref item := by
  cases h with
  | expand h =>
    cases item with
    | emit r =>
      obtain rfl := (emit_mem_work st other r).1 hi
      exact .emit h
    | expand r => exact absurd hi (expand_mem_work st other r)
    | define id name =>
      obtain ⟨rfl, hn⟩ := (define_mem_work st other id name).1 hi
      exact .define h ⟨st, hs, hn⟩

theorem need {id : Nat} {name : String} (h : Due sources u ref (.define id name))
    (hr : StandsFor sources u id name (some other)) : Due sources u ref (.expand other) := by
  cases h with
  | define h hn => exact .expand (h.tail ⟨name, hn, hr⟩)

end Due

theorem StandsFor.of_later {s t u : Store} (laws : sources.Lawful) (hs : s.Coherent sources)
    (hu : u.Coherent sources) {id : Nat} {name : String} {o : Option StatementRef}
    (hr : resolveName sources id name s = .ok o t) (htu : t.Extends u) :
    StandsFor sources u id name o := by
  obtain ⟨v, hv, -⟩ := resolveName_stable laws hs hu hr htu
  exact ⟨v, hv⟩

namespace History

variable {asked : WorkItem → Prop} {c : Progress}

/-- What is to be done before a statement is emitted, the statement depends on. -/
theorem serves (h : History sources asked c) (laws : sources.Lawful) {u : Store}
    (hu : u.Coherent sources) (hcu : c.store.Extends u) :
    c.work.Pairwise fun item after => ∀ ref, after = .emit ref → Due sources u ref item := by
  induction h with
  | start => exact .nil
  | fetched _ _ _ _ => exact .nil
  | ask _ _ _ _ => exact List.pairwise_singleton _ _
  | @step c d hc hstep ih =>
    have hcoherent := hc.coherent laws
    have hext := (hstep.later laws hcoherent).extends_
    have ih := ih (hext.trans hcu)
    cases hstep with
    | skip h => exact ih.of_cons
    | emit => exact ih.of_cons
    | @enter emitted other rest s st hv hs =>
      obtain ⟨hhead, hrest⟩ := List.pairwise_cons.1 ih
      refine List.pairwise_append.2 ⟨?_, hrest, fun item hi after ha ref hr => ?_⟩
      · -- the names are looked up for the statement itself
        refine List.pairwise_append.2 ⟨?_, List.pairwise_singleton _ _, ?_⟩
        · refine List.pairwise_map.2 (List.pairwise_of_forall fun a b ref hb => ?_)
          cases hb
        · intro item hi after ha ref hr
          obtain rfl : other = ref := by simpa [hr] using (List.mem_singleton.1 ha).symm
          exact (Due.expand .refl).work (hs.mono hcu) (List.mem_append_left _ hi)
      · exact (hhead after ha ref hr).work (hs.mono hcu) hi
    | @need emitted id name other rest s t hr hv =>
      obtain ⟨hhead, hrest⟩ := List.pairwise_cons.1 ih
      refine List.pairwise_cons.2 ⟨fun after ha ref he => ?_, hrest⟩
      exact (hhead after ha ref he).need (.of_later laws hcoherent hu hr hcu)

/-- All work is done for statements that were asked for. -/
theorem justified (h : History sources asked c) (laws : sources.Lawful)
    (hasked : ∀ item, asked item → ∃ ref, item = .expand ref) {u : Store}
    (hu : u.Coherent sources) (hcu : c.store.Extends u) :
    (∀ item ∈ c.work, ∃ root, asked (.expand root) ∧ Due sources u root item) ∧
      ∀ ref ∈ c.emitted, ∃ root, asked (.expand root) ∧
        Relation.ReflTransGen (DependsOn sources u) root ref := by
  induction h with
  | start => exact ⟨fun _ hi => absurd hi List.not_mem_nil, fun _ hr => absurd hr List.not_mem_nil⟩
  | fetched _ ht _ ih => exact ih (ht.extends_.trans hcu)
  | ask _ ha _ ih =>
    refine ⟨fun item hi => ?_, (ih hcu).2⟩
    obtain ⟨root, rfl⟩ := hasked _ ha
    rw [List.mem_singleton.1 hi]
    exact ⟨root, ha, .expand .refl⟩
  | @step c d hc hstep ih =>
    have hcoherent := hc.coherent laws
    obtain ⟨ihw, ihe⟩ := ih ((hstep.later laws hcoherent).extends_.trans hcu)
    cases hstep with
    | skip h => exact ⟨fun item hi => ihw item (.tail _ hi), ihe⟩
    | @emit emitted ref rest s =>
      refine ⟨fun item hi => ihw item (.tail _ hi), fun other ho => ?_⟩
      rcases List.mem_append.1 ho with ho | ho
      · exact ihe other ho
      · obtain rfl := List.mem_singleton.1 ho
        obtain ⟨root, ha, hdue⟩ := ihw _ (.head _)
        cases hdue with
        | emit h => exact ⟨root, ha, h⟩
    | @enter emitted other rest s st hv hs =>
      refine ⟨fun item hi => ?_, ihe⟩
      rcases List.mem_append.1 hi with hi | hi
      · obtain ⟨root, ha, hdue⟩ := ihw _ (.head _)
        exact ⟨root, ha, hdue.work (hs.mono hcu) hi⟩
      · exact ihw item (.tail _ hi)
    | @need emitted id name other rest s t hr hv =>
      refine ⟨fun item hi => ?_, ihe⟩
      rcases List.mem_cons.1 hi with rfl | hi
      · obtain ⟨root, ha, hdue⟩ := ihw _ (.head _)
        exact ⟨root, ha, hdue.need (.of_later laws hcoherent hu hr hcu)⟩
      · exact ihw item (.tail _ hi)

end History

-- ---------------------------------------------------------------------------
-- Names that were looked up
-- ---------------------------------------------------------------------------

/-- A name was looked up, and what it stands for was visited or is about to be. -/
def Settled (sources : Sources) (u s : Store) (before : List WorkItem) (id : Nat)
    (name : String) : Prop :=
  ∃ o, StandsFor sources u id name o ∧ ∀ other, o = some other →
    (∃ st, u.Holds other st) ∧ (.expand other ∈ before ∨ s.isVisited other = true)

theorem Settled.imp {u s t : Store} {before before' : List WorkItem} {id : Nat} {name : String}
    (h : Settled sources u s before id name)
    (himp : ∀ other st, u.Holds other st → .expand other ∈ before ∨ s.isVisited other = true →
      .expand other ∈ before' ∨ t.isVisited other = true) :
    Settled sources u t before' id name := by
  obtain ⟨o, ho, hvisit⟩ := h
  refine ⟨o, ho, fun other hother => ?_⟩
  obtain ⟨⟨st, hst⟩, hv⟩ := hvisit other hother
  exact ⟨⟨st, hst⟩, himp other st hst hv⟩

section

variable {u s t : Store} {before : List WorkItem} {id : Nat} {name : String}

/-- A name that was looked up is settled as soon as what it stands for was
visited or is about to be. -/
theorem Settled.of_resolveName (laws : sources.Lawful) (hs : s.Coherent sources)
    (hu : u.Coherent sources) {o : Option StatementRef}
    (hr : resolveName sources id name s = .ok o t) (htu : t.Extends u)
    (hv : ∀ other, o = some other → .expand other ∈ before ∨ t.isVisited other = true) :
    Settled sources u t before id name := by
  refine ⟨o, .of_later laws hs hu hr htu, fun other hother => ?_⟩
  obtain ⟨st, hst⟩ := (resolveName_later laws hs hr).2 other hother
  exact ⟨⟨st, hst.mono htu⟩, hv other hother⟩

theorem Idle.settled (h : Idle sources (.define id name) s t) (laws : sources.Lawful)
    (hs : s.Coherent sources) (hu : u.Coherent sources) (htu : t.Extends u) :
    Settled sources u t before id name := by
  cases h with
  | external hr => exact .of_resolveName laws hs hu hr htu nofun
  | known hr hv =>
    refine .of_resolveName laws hs hu hr htu fun other hother => .inr ?_
    rw [← Option.some.inj hother]
    exact hv

/-- An item that needs no more work was not what a name waited for. -/
theorem Settled.skip {item : WorkItem} (h : Settled sources u s (item :: before) id name)
    (hidle : Idle sources item s t) (htu : t.Extends u) :
    Settled sources u t before id name := by
  refine h.imp fun other st hst hv => ?_
  rw [hidle.isVisited_eq]
  rcases hv with hmem | hv
  · rcases List.mem_cons.1 hmem with rfl | hmem
    · cases hidle with
      | visited hv => exact .inr hv
      | absent hm hs =>
        obtain ⟨m, hm', hs'⟩ := hst
        rw [htu hm, Option.some.injEq] at hm'
        rw [← hm', hs] at hs'
        cases hs'
    · exact .inl hmem
  · exact .inr hv

theorem Settled.emit {ref : StatementRef}
    (h : Settled sources u s (.emit ref :: before) id name) :
    Settled sources u (s.visit ref .emitted) before id name := by
  refine h.imp fun other st _ hv => hv.imp ?_ fun hv => ?_
  · simp
  · rw [Store.isVisited_visit, hv, Bool.or_true]

theorem Settled.enter {ref : StatementRef} {work : List WorkItem}
    (h : Settled sources u s (.expand ref :: before) id name) :
    Settled sources u (s.visit ref .inProgress) (work ++ before) id name := by
  refine h.imp fun other _ _ hv => ?_
  rw [Store.isVisited_visit, Bool.or_eq_true, beq_iff_eq]
  rcases hv with hmem | hv
  · rcases List.mem_cons.1 hmem with hr | hmem
    · exact .inr (.inl (WorkItem.expand.inj hr).symm)
    · exact .inl (List.mem_append_right _ hmem)
  · exact .inr (.inr hv)

theorem Settled.need {id' : Nat} {name' : String} {ref : StatementRef}
    (h : Settled sources u s (.define id' name' :: before) id name)
    (hr : resolveName sources id' name' s = .ok (some ref) t) :
    Settled sources u t (.expand ref :: before) id name := by
  refine h.imp fun other _ _ hv => ?_
  rw [isVisited_of_resolveName hr]
  exact hv.imp_left fun hmem => List.mem_cons_of_mem _ (by simpa using hmem)

end

/-- Where the work of a statement can be cut at the emission of a statement. -/
theorem work_append_eq {st : Statement} {ref other : StatementRef}
    {rest before after : List WorkItem}
    (h : st.work other ++ rest = before ++ .emit ref :: after) :
    ref = other ∧ before = st.dependsOn.map (.define other.moduleId) ∨
      ∃ before', before = st.work other ++ before' ∧ rest = before' ++ .emit ref :: after := by
  rw [Statement.work, List.append_assoc] at h
  rcases List.append_eq_append_iff.1 h with ⟨tail, hbefore, htail⟩ | ⟨tail, hnames, htail⟩
  · cases tail with
    | nil => exact .inl ⟨(WorkItem.emit.inj (List.cons.inj htail).1).symm, by simpa using hbefore⟩
    | cons item tail =>
      obtain ⟨rfl, hrest⟩ := List.cons.inj htail
      exact .inr ⟨tail, by simpa [Statement.work] using hbefore, hrest⟩
  · cases tail with
    | nil => exact .inl ⟨WorkItem.emit.inj (List.cons.inj htail).1, by simpa using hnames.symm⟩
    | cons item tail =>
      -- only names come before the emission of the statement itself
      obtain ⟨rfl, -⟩ := List.cons.inj htail
      have hmem : WorkItem.emit ref ∈ st.dependsOn.map (.define other.moduleId) := by
        rw [hnames]
        exact List.mem_append_right _ (.head _)
      simp at hmem

namespace History

variable {asked : WorkItem → Prop} {c : Progress}

/-- When a statement is about to be emitted, each name that it depends on was
looked up or is about to be. -/
theorem settled (h : History sources asked c) (laws : sources.Lawful) {u : Store}
    (hu : u.Coherent sources) (hcu : c.store.Extends u) {before after : List WorkItem}
    {ref : StatementRef} (hw : c.work = before ++ .emit ref :: after) {name : String}
    (hn : u.Reads ref name) : .define ref.moduleId name ∈ before ∨
      Settled sources u c.store before ref.moduleId name := by
  induction h generalizing before with
  | start => simp at hw
  | fetched _ _ _ _ => simp at hw
  | ask _ _ he _ =>
    cases before with
    | nil => exact absurd (List.cons.inj hw).1 (he ref)
    | cons item before => simp at hw
  | @step c d hc hstep ih =>
    have hcoherent := hc.coherent laws
    have ih := @ih ((hstep.later laws hcoherent).extends_.trans hcu)
    cases hstep with
    | @skip emitted item rest s t h =>
      rcases @ih (item :: before) (congrArg (item :: ·) hw) with hmem | hset
      · rcases List.mem_cons.1 hmem with rfl | hmem
        · -- the name that was looked up just now
          exact .inr (h.settled laws hcoherent hu hcu)
        · exact .inl hmem
      · exact .inr (hset.skip h hcu)
    | @emit emitted other rest s =>
      rcases @ih (.emit other :: before) (congrArg (.emit other :: ·) hw) with hmem | hset
      · exact .inl (by simpa using hmem)
      · exact .inr hset.emit
    | @enter emitted other rest s st hv hs =>
      rcases work_append_eq hw with ⟨rfl, rfl⟩ | ⟨before', rfl, hrest⟩
      · -- the statement that was entered just now
        obtain ⟨st', hst', hn⟩ := hn
        rw [(hs.mono hcu).unique hst']
        exact .inl (List.mem_map_of_mem hn)
      · rcases @ih (.expand other :: before') (congrArg (.expand other :: ·) hrest) with
          hmem | hset
        · exact .inl (List.mem_append_right _ (by simpa using hmem))
        · exact .inr hset.enter
    | @need emitted id name' other rest s t hr hv =>
      cases before with
      | nil => cases (List.cons.inj hw).1
      | cons item before =>
        obtain ⟨rfl, hrest⟩ := List.cons.inj hw
        rcases @ih (.define id name' :: before) (congrArg (.define id name' :: ·) hrest) with
          hmem | hset
        · rcases List.mem_cons.1 hmem with hd | hmem
          · obtain ⟨hid, rfl⟩ := WorkItem.define.inj hd
            rw [hid]
            refine .inr (.of_resolveName laws hcoherent hu hr hcu fun dep hdep => .inl ?_)
            rw [Option.some.inj hdep]
            exact .head _
          · exact .inl (.tail _ hmem)
        · exact .inr (hset.need hr)

/-- What an emitted statement depends on was visited before it was emitted, and
so is emitted before it unless it depends on it in turn. -/
theorem done (h : History sources asked c) (laws : sources.Lawful) {u : Store}
    (hu : u.Coherent sources) (hcu : c.store.Extends u) {before after : List StatementRef}
    {ref : StatementRef} (he : c.emitted = before ++ ref :: after) {name : String}
    (hn : u.Reads ref name) :
    ∃ o, StandsFor sources u ref.moduleId name o ∧ ∀ other, o = some other →
      c.store.isVisited other = true ∧ (other ≠ ref →
        other ∈ before ∨ Relation.TransGen (DependsOn sources u) other ref) := by
  induction h generalizing after with
  | start => simp at he
  | @fetched emitted s t _ ht hv ih =>
    have hvisited : t.isVisited = s.isVisited := by
      funext other
      rw [Store.isVisited, hv, Store.isVisited]
    show ∃ o, _ ∧ ∀ other, _ → t.isVisited other = true ∧ _
    rw [hvisited]
    exact ih (ht.extends_.trans hcu) he
  | ask _ _ _ ih => exact ih hcu he
  | @step c d hc hstep ih =>
    have hext := ((hstep.later laws (hc.coherent laws)).extends_.trans hcu)
    -- what holds of statements that were emitted earlier goes on to hold
    have hkeep : ∀ {after}, c.emitted = before ++ ref :: after →
        ∃ o, StandsFor sources u ref.moduleId name o ∧ ∀ other, o = some other →
          d.store.isVisited other = true ∧ (other ≠ ref →
            other ∈ before ∨ Relation.TransGen (DependsOn sources u) other ref) := by
      intro after he
      obtain ⟨o, ho, hvisit⟩ := ih hext he
      exact ⟨o, ho, fun other hother => (hvisit other hother).imp_left hstep.isVisited⟩
    cases hstep with
    | skip h => exact hkeep he
    | enter hv hs => exact hkeep he
    | need hr hv => exact hkeep he
    | @emit emitted other rest s =>
      rcases List.eq_nil_or_concat after with rfl | ⟨init, last, rfl⟩
      · obtain ⟨rfl, hlast⟩ := List.append_inj' he rfl
        obtain rfl : other = ref := (List.cons.inj hlast).1
        have hcoherent := hc.coherent laws
        rcases @settled _ _ _ hc laws _ hu hcu [] _ _ rfl _ hn with hmem | ⟨o, ho, hvisit⟩
        · exact absurd hmem List.not_mem_nil
        · refine ⟨o, ho, fun dep hdep => ?_⟩
          obtain ⟨-, hv⟩ := hvisit dep hdep
          have hv := hv.resolve_left List.not_mem_nil
          refine ⟨by rw [Store.isVisited_visit, hv, Bool.or_true], fun hne => ?_⟩
          rcases (hc.visited_iff dep).1 hv with hmem | hmem
          · exact .inl hmem
          · -- the other statement waits for this one
            have hrest := (List.mem_cons.1 hmem).resolve_left fun h => hne (WorkItem.emit.inj h)
            have hdue := (List.pairwise_cons.1 (hc.serves laws hu hcu)).1 _ hrest dep rfl
            cases hdue with
            | emit h => exact .inr ((Relation.reflTransGen_iff_eq_or_transGen.1 h).resolve_left
                (Ne.symm hne))
      · rw [List.concat_eq_append, ← List.cons_append, ← List.append_assoc] at he
        exact hkeep (List.append_inj' he rfl).1

end History

end ModuleBundler

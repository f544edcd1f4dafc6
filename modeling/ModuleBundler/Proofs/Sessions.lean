import ModuleBundler.Proofs.Order
import ModuleBundler.Proofs.Replay

/-!
# ModuleBundler — a bundler in use

A bundler is asked for one thing after the other, and goes on after a request
that failed. What a failed request visited stays visited, so it is not returned
by that request and by no later one. What is returned is returned once.

* `Request`, `Reply`, `serve` — requests and what they are answered with.
* `Accounted` — the invariant: what was returned, and what is about to be, is
  visited, held by the store and no statement twice.
* `Accounted.step` — a step of expansion keeps it.
* `Accounts` — calls that keep it, whether they succeed or fail.
* `returned_once` — what holds of all that is returned.
-/

namespace ModuleBundler

variable {sources : Sources}

-- ---------------------------------------------------------------------------
-- Requests
-- ---------------------------------------------------------------------------

/-- What a bundler can be asked for. -/
inductive Request where
  /-- Fetches a file, by its path or as it is named in an importing file. -/
  | fetch (importee : String) (importer : Option Path)
  | define (moduleId : Nat) (name : String)
  | expand (statement : StatementRef)
  | expandAll (moduleId : Nat)
  | generate (statements : List StatementRef)
  | build (entry : Path)
  deriving Inhabited

/-- What a request is answered with. -/
inductive Reply where
  | moduleId (id : Nat)
  | statements (refs : Array StatementRef)
  | code (text : String)
  | failure (e : BuildError)

/-- The statements that are returned. -/
def Reply.refs : Reply → List StatementRef
  | .statements refs => refs.toList
  | .moduleId _ | .code _ | .failure _ => []

/-- What is done for a request. -/
def Request.perform (sources : Sources) : Request → Bundling Reply
  | .fetch importee none => do return .moduleId (← ModuleBundler.fetch sources (.ofText importee))
  | .fetch importee (some importer) => do return .moduleId (← fetchFrom sources importer importee)
  | .define id name => do return .statements (← ModuleBundler.define sources id name)
  | .expand ref => do return .statements (← ModuleBundler.expand sources ref)
  | .expandAll id => do return .statements (← ModuleBundler.expandAll sources id)
  | .generate refs => do return .code (← ModuleBundler.generate refs)
  | .build entry => do return .code (← ModuleBundler.build sources entry)

/-- The reply to a request, and the store that is left. -/
def Request.answer (sources : Sources) (request : Request) (s : Store) : Reply × Store :=
  match request.perform sources s with
  | .ok reply t => (reply, t)
  | .error e t => (.failure e, t)

/-- The replies to requests, one after the other, and the store that is left. -/
def serve (sources : Sources) : List Request → Store → List Reply × Store
  | [], s => ([], s)
  | request :: rest, s =>
    let first := request.answer sources s
    let others := serve sources rest first.2
    (first.1 :: others.1, others.2)

/-- The statements that are returned for requests, one after the other. -/
def returned (sources : Sources) (requests : List Request) (s : Store) : List StatementRef :=
  (serve sources requests s).1.flatMap Reply.refs

-- ---------------------------------------------------------------------------
-- The invariant
-- ---------------------------------------------------------------------------

/-- The statements of a state, emitted or about to be, are visited, and no statement
is there twice. What is visited the store holds. The statements in progress are
those about to be emitted and some that are given up. -/
structure Accounted (lost : List StatementRef) (c : Progress) : Prop where
  nodup : (c.emitted ++ History.pending c.work).Nodup
  visited : ∀ ref ∈ c.emitted ++ History.pending c.work, c.store.isVisited ref = true
  held : ∀ ref, c.store.isVisited ref = true → ∃ st, c.store.Holds ref st
  inProgress : ∀ ref, c.store.visits[ref]? = some .inProgress →
    ref ∈ lost ∨ ref ∈ History.pending c.work

theorem Store.Continues.extends_ {capacity : Nat} {s t : Store} (h : s.Continues capacity t) :
    s.Extends t :=
  fun _ _ hm => h.get hm

theorem Idle.grows {item : WorkItem} {s t : Store} (h : Idle sources item s t) :
    Store.Grows sources.capacity s t := by
  cases h with
  | visited hv => exact .refl s
  | absent hm hs => exact .refl s
  | external hr => exact (Bundling.OnlyFetches.resolveName ..).grows_of_ok hr
  | known hr hv => exact (Bundling.OnlyFetches.resolveName ..).grows_of_ok hr

theorem Store.getElem?_visits_visit (s : Store) (ref other : StatementRef) (v : Visit) :
    (s.visit ref v).visits[other]? = if ref = other then some v else s.visits[other]? := by
  rw [visit, Std.HashMap.getElem?_insert]
  simp only [beq_iff_eq]

namespace Accounted

variable {lost : List StatementRef} {c d : Progress} {emitted : List StatementRef}
  {work : List WorkItem} {s t : Store}

/-- Modules may be fetched, and items be added or left out that emit nothing. -/
theorem grow (h : Accounted lost ⟨emitted, work, s⟩) {capacity : Nat}
    (hg : Store.Grows capacity s t) {work' : List WorkItem}
    (hw : History.pending work' = History.pending work) :
    Accounted lost ⟨emitted, work', t⟩ := by
  refine ⟨?_, fun ref hr => ?_, fun ref hr => ?_, fun ref hr => ?_⟩
  · exact hw ▸ h.nodup
  · have hv := h.visited ref (hw ▸ hr)
    rwa [Store.isVisited, hg.visits_eq]
  · rw [Store.isVisited, hg.visits_eq] at hr
    obtain ⟨st, hst⟩ := h.held ref hr
    exact ⟨st, hst.mono hg.continues.extends_⟩
  · rw [hg.visits_eq] at hr
    exact hw ▸ h.inProgress ref hr

theorem withWork (h : Accounted lost ⟨emitted, work, s⟩) {work' : List WorkItem}
    (hw : History.pending work' = History.pending work) : Accounted lost ⟨emitted, work', s⟩ :=
  h.grow (Store.Grows.refl s : Store.Grows 0 s s) hw

/-- A statement that is about to be emitted is emitted. -/
theorem emit {ref : StatementRef} (h : Accounted lost ⟨emitted, .emit ref :: work, s⟩) :
    Accounted lost ⟨emitted ++ [ref], work, s.visit ref .emitted⟩ := by
  have hmem : ∀ other, other ∈ (emitted ++ [ref]) ++ History.pending work ↔
      other ∈ emitted ++ History.pending (.emit ref :: work) := by
    intro other
    rw [List.append_assoc]
    exact Iff.rfl
  refine ⟨?_, fun other ho => ?_, fun other ho => ?_, fun other ho => ?_⟩
  · rw [List.append_assoc]
    exact h.nodup
  · rw [Store.isVisited_visit, h.visited other ((hmem other).1 ho), Bool.or_true]
  · rw [Store.isVisited_visit, Bool.or_eq_true, beq_iff_eq] at ho
    rcases ho with rfl | ho
    · exact h.held _ (h.visited _ (List.mem_append_right _ (.head _)))
    · exact h.held other ho
  · rw [Store.getElem?_visits_visit] at ho
    split at ho
    · cases ho
    · rename_i hne
      refine (h.inProgress other ho).imp_right fun hp => ?_
      exact (List.mem_cons.1 hp).resolve_left (Ne.symm hne)

/-- A statement that was not visited is about to be emitted. -/
theorem enter {ref : StatementRef} {st : Statement} (h : Accounted lost ⟨emitted, work, s⟩)
    (hv : s.isVisited ref = false) (hs : s.Holds ref st) :
    Accounted lost ⟨emitted, st.work ref ++ work, s.visit ref .inProgress⟩ := by
  have hnot : ref ∉ emitted ++ History.pending work := by
    intro hmem
    rw [h.visited ref hmem] at hv
    cases hv
  have hmem : ∀ other, other ∈ emitted ++ History.pending (st.work ref ++ work) ↔
      other = ref ∨ other ∈ emitted ++ History.pending work := by
    intro other
    rw [History.pending_work]
    simp only [List.mem_append, List.mem_cons]
    tauto
  refine ⟨?_, fun other ho => ?_, fun other ho => ?_, fun other ho => ?_⟩
  · rw [History.pending_work]
    exact List.nodup_middle.2 (List.nodup_cons.2 ⟨hnot, h.nodup⟩)
  · rw [Store.isVisited_visit]
    rcases (hmem other).1 ho with rfl | ho
    · simp
    · rw [h.visited other ho, Bool.or_true]
  · rw [Store.isVisited_visit, Bool.or_eq_true, beq_iff_eq] at ho
    rcases ho with rfl | ho
    · exact ⟨st, hs⟩
    · exact h.held other ho
  · rw [History.pending_work]
    rw [Store.getElem?_visits_visit] at ho
    split at ho
    · exact .inr (List.mem_cons.2 (.inl (Eq.symm ‹_›)))
    · exact (h.inProgress other ho).imp_right (List.mem_cons_of_mem _)

/-- A step of expansion keeps the invariant. -/
theorem step (h : Accounted lost c) (hstep : Step sources c d) : Accounted lost d := by
  cases hstep with
  | @skip emitted item rest s t hidle =>
    refine h.grow hidle.grows ?_
    cases item with
    | emit ref => exact absurd rfl (hidle.ne_emit ref)
    | expand ref => rfl
    | define id name => rfl
  | emit => exact h.emit
  | @enter emitted ref rest s st hv hs =>
    have hrest : Accounted lost ⟨emitted, rest, s⟩ := h.withWork rfl
    exact hrest.enter hv hs
  | need hr hv => exact h.grow ((Bundling.OnlyFetches.resolveName ..).grows_of_ok hr) rfl

theorem steps (h : Accounted lost c) (hs : Steps sources c d) : Accounted lost d := by
  induction hs with
  | refl => exact h
  | tail _ hstep ih => exact ih.step hstep

/-- What was emitted may be forgotten in part, and all work be given up. -/
theorem giveUp (h : Accounted lost ⟨emitted, work, s⟩) {kept : List StatementRef}
    (hkept : kept.Sublist emitted) :
    Accounted (lost ++ History.pending work) ⟨kept, [], s⟩ := by
  have hsub : kept.Sublist (emitted ++ History.pending work) :=
    hkept.trans (List.sublist_append_left _ _)
  have hnil : kept ++ History.pending [] = kept := List.append_nil kept
  refine ⟨?_, fun ref hr => ?_, fun ref hr => ?_, fun ref hr => ?_⟩
  · rw [hnil]
    exact hsub.nodup h.nodup
  · exact h.visited ref (hsub.subset (hnil ▸ hr))
  · exact h.held ref hr
  · exact .inl (List.mem_append.2 (h.inProgress ref hr))

end Accounted

/-- What was emitted stays emitted. -/
theorem Steps.emitted_prefix {c d : Progress} (h : Steps sources c d) :
    c.emitted <+: d.emitted := by
  induction h with
  | refl => exact List.prefix_rfl
  | tail _ hstep ih =>
    cases hstep with
    | skip _ => exact ih
    | emit => exact ih.trans (List.prefix_append _ _)
    | enter _ _ => exact ih
    | need _ _ => exact ih

-- ---------------------------------------------------------------------------
-- Calls
-- ---------------------------------------------------------------------------

/-- A call that keeps account: of the statements that it returns if it succeeds, and
of what was returned before if it fails. -/
structure Accounts {α : Type} (x : Bundling α) (refs : α → List StatementRef) : Prop where
  ok : ∀ {lost before : List StatementRef} {s u : Store} {a : α}, x s = .ok a u →
    Accounted lost ⟨before, [], s⟩ → Accounted lost ⟨before ++ refs a, [], u⟩
  error : ∀ {lost before : List StatementRef} {s u : Store} {e : BuildError}, x s = .error e u →
    Accounted lost ⟨before, [], s⟩ → ∃ lost', Accounted lost' ⟨before, [], u⟩

namespace Accounts

variable {α β : Type} {x : Bundling α} {refs : α → List StatementRef}

theorem of_onlyFetches {capacity : Nat} (h : Bundling.OnlyFetches capacity x) :
    Accounts x fun _ => [] where
  ok {lost before s u a} hx hs := by
    rw [List.append_nil]
    exact hs.grow (h.grows_of_ok hx) rfl
  error {lost before s u e} hx hs := by
    have hg := h.grows s
    rw [Bundling.storeAfter, hx] at hg
    exact ⟨lost, hs.grow hg rfl⟩

/-- Nothing is returned before the last part of a call. -/
theorem bind (hx : Accounts x fun _ => []) {f : α → Bundling β} {last : β → List StatementRef}
    (hf : ∀ a, Accounts (f a) last) : Accounts (x >>= f) last where
  ok h hs := by
    obtain ⟨a, t, ha, hb⟩ := Bundling.bind_eq_ok.1 h
    have ht := hx.ok ha hs
    rw [List.append_nil] at ht
    exact (hf a).ok hb ht
  error h hs := by
    rcases Bundling.bind_eq_error.1 h with he | ⟨a, t, ha, he⟩
    · exact hx.error he hs
    · have ht := hx.ok ha hs
      rw [List.append_nil] at ht
      exact (hf a).error he ht

theorem map (hx : Accounts x refs) {g : α → β} {last : β → List StatementRef}
    (hg : ∀ a, last (g a) = refs a) : Accounts (do return g (← x)) last where
  ok h hs := by
    obtain ⟨a, t, ha, hb⟩ := Bundling.bind_eq_ok.1 h
    cases hb
    rw [hg]
    exact hx.ok ha hs
  error h hs := by
    rcases Bundling.bind_eq_error.1 h with he | ⟨a, t, -, he⟩
    · exact hx.error he hs
    · cases he

/-- What is returned need not be passed on. -/
theorem forget (hx : Accounts x refs) : Accounts x fun _ => [] where
  ok {lost before s u a} h hs := by
    rw [List.append_nil]
    have hgive := (hx.ok h hs).giveUp (List.sublist_append_left before (refs a))
    rwa [show lost ++ History.pending [] = lost from List.append_nil lost] at hgive
  error := hx.error

theorem run {item : WorkItem} (hitem : ∀ ref, item ≠ .emit ref) :
    Accounts (ModuleBundler.run sources #[] [item]) Array.toList := by
  have hstart : ∀ {lost before s}, Accounted lost ⟨before, [], s⟩ →
      Accounted lost ⟨before, [item], s⟩ := by
    intro lost before s hs
    refine hs.withWork ?_
    cases item with
    | emit ref => exact absurd rfl (hitem ref)
    | expand ref => rfl
    | define id name => rfl
  constructor
  · intro lost before s u out h hs
    exact (hstart hs).steps (steps_of_run h)
  · intro lost before s u e h hs
    obtain ⟨c, hsteps, hstuck⟩ :
        ∃ c, Steps sources ⟨before, [item], s⟩ c ∧ Stuck sources c e u := stuck_of_run h
    have hc := (hstart hs).steps hsteps
    have hprefix := hsteps.emitted_prefix
    cases hstuck with
    | @unresolved emitted id name rest s' t e hr =>
      have hgrows := (Bundling.OnlyFetches.resolveName sources id name).grows s'
      rw [Bundling.storeAfter, hr] at hgrows
      exact ⟨_, (hc.grow hgrows rfl).giveUp hprefix.sublist⟩
    | noModule hm => exact ⟨_, hc.giveUp hprefix.sublist⟩

theorem define (id : Nat) (name : String) :
    Accounts (ModuleBundler.define sources id name) Array.toList :=
  run fun _ => WorkItem.noConfusion

theorem expand (ref : StatementRef) : Accounts (ModuleBundler.expand sources ref) Array.toList :=
  run fun _ => WorkItem.noConfusion

theorem mapM (list : List StatementRef) :
    Accounts (list.mapM (ModuleBundler.expand sources)) fun parts =>
      parts.flatMap Array.toList := by
  induction list with
  | nil =>
    rw [List.mapM_nil]
    constructor
    · intro lost before s u parts h hs
      cases h
      rw [List.flatMap_nil, List.append_nil]
      exact hs
    · intro lost before s u e h
      cases h
  | cons ref list ih =>
    rw [List.mapM_cons]
    constructor
    · intro lost before s u parts h hs
      obtain ⟨out, t, hout, h⟩ := Bundling.bind_eq_ok.1 h
      obtain ⟨rest, v, hrest, h⟩ := Bundling.bind_eq_ok.1 h
      cases h
      have hu := ih.ok hrest ((expand ref).ok hout hs)
      rwa [List.append_assoc] at hu
    · intro lost before s u e h hs
      rcases Bundling.bind_eq_error.1 h with he | ⟨out, t, hout, h⟩
      · exact (expand ref).error he hs
      · rcases Bundling.bind_eq_error.1 h with he | ⟨rest, v, -, h⟩
        · -- the statements of the parts before are lost with this one
          obtain ⟨lost', hu⟩ := ih.error he ((expand ref).ok hout hs)
          exact ⟨_, hu.giveUp (List.sublist_append_left before out.toList)⟩
        · cases h

theorem expandAll (id : Nat) :
    Accounts (ModuleBundler.expandAll sources id) Array.toList := by
  have hat : Bundling.OnlyFetches 0 (moduleAt id) := .moduleAt id
  refine (of_onlyFetches hat).bind fun m => (mapM _).map ?_
  intro parts
  rw [toList_foldl_append]
  rfl

end Accounts

theorem Accounts.build (entry : Path) :
    Accounts (ModuleBundler.build sources entry) fun _ => [] :=
  (Accounts.of_onlyFetches (.fetch sources entry)).bind fun id =>
    (Accounts.expandAll id).forget.bind fun refs =>
      have hgenerate : Repeatable 0 (ModuleBundler.generate refs.toList) := .generate _
      .of_onlyFetches hgenerate.toOnlyFetches

theorem Accounts.perform (request : Request) : Accounts (request.perform sources) Reply.refs := by
  cases request with
  | fetch importee importer =>
    cases importer with
    | none => exact (Accounts.of_onlyFetches (.fetch sources _)).map fun _ => rfl
    | some importer => exact (Accounts.of_onlyFetches (.fetchFrom sources ..)).map fun _ => rfl
  | define id name => exact (Accounts.define id name).map fun _ => rfl
  | expand ref => exact (Accounts.expand ref).map fun _ => rfl
  | expandAll id => exact (Accounts.expandAll id).map fun _ => rfl
  | generate refs =>
    have hgenerate : Repeatable 0 (ModuleBundler.generate refs) := .generate _
    exact (Accounts.of_onlyFetches hgenerate.toOnlyFetches).map fun _ => rfl
  | build entry => exact (Accounts.build entry).map fun _ => rfl

-- ---------------------------------------------------------------------------
-- Sessions
-- ---------------------------------------------------------------------------

/-- A reply reports a failure. -/
def Reply.IsFailure (reply : Reply) : Prop := ∃ e, reply = .failure e

/-- A request keeps account, and gives statements up only if it fails. -/
theorem Accounted.answer {lost before : List StatementRef} {s : Store}
    (h : Accounted lost ⟨before, [], s⟩) (sources : Sources) (request : Request) :
    ∃ lost', Accounted lost' ⟨before ++ (request.answer sources s).1.refs, [],
        (request.answer sources s).2⟩ ∧
      (¬ (request.answer sources s).1.IsFailure → lost' = lost) := by
  rw [Request.answer]
  cases hr : request.perform sources s with
  | ok reply t => exact ⟨lost, (Accounts.perform request).ok hr h, fun _ => rfl⟩
  | error e t =>
    obtain ⟨lost', ht⟩ := (Accounts.perform request).error hr h
    refine ⟨lost', ?_, fun hf => absurd ⟨e, rfl⟩ hf⟩
    rwa [show before ++ (Reply.failure e).refs = before from List.append_nil before]

/-- A session keeps account. -/
theorem Accounted.serve {lost before : List StatementRef} {s : Store}
    (h : Accounted lost ⟨before, [], s⟩) (sources : Sources) (requests : List Request) :
    ∃ lost', Accounted lost' ⟨before ++ returned sources requests s, [],
        (ModuleBundler.serve sources requests s).2⟩ ∧
      ((∀ reply ∈ (ModuleBundler.serve sources requests s).1, ¬ reply.IsFailure) →
        lost' = lost) := by
  induction requests generalizing lost before s with
  | nil =>
    refine ⟨lost, ?_, fun _ => rfl⟩
    rwa [show before ++ returned sources [] s = before from List.append_nil before]
  | cons request rest ih =>
    obtain ⟨lost', ht, hlost⟩ := h.answer sources request
    obtain ⟨lost'', hu, hlost'⟩ := ih ht
    refine ⟨lost'', ?_, fun hall => ?_⟩
    · rw [List.append_assoc] at hu
      exact hu
    · rw [hlost' fun reply hr => hall reply (.tail _ hr), hlost (hall _ (.head _))]

theorem Accounted.empty : Accounted [] ⟨[], [], .empty⟩ :=
  ⟨List.nodup_nil, fun _ hr => absurd hr List.not_mem_nil,
    fun ref hr => by simp [Store.isVisited, Store.empty] at hr,
    fun ref hr => by simp [Store.empty] at hr⟩

/-- Whatever a bundler is asked for, in any order and whatever fails, it returns no
statement twice, and only statements of modules that it keeps. If nothing failed,
no statement is left in progress. -/
theorem returned_once (sources : Sources) (requests : List Request) :
    (returned sources requests .empty).Nodup ∧
      (∀ ref ∈ returned sources requests .empty,
        ∃ st, (serve sources requests .empty).2.Holds ref st) ∧
      ((∀ reply ∈ (serve sources requests .empty).1, ¬ reply.IsFailure) →
        ∀ ref : StatementRef,
          (serve sources requests .empty).2.visits[ref]? ≠ some Visit.inProgress) := by
  obtain ⟨lost, h, hlost⟩ := Accounted.empty.serve sources requests
  refine ⟨?_, fun ref hr => ?_, fun hall ref hv => ?_⟩
  · exact (List.nodup_append.1 h.nodup).1
  · exact h.held ref (h.visited ref (List.mem_append_left _ hr))
  · obtain rfl := hlost hall
    rcases h.inProgress ref hv with hmem | hmem
    · exact List.not_mem_nil hmem
    · exact List.not_mem_nil hmem

/-- A file with one call of a function that no module defines. -/
def oneCall : FileTable := ⟨[(.ofText "a.js", .holds "f();\n")]⟩

/-- The module of the file. -/
def oneCallModule : Module :=
  (oneCall.sources.moduleOf (.ofText "a.js")).toOption.getD default

theorem moduleOf_oneCall : oneCall.sources.moduleOf (.ofText "a.js") = .ok oneCallModule :=
  eq_ok_of_isOk (by decide +kernel)

theorem returned_once_oneCall :
    returned oneCall.sources [.fetch "a.js" none, .expand ⟨0, 0⟩, .expand ⟨0, 0⟩] .empty =
        [⟨0, 0⟩] ∧
      (∀ reply ∈ (serve oneCall.sources [.fetch "a.js" none, .expand ⟨0, 0⟩, .expand ⟨0, 0⟩]
        .empty).1, ¬ reply.IsFailure) ∧
      ∀ ref : StatementRef, (serve oneCall.sources
        [.fetch "a.js" none, .expand ⟨0, 0⟩, .expand ⟨0, 0⟩]
        .empty).2.visits[ref]? ≠ some Visit.inProgress := by
  have hfetch := fetch_empty moduleOf_oneCall (by decide)
  generalize hs : (Store.empty.logRead (.ofText "a.js")).add oneCallModule = s at hfetch
  have hm : s.modules[0]? = some oneCallModule := by
    rw [← hs]
    simp [Store.add, Store.logRead, Store.empty]
  have hv : ∀ ref, s.isVisited ref = false := by
    intro ref
    rw [← hs]
    simp [Store.isVisited, Store.add, Store.logRead, Store.empty]
  obtain ⟨st, hst, hnames⟩ : ∃ st, oneCallModule.statement? 0 = some st ∧ st.dependsOn = ["f"] :=
    Option.map_eq_some_iff.1 (show (oneCallModule.statement? 0).map Statement.dependsOn = some ["f"]
      by decide +kernel)
  have hexternal : ∀ {t : Store}, t.modules = s.modules →
      resolveName oneCall.sources 0 "f" t = .ok none t := fun ht =>
    resolveName_external (by rw [ht, hm]) (by decide +kernel) (by decide +kernel)
  -- the call is expanded once, and found visited when it is asked for again
  have hsteps : Steps oneCall.sources ⟨[], [.expand ⟨0, 0⟩], s⟩
      ⟨[⟨0, 0⟩], [], (s.visit ⟨0, 0⟩ .inProgress).visit ⟨0, 0⟩ .emitted⟩ := by
    refine .head (.enter (hv _) ⟨_, hm, hst⟩) ?_
    rw [Statement.work, hnames]
    exact .head (.skip (.external (hexternal rfl))) (.head .emit .refl)
  have hagain : ∀ {t : Store}, t.isVisited ⟨0, 0⟩ = true →
      Steps oneCall.sources ⟨[], [.expand ⟨0, 0⟩], t⟩ ⟨[], [], t⟩ := fun ht =>
    .head (.skip (.visited ht)) .refl
  have hserve : (serve oneCall.sources [.fetch "a.js" none, .expand ⟨0, 0⟩, .expand ⟨0, 0⟩]
      .empty).1 = [.moduleId 0, .statements #[⟨0, 0⟩], .statements #[]] := by
    have hfirst := run_of_steps hsteps
    have hsecond := run_of_steps (hagain (t := (s.visit ⟨0, 0⟩ .inProgress).visit ⟨0, 0⟩ .emitted)
      (by simp))
    simp only [serve, Request.answer, Request.perform, Bind.bind, EStateM.bind, hfetch]
    simp only [pure, EStateM.pure, expand, hfirst, hsecond]
  have hnone : ∀ reply ∈ (serve oneCall.sources
      [.fetch "a.js" none, .expand ⟨0, 0⟩, .expand ⟨0, 0⟩] .empty).1, ¬ reply.IsFailure := by
    rw [hserve]
    simp [Reply.IsFailure]
  refine ⟨?_, hnone, (returned_once oneCall.sources _).2.2 hnone⟩
  rw [returned, hserve]
  rfl

end ModuleBundler

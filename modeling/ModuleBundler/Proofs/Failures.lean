import ModuleBundler.Proofs.Chains
import ModuleBundler.Proofs.Sessions
import ModuleBundler.Proofs.Shaking

/-!
# ModuleBundler — what a failure leaves behind

A request that fails leaves the statements that it went into visited. It undoes
nothing, so only a request that is refused at its start leaves the visits as they
were. After any other failure some statement is visited that was not visited
before, although no request returned it or ever will. To ask again for the same
statement or name is of no use: nothing fails any more, and nothing is returned.

* `Request.Refused` — the request fails before anything is visited for it.
* `expand_error` — expansion that fails either finds no module or visits.
* `Request.refused_again` — a refused request leaves the visits alone, and is
  refused again.
* `Request.exists_visited` — any other request that fails visits a statement.
* `failure_keeps_visits_iff_refused` — all of this for every request at any time.
-/

namespace ModuleBundler

variable {sources : Sources}

-- ---------------------------------------------------------------------------
-- Refused requests
-- ---------------------------------------------------------------------------

/-- The request fails before anything is visited for it. -/
def Request.Refused (sources : Sources) (s : Store) : Request → Prop
  | .define id name => ∃ e t, resolveName sources id name s = .error e t
  | .expand ref => s.modules[ref.moduleId]? = none
  | .expandAll id => s.modules[id]? = none
  | .build entry => ∃ e t, ModuleBundler.fetch sources entry s = .error e t
  -- nothing is ever visited for the others
  | .fetch _ _ | .generate _ => True

section

variable {α β : Type} {x : Bundling α} {g : α → β} {s u : Store} {e : BuildError}

theorem Bundling.map_eq_error : (do return g (← x)) s = .error e u ↔ x s = .error e u := by
  rw [bind_eq_error]
  constructor
  · rintro (h | ⟨a, t, -, h⟩)
    · exact h
    · cases h
  · exact .inl

end

theorem Store.isVisited_congr {s t : Store} (h : t.visits = s.visits) :
    t.isVisited = s.isVisited := by
  funext ref
  rw [isVisited, isVisited, h]

theorem expand_of_isVisited {ref : StatementRef} {s : Store} (hv : s.isVisited ref = true) :
    expand sources ref s = .ok #[] s := by
  rw [expand, run, dif_pos hv, run]

theorem expand_of_noModule {ref : StatementRef} {s : Store} (hv : s.isVisited ref = false)
    (hm : s.modules[ref.moduleId]? = none) :
    expand sources ref s = .error (.noSuchModule ref.moduleId) s := by
  rw [expand, run, dif_neg (by simp [hv])]
  split
  · rfl
  · simp_all

theorem expandAll_of_noModule {id : Nat} {s : Store} (hm : s.modules[id]? = none) :
    expandAll sources id s = .error (.noSuchModule id) s :=
  Bundling.bind_eq_error.2 (.inl (moduleAt_eq_error.2 ⟨hm, rfl, rfl⟩))

theorem define_of_isVisited {id : Nat} {name : String} {ref : StatementRef} {s u : Store}
    (h : resolveName sources id name s = .ok (some ref) u) (hv : u.isVisited ref = true) :
    define sources id name s = .ok #[] u := by
  have hidle : Step sources ⟨(#[] : Array StatementRef).toList, [.define id name], s⟩
      ⟨(#[] : Array StatementRef).toList, [], u⟩ := .skip (.known h hv)
  rw [define, hidle.run_eq, run]

theorem run_of_error {emitted : Array StatementRef} {id : Nat} {name : String}
    {rest : List WorkItem} {s u : Store} {e : BuildError}
    (h : resolveName sources id name s = .error e u) :
    run sources emitted (.define id name :: rest) s = .error e u := by
  rw [run]
  split <;> simp_all

-- ---------------------------------------------------------------------------
-- What a failed expansion visits
-- ---------------------------------------------------------------------------

/-- Where work gets stuck the visits are those of the work that was done. -/
theorem Stuck.visits_eq {c : Progress} {e : BuildError} {u : Store} (h : Stuck sources c e u) :
    u.visits = c.store.visits := by
  cases h with
  | unresolved hr => exact (Repeatable.resolveName sources _ _).visits_of_error hr
  | noModule _ => rfl

theorem Step.continues {c d : Progress} (h : Step sources c d) :
    c.store.Continues sources.capacity d.store := by
  cases h with
  | skip h => exact h.grows.continues
  | emit => exact .of_modules_eq rfl
  | enter _ _ => exact .of_modules_eq rfl
  | need hr _ => exact (Repeatable.resolveName ..).continues_of_ok hr

theorem Steps.continues {c d : Progress} (h : Steps sources c d) :
    c.store.Continues sources.capacity d.store := by
  induction h with
  | refl => exact .of_modules_eq rfl
  | tail _ hstep ih => exact ih.trans hstep.continues

theorem continues_of_run_error {work : List WorkItem} {s u : Store} {e : BuildError}
    (h : run sources #[] work s = .error e u) : s.Continues sources.capacity u := by
  obtain ⟨c, hsteps, hstuck⟩ : ∃ c, Steps sources ⟨[], work, s⟩ c ∧ Stuck sources c e u :=
    stuck_of_run h
  refine hsteps.continues.trans ?_
  cases hstuck with
  | unresolved hr => exact (Repeatable.resolveName ..).continues_of_error hr
  | noModule _ => exact .of_modules_eq rfl

theorem isVisited_of_run_error {work : List WorkItem} {s u : Store} {e : BuildError}
    (h : run sources #[] work s = .error e u) {ref : StatementRef} (hv : s.isVisited ref = true) :
    u.isVisited ref = true := by
  obtain ⟨c, hsteps, hstuck⟩ : ∃ c, Steps sources ⟨[], work, s⟩ c ∧ Stuck sources c e u :=
    stuck_of_run h
  rw [Store.isVisited_congr hstuck.visits_eq]
  exact hsteps.isVisited hv

/-- An expansion that fails either finds no module, or leaves its statement visited. -/
theorem expand_error {ref : StatementRef} {s u : Store} {e : BuildError}
    (h : expand sources ref s = .error e u) :
    s.modules[ref.moduleId]? = none ∨ s.isVisited ref = false ∧ u.isVisited ref = true := by
  cases hv : s.isVisited ref with
  | true =>
    rw [expand_of_isVisited hv] at h
    cases h
  | false =>
    cases hm : s.modules[ref.moduleId]? with
    | none => exact .inl rfl
    | some m =>
      cases hs : m.statement? ref.index with
      | none =>
        have hidle : Step sources ⟨(#[] : Array StatementRef).toList, [.expand ref], s⟩
            ⟨(#[] : Array StatementRef).toList, [], s⟩ := .skip (.absent hm hs)
        rw [expand, hidle.run_eq, run] at h
        cases h
      | some st =>
        rw [expand_eq ⟨m, hm, hs⟩ hv] at h
        exact .inr ⟨rfl, isVisited_of_run_error h (by simp)⟩

theorem circular_ne_ok {lookup : Lookup} {o : Option StatementRef} {s t : Store} :
    (circular lookup : Bundling (Option StatementRef)) s ≠ .ok o t := by
  intro h
  obtain ⟨m, v, -, h⟩ := Bundling.bind_eq_ok.1 h
  cases h

theorem has_of_follow {n : Nat} {seen : List Lookup} {lookup : Lookup} {ref : StatementRef}
    {s t : Store} (h : follow sources n seen lookup s = .ok (some ref) t) : t.Has ref.moduleId := by
  induction n generalizing seen lookup s with
  | zero => exact absurd h circular_ne_ok
  | succ n ih =>
    rw [follow] at h
    split at h
    · exact absurd h circular_ne_ok
    · obtain ⟨answer, v, hop, h⟩ := Bundling.bind_eq_ok.1 h
      cases answer with
      | defined other =>
        cases h
        exact has_of_hop hop rfl
      | external => cases h
      | onward next => exact ih h

/-- The statement that a name stands for is one of a module that is there. -/
theorem has_of_resolveName {id : Nat} {name : String} {s t : Store} {ref : StatementRef}
    (h : resolveName sources id name s = .ok (some ref) t) : t.Has ref.moduleId :=
  has_of_follow h

/-- To define a name fails where the name is looked up, or in the expansion of the
statement that it stands for. -/
theorem define_error {id : Nat} {name : String} {s u : Store} {e : BuildError}
    (h : define sources id name s = .error e u) :
    resolveName sources id name s = .error e u ∨
      ∃ ref t, resolveName sources id name s = .ok (some ref) t ∧
        t.Continues sources.capacity u ∧ s.isVisited ref = false ∧ u.isVisited ref = true := by
  cases hr : resolveName sources id name s with
  | error e' t =>
    rw [define, run_of_error hr] at h
    cases h
    exact .inl rfl
  | ok o t =>
    right
    rw [define, run] at h
    split at h
    · simp_all
    · rw [run] at h
      cases h
    · rename_i ref t' hr'
      obtain ⟨rfl, rfl⟩ : o = some ref ∧ t = t' := by simpa [hr] using hr'
      split at h
      · rw [run] at h
        cases h
      · rename_i hv
        have hsame : t.isVisited = s.isVisited := isVisited_of_resolveName hr
        rcases expand_error h with hm | ⟨-, hu⟩
        · obtain ⟨m, hm'⟩ := has_of_resolveName hr
          rw [hm'] at hm
          cases hm
        · exact ⟨ref, t, rfl, continues_of_run_error h, by simpa [hsame] using hv, hu⟩

/-- If expansions of statements one after the other fail, a statement is visited. -/
theorem mapM_expand_error {list : List StatementRef} {s u : Store} {e : BuildError}
    (hhas : ∀ ref ∈ list, s.Has ref.moduleId) (h : list.mapM (expand sources) s = .error e u) :
    ∃ ref, s.isVisited ref = false ∧ u.isVisited ref = true := by
  induction list generalizing s with
  | nil => cases h
  | cons ref list ih =>
    rw [List.mapM_cons] at h
    rcases Bundling.bind_eq_error.1 h with he | ⟨out, t, hout, h⟩
    · obtain ⟨m, hm⟩ := hhas ref (.head _)
      rcases expand_error he with hnone | hv
      · rw [hm] at hnone
        cases hnone
      · exact ⟨ref, hv⟩
    · rcases Bundling.bind_eq_error.1 h with he | ⟨rest, v, -, h⟩
      · have hsteps : Steps sources ⟨[], [.expand ref], s⟩ ⟨[] ++ out.toList, [], t⟩ :=
          steps_of_run hout
        have hhas' : ∀ other ∈ list, t.Has other.moduleId := fun other hmem => by
          obtain ⟨m, hm⟩ := hhas other (.tail _ hmem)
          exact ⟨m, hsteps.continues.get hm⟩
        obtain ⟨other, hother, hu⟩ := ih hhas' he
        refine ⟨other, ?_, hu⟩
        cases hv : s.isVisited other with
        | false => rfl
        | true =>
          rw [hsteps.isVisited hv] at hother
          cases hother
      · cases h

theorem expandAll_error {id : Nat} {s u : Store} {e : BuildError} (hhas : s.Has id)
    (h : expandAll sources id s = .error e u) :
    ∃ ref, s.isVisited ref = false ∧ u.isVisited ref = true := by
  rcases Bundling.bind_eq_error.1 h with he | ⟨m, t, hm, h⟩
  · obtain ⟨hnone, -, -⟩ := moduleAt_eq_error.1 he
    obtain ⟨m, hm⟩ := hhas
    rw [hm] at hnone
    cases hnone
  · obtain ⟨-, rfl⟩ := moduleAt_eq_ok.1 hm
    refine mapM_expand_error (fun ref hmem => ?_) (Bundling.map_eq_error.1 h)
    obtain ⟨st, -, rfl⟩ := List.mem_map.1 hmem
    exact hhas

-- ---------------------------------------------------------------------------
-- Requests that fail
-- ---------------------------------------------------------------------------

namespace Request

variable {request : Request} {lost before : List StatementRef} {s u : Store} {e : BuildError}

/-- A refused request leaves the visits alone, and is refused again. -/
theorem refused_again (hs : Accounted lost ⟨before, [], s⟩)
    (h : request.perform sources s = .error e u) (hrefused : request.Refused sources s) :
    u.visits = s.visits ∧
      ∃ t, request.perform sources u = .error e t ∧ t.visits = s.visits := by
  -- what is refused by a step that can be made again
  have hagain : ∀ {α : Type} {x : Bundling α}, Repeatable sources.capacity x →
      x s = .error e u → u.visits = s.visits ∧ ∃ t, x u = .error e t ∧ t.visits = s.visits := by
    intro α x hx he
    obtain ⟨t, ht, -⟩ := hx.fails_again he
    have hu := hx.visits_of_error he
    exact ⟨hu, t, ht, (hx.visits_of_error ht).trans hu⟩
  cases request with
  | fetch importee importer =>
    cases importer with
    | none =>
      obtain ⟨hv, t, ht, hvt⟩ := hagain (.fetch ..) (Bundling.map_eq_error.1 h)
      exact ⟨hv, t, Bundling.map_eq_error.2 ht, hvt⟩
    | some importer =>
      obtain ⟨hv, t, ht, hvt⟩ := hagain (.fetchFrom ..) (Bundling.map_eq_error.1 h)
      exact ⟨hv, t, Bundling.map_eq_error.2 ht, hvt⟩
  | define id name =>
    obtain ⟨e', u', hr⟩ := hrefused
    have hd : ModuleBundler.define sources id name s = .error e' u' := run_of_error hr
    rw [Bundling.map_eq_error.1 h] at hd
    cases hd
    obtain ⟨hv, t, ht, hvt⟩ := hagain (.resolveName ..) hr
    exact ⟨hv, t, Bundling.map_eq_error.2 (run_of_error ht), hvt⟩
  | expand ref =>
    have hv : s.isVisited ref = false := by
      cases hv : s.isVisited ref with
      | false => rfl
      | true =>
        obtain ⟨st, m, hm, -⟩ := hs.held ref hv
        cases hm.symm.trans hrefused
    have he : ModuleBundler.expand sources ref s = _ := expand_of_noModule hv hrefused
    rw [Bundling.map_eq_error.1 h] at he
    cases he
    exact ⟨rfl, s, h, rfl⟩
  | expandAll id =>
    have he : ModuleBundler.expandAll sources id s = _ := expandAll_of_noModule hrefused
    rw [Bundling.map_eq_error.1 h] at he
    cases he
    exact ⟨rfl, s, h, rfl⟩
  | generate refs =>
    obtain ⟨hv, t, ht, hvt⟩ := hagain (.generate refs) (Bundling.map_eq_error.1 h)
    exact ⟨hv, t, Bundling.map_eq_error.2 ht, hvt⟩
  | build entry =>
    obtain ⟨e', u', hf⟩ := hrefused
    have hb : ModuleBundler.build sources entry s = .error e' u' :=
      Bundling.bind_eq_error.2 (.inl hf)
    rw [Bundling.map_eq_error.1 h] at hb
    cases hb
    obtain ⟨hv, t, ht, hvt⟩ := hagain (.fetch ..) hf
    exact ⟨hv, t, Bundling.map_eq_error.2 (Bundling.bind_eq_error.2 (.inl ht)), hvt⟩

/-- A request that is not refused and fails visits a statement. -/
theorem exists_visited (hs : Accounted lost ⟨before, [], s⟩)
    (h : request.perform sources s = .error e u) (hrefused : ¬ request.Refused sources s) :
    ∃ ref, s.isVisited ref = false ∧ u.isVisited ref = true := by
  have hhas : ∀ {id : Nat}, ¬ s.modules[id]? = none → s.Has id := fun hn =>
    Option.ne_none_iff_exists'.1 hn
  cases request with
  | fetch importee importer => exact absurd trivial hrefused
  | generate refs => exact absurd trivial hrefused
  | define id name =>
    rcases define_error (Bundling.map_eq_error.1 h) with hr | ⟨ref, t, -, -, hv⟩
    · exact absurd ⟨e, u, hr⟩ hrefused
    · exact ⟨ref, hv⟩
  | expand ref =>
    rcases expand_error (Bundling.map_eq_error.1 h) with hm | hv
    · exact absurd hm hrefused
    · exact ⟨ref, hv⟩
  | expandAll id => exact expandAll_error (hhas hrefused) (Bundling.map_eq_error.1 h)
  | build entry =>
    rcases Bundling.bind_eq_error.1 (Bundling.map_eq_error.1 h) with hf | ⟨id, t, hf, h⟩
    · exact absurd ⟨e, u, hf⟩ hrefused
    · have hvisits : t.isVisited = s.isVisited :=
        Store.isVisited_congr ((Bundling.OnlyFetches.fetch sources entry).grows_of_ok hf).visits_eq
      have hid : t.Has id :=
        (@Ensures.fetch sources (fun _ => True) _ sources.fetchingMay entry).of_ok trivial hf
      rcases Bundling.bind_eq_error.1 h with he | ⟨refs, v, hall, h⟩
      · rw [← hvisits]
        exact expandAll_error hid he
      · -- what was expanded can be put together
        have ht := (Accounts.of_onlyFetches (.fetch sources entry)).ok hf hs
        have hv := (Accounts.expandAll id).ok hall ht
        obtain ⟨sts, -, hcode⟩ := generate_ok fun ref hmem =>
          hv.held ref (hv.visited ref (List.mem_append_left _ (List.mem_append_right _ hmem)))
        rw [hcode] at h
        cases h

end Request

/-- A statement that is visited and was not returned is never returned. -/
theorem Accounted.notMem_returned {lost before : List StatementRef} {s : Store}
    (h : Accounted lost ⟨before, [], s⟩) {ref : StatementRef} (hv : s.isVisited ref = true)
    (later : List Request) : ref ∉ returned sources later s := by
  have hone : Accounted lost ⟨[ref], [], s⟩ := by
    refine ⟨List.nodup_singleton ref, fun other ho => ?_, h.held, h.inProgress⟩
    obtain rfl : other = ref := by simpa [History.pending] using ho
    exact hv
  obtain ⟨lost', hu, -⟩ := hone.serve sources later
  exact (List.nodup_cons.1 (List.nodup_append.1 hu.nodup).1).1

/-- Whatever a bundler was asked for before, a request that fails leaves the visits as
they were exactly if it is refused at its start, and then it is refused again. Any
other request that fails leaves a statement visited that was not visited before and
that will never be returned. If that request was for a statement or a name, it
succeeds when it is made again, and returns nothing. -/
theorem failure_keeps_visits_iff_refused (sources : Sources) (requests : List Request)
    (request : Request) (s u : Store) (e : BuildError)
    (hs : (serve sources requests .empty).2 = s) (h : request.perform sources s = .error e u) :
    (u.visits = s.visits ↔ request.Refused sources s) ∧
    (request.Refused sources s →
      ∃ t, request.perform sources u = .error e t ∧ t.visits = s.visits) ∧
    (¬ request.Refused sources s →
      (∃ ref, s.isVisited ref = false ∧ u.isVisited ref = true ∧
        ∀ later, ref ∉ returned sources later u) ∧
      ((∃ ref, request = .expand ref) ∨ (∃ id name, request = .define id name) →
        request.perform sources u = .ok (.statements #[]) u)) := by
  obtain ⟨lost, hacc, -⟩ := Accounted.empty.serve sources requests
  rw [hs] at hacc
  obtain ⟨lost', hafter⟩ := (Accounts.perform request).error h hacc
  refine ⟨⟨fun hv => ?_, fun hr => (Request.refused_again hacc h hr).1⟩,
    fun hr => (Request.refused_again hacc h hr).2, fun hr => ⟨?_, ?_⟩⟩
  · by_contra hr
    obtain ⟨ref, hnot, hvisited⟩ := Request.exists_visited hacc h hr
    rw [Store.isVisited_congr hv, hnot] at hvisited
    cases hvisited
  · obtain ⟨ref, hnot, hvisited⟩ := Request.exists_visited hacc h hr
    exact ⟨ref, hnot, hvisited, hafter.notMem_returned hvisited⟩
  · rintro (⟨ref, rfl⟩ | ⟨id, name, rfl⟩)
    · rcases expand_error (Bundling.map_eq_error.1 h) with hm | ⟨-, hv⟩
      · exact absurd hm hr
      · exact Bundling.bind_eq_ok.2 ⟨#[], u, expand_of_isVisited hv, rfl⟩
    · rcases define_error (Bundling.map_eq_error.1 h) with hname | ⟨ref, t, hname, htu, -, hv⟩
      · exact absurd ⟨e, u, hname⟩ hr
      · have hagain := (Repeatable.resolveName sources id name).again hname htu
        exact Bundling.bind_eq_ok.2 ⟨#[], u, define_of_isVisited hagain hv, rfl⟩

/-- A file that uses a name of a file that is not there. -/
def missingImport : FileTable :=
  ⟨[(.ofText "a.js", .holds "import { x } from './b.js';\nx;\n")]⟩

/-- The module of the file. -/
def missingModule : Module :=
  (missingImport.sources.moduleOf (.ofText "a.js")).toOption.getD default

/-- The store where the file is fetched. -/
def missingStore : Store := (Store.empty.logRead (.ofText "a.js")).add missingModule

/-- The path that the file imports from. -/
def missingPath : Path := missingImport.sources.resolve missingModule.path "./b.js"

/-- The file can be read, and nothing is known of the file that it imports from. -/
theorem missingModule_facts :
    (missingImport.sources.moduleOf (.ofText "a.js")).isOk = true ∧
      missingStore.find? missingPath = none ∧ missingImport.find? missingPath = none ∧
      missingModule.definitions.find? "x" = none ∧
      missingModule.imports.find? "x" = some ⟨"./b.js", "x"⟩ ∧
      (missingModule.statement? 1).map Statement.dependsOn = some ["x"] := by
  decide +kernel

theorem moduleOf_missingImport :
    missingImport.sources.moduleOf (.ofText "a.js") = .ok missingModule :=
  eq_ok_of_isOk missingModule_facts.1

theorem missingStore_eq : missingStore = (Store.empty.logRead (.ofText "a.js")).add missingModule :=
  rfl

theorem fetch_missingPath {s : Store} (hs : s.modules = missingStore.modules) :
    fetchFrom missingImport.sources missingModule.path "./b.js" s =
      .error (.notFound missingPath) (s.logRead missingPath) := by
  obtain ⟨-, hfind, hfile, -⟩ := missingModule_facts
  have hread : missingImport.sources.read missingPath = .error (.notFound missingPath) := by
    simp only [FileTable.sources, FileTable.read, hfile]
  refine fetch_eq_error.2 ⟨?_, ?_, rfl⟩
  · rw [Store.find?, hs]
    exact hfind
  · rw [← missingPath, Sources.load, Sources.moduleOf, hread]
    rfl

theorem module_missingStore : missingStore.modules[0]? = some missingModule := by
  simp [missingStore, Store.add, Store.logRead, Store.empty]

theorem resolveName_missing {s : Store} (hs : s.modules = missingStore.modules) :
    ∃ e u, resolveName missingImport.sources 0 "x" s = .error e u := by
  obtain ⟨-, -, -, hdefinition, himport, -⟩ := missingModule_facts
  have hm : s.modules[0]? = some missingModule := by rw [hs, module_missingStore]
  have hfails : HopFails missingImport.sources s (.inScope 0 "x") (.notFound missingPath)
      (s.logRead missingPath) :=
    .imported hm hdefinition himport (by decide) (fetch_missingPath hs)
  exact ⟨_, _, resolveName_of_hop_error hfails.hop_eq⟩

theorem failure_keeps_visits_iff_refused_missing :
    (serve missingImport.sources [.fetch "a.js" none] .empty).2 = missingStore ∧
      ∃ e u, (Request.expand ⟨0, 1⟩).perform missingImport.sources missingStore = .error e u ∧
        u.visits ≠ missingStore.visits ∧
        (∃ ref, missingStore.isVisited ref = false ∧ u.isVisited ref = true ∧
          ∀ later, ref ∉ returned missingImport.sources later u) ∧
        (Request.expand ⟨0, 1⟩).perform missingImport.sources u = .ok (.statements #[]) u := by
  have hserve : (serve missingImport.sources [.fetch "a.js" none] .empty).2 = missingStore := by
    have hfetch := fetch_empty moduleOf_missingImport (by decide)
    rw [← missingStore_eq] at hfetch
    simp only [serve, Request.answer, Request.perform, Bind.bind, EStateM.bind, hfetch]
    simp only [pure, EStateM.pure]
  have hm := module_missingStore
  have hv : missingStore.isVisited ⟨0, 1⟩ = false := by
    simp [missingStore, Store.isVisited, Store.add, Store.logRead, Store.empty]
  obtain ⟨-, -, -, -, -, hstatement⟩ := missingModule_facts
  obtain ⟨st, hst, hnames⟩ := Option.map_eq_some_iff.1 hstatement
  obtain ⟨e, u, hresolve⟩ := resolveName_missing (missingStore.modules_visit ⟨0, 1⟩ .inProgress)
  have hholds : missingStore.Holds ⟨0, 1⟩ st := ⟨_, hm, hst⟩
  have hfails : (Request.expand ⟨0, 1⟩).perform missingImport.sources missingStore =
      .error e u := by
    refine Bundling.map_eq_error.2 ?_
    rw [expand_eq hholds hv, Statement.work, hnames]
    exact run_of_error hresolve
  have hnot : ¬ (Request.expand ⟨0, 1⟩).Refused missingImport.sources missingStore := by
    intro hr
    rw [Request.Refused, hm] at hr
    cases hr
  obtain ⟨hiff, -, hlost⟩ :=
    failure_keeps_visits_iff_refused missingImport.sources _ _ _ _ _ hserve hfails
  obtain ⟨hlost, hagain⟩ := hlost hnot
  exact ⟨hserve, e, u, hfails, fun hvisits => hnot (hiff.1 hvisits), hlost,
    hagain (.inl ⟨_, rfl⟩)⟩

end ModuleBundler

import ModuleBundler.Proofs.Invariants
import ModuleBundler.Proofs.Shaking

/-!
# ModuleBundler — the kept modules

A bundler never forgets a module and never gives it another number, and it reads
no file again whose module it keeps. This holds of all sources, also of those that
answer two spellings of a path differently.

* `Store.Recorded` — the invariant: a coherent store whose log of reads tells how
  its modules came to be kept.
* `recorded_serve` — requests keep it.
* `continues_serve` — requests only add modules, behind those that are there.
* `kept_once` — what holds of the modules after any requests.
-/

namespace ModuleBundler

variable {sources : Sources} {path : Path} {m : Module} {s t : Store}

-- ---------------------------------------------------------------------------
-- The log of reads
-- ---------------------------------------------------------------------------

/-- Whether the file of a path can be read and is a module. -/
def Sources.loads (sources : Sources) (path : Path) : Bool := (sources.moduleOf path).isOk

/-- Whether it is one does not depend on the number that it gets. -/
theorem Sources.loads_eq (sources : Sources) (path : Path) (id : Nat) :
    sources.loads path = (sources.moduleOf path id).isOk := by
  rw [loads, sources.moduleOf_numbered path id 0]
  cases sources.moduleOf path id <;> rfl

theorem Sources.load_eq_ok {size : Nat} :
    sources.load path size = .ok m ↔
      sources.moduleOf path size = .ok m ∧ size < sources.capacity := by
  rw [load, Except.bind_eq_ok]
  constructor
  · rintro ⟨n, hn, h⟩
    split at h <;> cases h
    exact ⟨hn, ‹_›⟩
  · rintro ⟨hm, hlt⟩
    exact ⟨m, hm, if_pos hlt⟩

/-- A module that is not kept either cannot be read or finds no room. -/
theorem Sources.load_eq_error {size : Nat} {e : BuildError}
    (h : sources.load path size = .error e) :
    sources.loads path = false ∨ sources.capacity ≤ size := by
  rw [sources.loads_eq path size]
  cases hm : sources.moduleOf path size with
  | error e => exact .inl rfl
  | ok m =>
    refine .inr (Nat.le_of_not_lt fun hlt => ?_)
    rw [load_eq_ok.2 ⟨hm, hlt⟩] at h
    cases h

namespace Store

/-- A coherent store within the capacity, with a log that tells what was kept: of the
files that were read, those that are modules are the kept ones, each read once and in
the order of their numbers, and after them such as found no room. -/
structure Recorded (sources : Sources) (s : Store) : Prop extends s.Within sources where
  reads : ∃ refused,
    s.reads.toList.filter sources.loads = s.modules.toList.map (·.path) ++ refused ∧
    ∀ p ∈ refused, s.find? p = none ∧ sources.capacity ≤ s.modules.size

namespace Recorded

theorem empty (sources : Sources) : Store.empty.Recorded sources :=
  ⟨⟨.empty sources, Nat.zero_le _⟩, [], rfl, fun _ hp => absurd hp List.not_mem_nil⟩

theorem visit (h : s.Recorded sources) (ref : StatementRef) (v : Visit) :
    (s.visit ref v).Recorded sources :=
  ⟨⟨⟨h.loaded, h.distinct⟩, h.size_le⟩, h.reads⟩

theorem logRead (h : s.Recorded sources) (hf : s.find? path = none) {e : BuildError}
    (hload : sources.load path s.modules.size = .error e) :
    (s.logRead path).Recorded sources := by
  refine ⟨⟨⟨h.loaded, h.distinct⟩, h.size_le⟩, ?_⟩
  obtain ⟨refused, hreads, hrefused⟩ := h.reads
  have hlog : (s.logRead path).reads.toList.filter sources.loads =
      s.modules.toList.map (·.path) ++ (refused ++ [path].filter sources.loads) := by
    rw [Store.logRead, Array.toList_push, List.filter_append, hreads, List.append_assoc]
  refine ⟨_, hlog, fun p hp => ?_⟩
  rcases List.mem_append.1 hp with hp | hp
  · exact hrefused p hp
  · obtain ⟨hp, hloads⟩ := List.mem_filter.1 hp
    obtain rfl := List.mem_singleton.1 hp
    have hfull := (Sources.load_eq_error hload).resolve_left (by simp [hloads])
    exact ⟨hf, hfull⟩

theorem add (h : s.Recorded sources) (hf : s.find? path = none)
    (hload : sources.load path s.modules.size = .ok m) :
    ((s.logRead path).add m).Recorded sources := by
  obtain rfl := Sources.path_of_load hload
  obtain ⟨hm, hroom⟩ := Sources.load_eq_ok.1 hload
  have hlog : (s.logRead m.path).Coherent sources := ⟨h.loaded, h.distinct⟩
  obtain ⟨refused, hreads, hrefused⟩ := h.reads
  -- nothing was refused as long as there is room
  obtain rfl : refused = [] :=
    List.eq_nil_iff_forall_not_mem.2 fun p hp => absurd (hrefused p hp).2 (by omega)
  have hloads : sources.loads m.path = true := by
    rw [sources.loads_eq m.path s.modules.size, hm]
    rfl
  refine ⟨⟨hlog.add hm hf, ?_⟩, [], ?_, fun _ hp => absurd hp List.not_mem_nil⟩
  · rw [Store.add, Array.size_push]
    exact hroom
  · rw [Store.add, Store.logRead, Array.toList_push, Array.toList_push, List.filter_append, hreads,
      List.map_append]
    simp [hloads]

theorem fetch (sources : Sources) (path : Path) :
    Bundling.Keeps (Recorded sources) (ModuleBundler.fetch sources path) :=
  .fetch (fun _ _ hf hload h => h.logRead hf hload) (fun _ _ hf hload h => h.add hf hload)

end Recorded

end Store

-- ---------------------------------------------------------------------------
-- Requests
-- ---------------------------------------------------------------------------

/-- A file that is fetched is answered with its number. -/
theorem answer_fetch {importee : String} {id : Nat}
    (h : fetch sources (.ofText importee) s = .ok id t) :
    (Request.fetch importee none).answer sources s = (.moduleId id, t) := by
  simp only [Request.answer, Request.perform, Bind.bind, EStateM.bind, h]
  rfl

/-- Requests keep the record. -/
theorem recorded_serve (h : s.Recorded sources) (requests : List Request) :
    (serve sources requests s).2.Recorded sources :=
  keeps_serve (Store.Recorded.fetch sources) (fun _ ref v hs => hs.visit ref v) requests h

/-- Requests add modules within the capacity, and keep all others where they are. -/
theorem continues_serve (sources : Sources) (requests : List Request) (s : Store) :
    s.Continues sources.capacity (serve sources requests s).2 := by
  refine keeps_serve (fun path => ⟨fun t ht => ?_⟩)
    (fun t ref v ht => ht.trans (.of_modules_eq rfl)) requests (.of_modules_eq rfl)
  exact ht.trans ((Bundling.OnlyFetches.fetch sources path).grows t).continues

/-- Whatever a bundler is asked for, in any order and whatever fails: a module that is
kept carries the number of its place, and so do its statements. No path is kept
twice. A path that is kept is fetched under the number of its module, and nothing is
read for that. Fetching yields the number of a module of the path, or fails and keeps
no module. Of the files that were read, those that are modules are the kept ones, each
read once, and such as found no room. Later requests only add modules, and the text of
statements that were returned can be put together ever after. -/
theorem kept_once (sources : Sources) (requests : List Request) :
    let s := (serve sources requests .empty).2
    (∀ (i : Nat) (m : Module), s.modules[i]? = some m → m.id = i ∧
      ∀ (j : Nat) (st : Statement), m.statement? j = some st → st.moduleId = i ∧ st.index = j) ∧
    (∀ (i j : Nat) (m n : Module), s.modules[i]? = some m → s.modules[j]? = some n →
      m.path.same n.path = true → i = j) ∧
    (∀ (i : Nat) (m : Module) (path : Path), s.modules[i]? = some m →
      m.path.same path = true → fetch sources path s = .ok i s) ∧
    (∀ (path : Path) (id : Nat) (t : Store), fetch sources path s = .ok id t →
      ∃ m : Module, t.modules[id]? = some m ∧ m.path.same path = true) ∧
    (∀ (path : Path) (e : BuildError) (t : Store), fetch sources path s = .error e t →
      t.modules = s.modules) ∧
    (∃ refused : List Path,
      s.reads.toList.filter sources.loads = s.modules.toList.map (·.path) ++ refused ∧
      ∀ p ∈ refused, s.find? p = none ∧ sources.capacity ≤ s.modules.size) ∧
    ∀ later : List Request,
      let t := (serve sources later s).2
      (∃ added : Array Module, t.modules = s.modules ++ added) ∧
      ∀ refs : List StatementRef, refs ⊆ returned sources requests .empty →
        ∃ code, generate refs t = .ok code t := by
  intro s
  have hs : s.Recorded sources := recorded_serve (.empty sources) requests
  refine ⟨fun i m hm => ?_, fun i j m n => @hs.distinct i j m n, fun i m path hm hp => ?_,
    fun path id t h => ?_, fun path e t h => ?_, hs.reads, fun later => ?_⟩
  · obtain ⟨text, -, hread⟩ := Except.bind_eq_ok.1 (hs.loaded hm)
    obtain ⟨hid, hstatements⟩ := Module.numbers_of_read hread
    exact ⟨hid, fun j st hst => hstatements hst⟩
  · exact fetch_eq_ok.2 (.inl ⟨hs.find?_eq_some_iff.2 ⟨m, hm, hp⟩, rfl⟩)
  · rcases fetch_eq_ok.1 h with ⟨hf, rfl⟩ | ⟨-, m, hload, rfl, rfl⟩
    · exact hs.find?_eq_some_iff.1 hf
    · obtain rfl := Sources.path_of_load hload
      exact ⟨m, by simp [Store.add, Store.logRead], Path.same_refl _⟩
  · obtain ⟨-, -, rfl⟩ := fetch_eq_error.1 h
    rfl
  · have hlater := continues_serve sources later s
    refine ⟨hlater.modules_eq, fun refs hrefs => ?_⟩
    obtain ⟨lost, hreturned, -⟩ := Accounted.empty.serve sources requests
    obtain ⟨sts, -, hcode⟩ := generate_ok fun ref hr => by
      have hvisited := hreturned.visited ref (List.mem_append_left _ (hrefs hr))
      obtain ⟨st, hst⟩ := hreturned.held ref hvisited
      exact ⟨st, hst.mono hlater.extends_⟩
    exact ⟨_, hcode⟩

/-- A file is not read again under another spelling of its path. -/
theorem kept_once_oneCall :
    let s := (serve oneCall.sources [.fetch "a.js" none, .fetch "b.js" none] .empty).2
    s.modules[0]? = some oneCallModule ∧ oneCallModule.path.same (.ofText "a.js/.") = true ∧
      fetch oneCall.sources (.ofText "a.js/.") s = .ok 0 s := by
  intro s
  have hm : s.modules[0]? = some oneCallModule := by
    refine (continues_serve oneCall.sources [.fetch "b.js" none] _).get ?_
    rw [answer_fetch (fetch_empty moduleOf_oneCall (by decide))]
    simp [Store.add, Store.logRead, Store.empty]
  have hsame : oneCallModule.path.same (.ofText "a.js/.") = true := by decide +kernel
  exact ⟨hm, hsame, (kept_once oneCall.sources _).2.2.1 0 oneCallModule _ hm hsame⟩

end ModuleBundler

import ModuleBundler.Proofs.Cache
import ModuleBundler.Proofs.Chains

/-!
# ModuleBundler — files are read on demand

A bundler asks for a file only when a name leads there. A name that a statement
depends on is followed hop by hop while the statement is being expanded; a hop goes
to the module that an import or an export with a source names, or searches the star
exports of a module, and these are the files that are read. What a module imports
makes no difference as long as no name that is needed leads there.

* `HopTarget` — the files that a hop may have to do with.
* `HopReads` — a hop asks for a file.
* `NeededRead` — a file is asked for by a hop on the way from a name that an expanded
  statement depends on.
* `readsAmong_hop`, `readsAmong_resolveName` — what one hop and what a search asks for.
* `Warranted.step` — a step of expansion asks only for files that are needed.
* `build_reads` — so does a build, whether it succeeds or fails.
-/

namespace ModuleBundler

variable {sources : Sources}

-- ---------------------------------------------------------------------------
-- Stores after a step
-- ---------------------------------------------------------------------------

namespace Bundling

variable {α β : Type} {x : Bundling α} {f : α → Bundling β} {s t : Store}

theorem storeAfter_of_ok {a : α} (h : x s = .ok a t) : x.storeAfter s = t := by
  rw [storeAfter, h]

theorem storeAfter_of_error {e : BuildError} (h : x s = .error e t) : x.storeAfter s = t := by
  rw [storeAfter, h]

theorem storeAfter_bind_of_ok {a : α} (h : x s = .ok a t) :
    (x >>= f).storeAfter s = (f a).storeAfter t := by
  unfold storeAfter
  simp only [Bind.bind, EStateM.bind, h]

theorem storeAfter_bind_of_error {e : BuildError} (h : x s = .error e t) :
    (x >>= f).storeAfter s = t := by
  unfold storeAfter
  simp only [Bind.bind, EStateM.bind, h]

end Bundling

-- ---------------------------------------------------------------------------
-- Reads between two stores
-- ---------------------------------------------------------------------------

/-- From one store to another only files of a kind are read. -/
def ReadsAmong (P : Path → Prop) (s t : Store) : Prop :=
  ∃ more, t.reads.toList = s.reads.toList ++ more ∧ ∀ p ∈ more, P p

/-- A store comes before another one of the same bundler: what it holds stays, what it
read was read first, and what it visited stays visited. -/
structure Store.Precedes (capacity : Nat) (s t : Store) : Prop extends s.Continues capacity t where
  reads : ReadsAmong (fun _ => True) s t
  visited : ∀ ref, s.isVisited ref = true → t.isVisited ref = true

namespace ReadsAmong

variable {P Q : Path → Prop} {s t u : Store}

theorem none (h : t.reads = s.reads) : ReadsAmong P s t := ⟨[], by simp [h], by simp⟩

theorem trans (h : ReadsAmong P s t) (k : ReadsAmong P t u) : ReadsAmong P s u := by
  obtain ⟨a, ha, hP⟩ := h
  obtain ⟨b, hb, hP'⟩ := k
  refine ⟨a ++ b, by rw [hb, ha, List.append_assoc], fun p hp => ?_⟩
  rcases List.mem_append.1 hp with hp | hp
  · exact hP p hp
  · exact hP' p hp

theorem mono (h : ReadsAmong P s t) (hPQ : ∀ p, P p → Q p) : ReadsAmong Q s t := by
  obtain ⟨more, hreads, hP⟩ := h
  exact ⟨more, hreads, fun p hp => hPQ p (hP p hp)⟩

/-- To fetch a path is to ask for this path or for none. -/
theorem fetch {path : Path} (h : P path) (s : Store) :
    Bundling.Keeps (ReadsAmong P s) (ModuleBundler.fetch sources path) := by
  have hlog : ∀ t, ReadsAmong P s t → ReadsAmong P s (t.logRead path) := by
    intro t ht
    refine ht.trans ⟨[path], by rw [Store.logRead, Array.toList_push], fun p hp => ?_⟩
    rw [List.mem_singleton.1 hp]
    exact h
  exact .fetch (fun t _ _ _ => hlog t) (fun t _ _ _ => hlog t)

end ReadsAmong

namespace Store.Precedes

variable {capacity : Nat} {s t u : Store}

theorem refl (s : Store) : s.Precedes capacity s :=
  ⟨.of_modules_eq rfl, .none rfl, fun _ h => h⟩

theorem trans (h : s.Precedes capacity t) (k : t.Precedes capacity u) : s.Precedes capacity u :=
  ⟨h.toContinues.trans k.toContinues, h.reads.trans k.reads, fun ref hv => k.visited ref (h.visited ref hv)⟩

theorem visit (s : Store) (ref : StatementRef) (v : Visit) : s.Precedes capacity (s.visit ref v) :=
  ⟨.of_modules_eq rfl, .none rfl, fun other hv => by rw [isVisited_visit, hv, Bool.or_true]⟩

/-- A step that only fetches, and reads what it reads, goes on from a store. -/
theorem fetch (path : Path) (s : Store) :
    Bundling.Keeps (s.Precedes sources.capacity) (ModuleBundler.fetch sources path) := by
  refine ⟨fun t ht => ht.trans ?_⟩
  have hgrows := (Bundling.OnlyFetches.fetch sources path).grows t
  refine ⟨hgrows.continues, (ReadsAmong.fetch trivial t).storeAfter t (.none rfl), fun ref hv => ?_⟩
  rwa [isVisited, hgrows.visits_eq]

theorem fetchFrom (importer : Path) (importee : String) (s : Store) :
    Bundling.Keeps (s.Precedes sources.capacity) (ModuleBundler.fetchFrom sources importer importee) :=
  fetch _ s

end Store.Precedes

-- ---------------------------------------------------------------------------
-- What a hop has to do with
-- ---------------------------------------------------------------------------

/-- A star export of one module names another one, which does not export the name that
is searched for. -/
def StarLink (sources : Sources) (s : Store) (name : String) (i j : Nat) : Prop :=
  ∃ m n source, s.modules[i]? = some m ∧ source ∈ m.starExports ∧
    s.find? (sources.resolve m.path source) = some j ∧ s.modules[j]? = some n ∧
      n.exports.contains name = false

/-- A path is a source of star exports, those of a module or of one that its star
exports lead to and that does not export the name. -/
def StarTarget (sources : Sources) (s : Store) (name : String) (id : Nat) (p : Path) : Prop :=
  ∃ k m, Relation.ReflTransGen (StarLink sources s name) id k ∧ s.modules[k]? = some m ∧
    ∃ source ∈ m.starExports, sources.resolve m.path source = p

/-- The files that a hop has to do with: the one that an import or an export with a
source names, or those that a search through star exports comes to. -/
inductive HopTarget (sources : Sources) (s : Store) : Lookup → Path → Prop
  | imported {id : Nat} {name : String} {m : Module} {binding : ImportBinding}
    (hm : s.modules[id]? = some m) (hd : m.definitions.find? name = none)
    (hi : m.imports.find? name = some binding) (hname : binding.name ≠ "*") :
    HopTarget sources s (.inScope id name) (sources.resolve m.path binding.source)
  | reexported {id : Nat} {name localName source exported : String} {m : Module}
    (hm : s.modules[id]? = some m)
    (he : m.exports.find? name = some ⟨localName, .reexport source exported⟩) :
    HopTarget sources s (.exported id name) (sources.resolve m.path source)
  | searched {id : Nat} {name : String} {m : Module} {p : Path} (hm : s.modules[id]? = some m)
    (he : m.exports.find? name = none) (hdefault : name ≠ "default")
    (hp : StarTarget sources s name id p) : HopTarget sources s (.exported id name) p

/-- The hop from a lookup, made in a store, asks for a file. -/
def HopReads (sources : Sources) (lookup : Lookup) (s : Store) (p : Path) : Prop :=
  let t := (hop sources lookup).storeAfter s
  HopTarget sources t lookup p ∧ ∃ more, t.reads.toList = s.reads.toList ++ more ∧ p ∈ more

-- ---------------------------------------------------------------------------
-- Star exports
-- ---------------------------------------------------------------------------

section

variable {s t : Store} {name : String}

/-- A path is found where its module was fetched. -/
theorem find?_of_fetch {path : Path} {id : Nat} (h : fetch sources path s = .ok id t) :
    t.find? path = some id := by
  rcases fetch_eq_ok.1 ((Repeatable.fetch sources path).again h (.of_modules_eq rfl)) with h | h
  · exact h.1
  · obtain ⟨-, m, -, -, hadd⟩ := h
    have hsize := congrArg (fun u : Store => u.modules.size) hadd
    simp [Store.add, Store.logRead] at hsize

/-- The sources of one module ask for nothing but the sources. -/
theorem readsAmong_searchSources {P : Path → Prop} {importer : Path} {list : List String}
    (h : ∀ source ∈ list, P (sources.resolve importer source)) (s : Store) :
    Bundling.Keeps (ReadsAmong P s) (searchSources sources importer name list) := by
  induction list with
  | nil => exact .pure _
  | cons source rest ih =>
    have hrest := ih fun other hother => h other (List.mem_cons_of_mem _ hother)
    refine (ReadsAmong.fetch (h source List.mem_cons_self) s).bind fun id =>
      (Bundling.Keeps.moduleAt id).bind fun m => ?_
    split
    · exact .pure _
    · refine hrest.bind fun found => ?_
      split <;> exact .pure _

/-- The modules to search next are sources that do not export the name. -/
theorem next_of_searchSources {importer : Path} {list : List String} {ids : List Nat}
    (h : searchSources sources importer name list s = .ok (.next ids) t) :
    ∀ id ∈ ids, ∃ source ∈ list, t.find? (sources.resolve importer source) = some id ∧
      ∃ n, t.modules[id]? = some n ∧ n.exports.contains name = false := by
  induction list generalizing s ids with
  | nil =>
    cases h
    exact fun id hid => absurd hid List.not_mem_nil
  | cons source rest ih =>
    obtain ⟨first, u, hfetch, h⟩ := Bundling.bind_eq_ok.1 h
    obtain ⟨m, u', hat, h⟩ := Bundling.bind_eq_ok.1 h
    obtain ⟨hm, rfl⟩ := moduleAt_eq_ok.1 hat
    by_cases hc : m.exports.contains name = true
    · rw [if_pos hc] at h
      cases h
    · rw [if_neg hc] at h
      obtain ⟨found, t', hrest, h⟩ := Bundling.bind_eq_ok.1 h
      cases found with
      | found other => cases h
      | next others =>
        cases h
        have ht := (Repeatable.searchSources sources importer name rest).continues_of_ok hrest
        intro id hid
        rcases List.mem_cons.1 hid with rfl | hid
        · exact ⟨source, List.mem_cons_self, ht.find? (find?_of_fetch hfetch), m, ht.get hm,
            Bool.eq_false_iff.2 hc⟩
        · obtain ⟨source', hsource', hid⟩ := ih hrest id hid
          exact ⟨source', List.mem_cons_of_mem _ hsource', hid⟩

/-- A search through star exports asks for the star sources of modules that it comes to. The
facts are told of a store that comes after the search. -/
theorem readsAmong_searchStars {id : Nat} {w : Store} {rounds : Nat} {visited stack : List Nat}
    (hstack : ∀ i ∈ stack, Relation.ReflTransGen (StarLink sources w name) id i)
    (hw : ((searchStars sources name rounds visited stack).storeAfter s).Continues
      sources.capacity w) :
    ReadsAmong (StarTarget sources w name id) s
      ((searchStars sources name rounds visited stack).storeAfter s) := by
  fun_induction searchStars sources name rounds visited stack generalizing s with
  | case1 => exact .none rfl
  | case2 => exact .none rfl
  | case3 visited n i rest hmem ih =>
    exact ih (fun j hj => hstack j (List.mem_cons_of_mem _ hj)) hw
  | case4 visited n i rest hmem ih =>
    cases hat : moduleAt i s with
    | error e t =>
      obtain ⟨-, -, rfl⟩ := moduleAt_eq_error.1 hat
      rw [Bundling.storeAfter_bind_of_error hat]
      exact .none rfl
    | ok m t =>
      obtain ⟨hm, rfl⟩ := moduleAt_eq_ok.1 hat
      rw [Bundling.storeAfter_bind_of_ok hat] at hw ⊢
      have hlinks := hstack i List.mem_cons_self
      have hgrows := (Repeatable.searchSources sources m.path name m.starExports).grows s
      have hreads : s.Continues sources.capacity w → ReadsAmong (StarTarget sources w name id) s
          ((searchSources sources m.path name m.starExports).storeAfter s) := by
        intro hsw
        exact (readsAmong_searchSources (fun source hsource =>
          ⟨i, m, hlinks, hsw.get hm, source, hsource, rfl⟩) s).storeAfter s (.none rfl)
      cases hsearch : searchSources sources m.path name m.starExports s with
      | error e u =>
        rw [Bundling.storeAfter_of_error hsearch] at hgrows hreads
        rw [Bundling.storeAfter_bind_of_error hsearch] at hw ⊢
        exact hreads (hgrows.continues.trans hw)
      | ok answer u =>
        rw [Bundling.storeAfter_of_ok hsearch] at hgrows hreads
        rw [Bundling.storeAfter_bind_of_ok hsearch] at hw ⊢
        cases answer with
        | found target => exact hreads (hgrows.continues.trans hw)
        | next ids =>
          have hrest := (Repeatable.searchStars sources name n (i :: visited) (ids ++ rest)).grows u
          have huw := hrest.continues.trans hw
          have hsw := hgrows.continues.trans huw
          refine (hreads hsw).trans (ih ids (fun j hj => ?_) hw)
          rcases List.mem_append.1 hj with hj | hj
          · obtain ⟨source, hsource, hfind, k, hk, hc⟩ := next_of_searchSources hsearch j hj
            exact hlinks.tail ⟨m, k, source, hsw.get hm, hsource, huw.find? hfind, huw.get hk, hc⟩
          · exact hstack j (List.mem_cons_of_mem _ hj)

theorem readsAmong_findStarExport {id : Nat} {w : Store}
    (hw : ((findStarExport sources id name).storeAfter s).Continues sources.capacity w) :
    ReadsAmong (fun p => name ≠ "default" ∧ StarTarget sources w name id p) s
      ((findStarExport sources id name).storeAfter s) := by
  by_cases hd : name = "default"
  · have hnone : findStarExport sources id name s = .ok none s := by
      rw [findStarExport, if_pos hd]
    rw [Bundling.storeAfter_of_ok hnone]
    exact .none rfl
  · have hsearch : (findStarExport sources id name).storeAfter s = (searchStars sources name
        (max s.modules.size sources.capacity) [] [id]).storeAfter s := by
      unfold Bundling.storeAfter findStarExport
      rw [if_neg hd]
    rw [hsearch] at hw ⊢
    have hstack : ∀ i ∈ [id], Relation.ReflTransGen (StarLink sources w name) id i := by
      intro i hi
      rw [List.mem_singleton.1 hi]
    exact (readsAmong_searchStars hstack hw).mono fun p hp => ⟨hd, hp⟩

-- ---------------------------------------------------------------------------
-- Hops
-- ---------------------------------------------------------------------------

theorem readsAmong_of_fetch {P : Path → Prop} {path : Path} (hp : P path)
    (ht : (fetch sources path).storeAfter s = t) : ReadsAmong P s t := by
  rw [← ht]
  exact (ReadsAmong.fetch hp s).storeAfter s (.none rfl)

theorem readsAmong_of_search {id : Nat} {m : Module} (hm : t.modules[id]? = some m)
    (he : m.exports.find? name = none)
    (ht : (findStarExport sources id name).storeAfter s = t) :
    ReadsAmong (HopTarget sources t (.exported id name)) s t := by
  have hreads := @readsAmong_findStarExport sources s name id t (by rw [ht]; exact .of_modules_eq rfl)
  rw [ht] at hreads
  exact hreads.mono fun p hp => .searched hm he hp.1 hp.2

/-- A hop asks for nothing but what it has to do with. -/
theorem readsAmong_hop (lookup : Lookup) (s : Store) :
    ReadsAmong (HopTarget sources ((hop sources lookup).storeAfter s) lookup) s
      ((hop sources lookup).storeAfter s) := by
  have hst := ((Repeatable.hop sources lookup).grows s).continues
  rcases hop_cases sources lookup s with ⟨answer, t, h⟩ | ⟨e, t, h⟩
  · rw [Bundling.storeAfter_of_ok h.hop_eq] at hst ⊢
    cases h with
    | defined | external | here => exact .none rfl
    | imported hm hd hi hne hf =>
      exact readsAmong_of_fetch (.imported (hst.get hm) hd hi hne) (Bundling.storeAfter_of_ok hf)
    | reexported hm he hf =>
      exact readsAmong_of_fetch (.reexported (hst.get hm) he) (Bundling.storeAfter_of_ok hf)
    | starred hm he hf =>
      exact readsAmong_of_search (hst.get hm) he (Bundling.storeAfter_of_ok hf)
  · rw [Bundling.storeAfter_of_error h.hop_eq] at hst ⊢
    cases h with
    | unknown | starImport | wholeModule => exact .none rfl
    | imported hm hd hi hne hf =>
      exact readsAmong_of_fetch (.imported (hst.get hm) hd hi hne) (Bundling.storeAfter_of_error hf)
    | reexported hm he hf =>
      exact readsAmong_of_fetch (.reexported (hst.get hm) he) (Bundling.storeAfter_of_error hf)
    | starred hm he hf =>
      exact readsAmong_of_search (hst.get hm) he (Bundling.storeAfter_of_error hf)
    | notExported hm he hf =>
      exact readsAmong_of_search (hst.get hm) he (Bundling.storeAfter_of_ok hf)

/-- A hop leads to a later store of the bundler. -/
theorem precedes_hop (lookup : Lookup) (s : Store) :
    s.Precedes sources.capacity ((hop sources lookup).storeAfter s) :=
  (Bundling.Keeps.hop (fun importer importee => Store.Precedes.fetchFrom importer importee s)
    lookup).storeAfter s (.refl s)

theorem Leads.precedes {first lookup : Lookup} {seen : List Lookup}
    (h : Leads sources first s seen lookup t) : s.Precedes sources.capacity t := by
  induction h with
  | start => exact .refl s
  | @onward seen lookup next t u _ hop ih =>
    have hstep := @precedes_hop sources lookup t
    rw [Bundling.storeAfter_of_ok hop.hop_eq] at hstep
    exact ih.trans hstep

end

-- ---------------------------------------------------------------------------
-- The search for a name
-- ---------------------------------------------------------------------------

/-- Hops in a row, the first one made in a store, lead to a hop that asks for a file,
before another store is come to. -/
def ChainReads (sources : Sources) (first : Lookup) (s w : Store) (last : Lookup) (p : Path) :
    Prop :=
  ∃ seen t, Leads sources first s seen last t ∧ HopReads sources last t p ∧
    ((hop sources last).storeAfter t).Precedes sources.capacity w

theorem storeAfter_circular (lookup : Lookup) (t : Store) :
    (circular lookup : Bundling (Option StatementRef)).storeAfter t = t := by
  unfold circular
  cases hat : moduleAt lookup.moduleId t with
  | error e u =>
    obtain ⟨-, -, rfl⟩ := moduleAt_eq_error.1 hat
    rw [Bundling.storeAfter_bind_of_error hat]
  | ok m u =>
    obtain ⟨-, rfl⟩ := moduleAt_eq_ok.1 hat
    rw [Bundling.storeAfter_bind_of_ok hat]
    rfl

theorem precedes_follow (n : Nat) (seen : List Lookup) (lookup : Lookup) (s : Store) :
    s.Precedes sources.capacity ((follow sources n seen lookup).storeAfter s) :=
  (Bundling.Keeps.follow (fun importer importee => Store.Precedes.fetchFrom importer importee s)
    n seen lookup).storeAfter s (.refl s)

/-- Hopping on asks for nothing but what the hops ask for. -/
theorem readsAmong_follow {first lookup : Lookup} {s t w : Store} {n : Nat} {seen : List Lookup}
    (h : Leads sources first s seen lookup t)
    (hw : ((follow sources n seen lookup).storeAfter t).Precedes sources.capacity w) :
    ReadsAmong (fun p => ∃ last, ChainReads sources first s w last p) t
      ((follow sources n seen lookup).storeAfter t) := by
  induction n generalizing seen lookup t with
  | zero =>
    rw [follow, storeAfter_circular]
    exact .none rfl
  | succ n ih =>
    by_cases hmem : lookup ∈ seen
    · rw [follow, if_pos hmem, storeAfter_circular]
      exact .none rfl
    · rw [follow, if_neg hmem] at hw ⊢
      have hreads := @readsAmong_hop sources lookup t
      -- the hop itself, told of the store where it leads
      have hhop : ∀ {u}, (hop sources lookup).storeAfter t = u → u.Precedes sources.capacity w →
          ReadsAmong (fun p => ∃ last, ChainReads sources first s w last p) t u := by
        rintro u rfl huw
        obtain ⟨more, hmore, htargets⟩ := hreads
        exact ⟨more, hmore, fun p hp =>
          ⟨lookup, seen, t, h, ⟨htargets p hp, more, hmore, hp⟩, huw⟩⟩
      cases hx : hop sources lookup t with
      | error e u =>
        rw [Bundling.storeAfter_bind_of_error hx] at hw ⊢
        exact hhop (Bundling.storeAfter_of_error hx) hw
      | ok answer u =>
        rw [Bundling.storeAfter_bind_of_ok hx] at hw ⊢
        have hu := Bundling.storeAfter_of_ok hx
        cases answer with
        | defined ref => exact hhop hu hw
        | external => exact hhop hu hw
        | onward next =>
          have huw := (precedes_follow n (lookup :: seen) next u).trans hw
          exact (hhop hu huw).trans (ih (h.onward (hop_eq_ok.1 hx)) hw)

/-- The search for a name asks for nothing but what hops from the name ask for. -/
theorem readsAmong_resolveName {id : Nat} {name : String} {s w : Store}
    (hw : ((resolveName sources id name).storeAfter s).Precedes sources.capacity w) :
    ReadsAmong (fun p => ∃ last, ChainReads sources (.inScope id name) s w last p) s
      ((resolveName sources id name).storeAfter s) :=
  readsAmong_follow .start hw

-- ---------------------------------------------------------------------------
-- Expansion
-- ---------------------------------------------------------------------------

/-- A file is read because it is needed: a statement is being expanded, hops lead on from
a name that it depends on, and the last one asks for the file. All this is over when a
given store is come to. -/
def NeededRead (sources : Sources) (w : Store) (last : Lookup) (p : Path) : Prop :=
  ∃ ref name s, s.isVisited ref = true ∧ s.Reads ref name ∧ s.Precedes sources.capacity w ∧
    ChainReads sources (.inScope ref.moduleId name) s w last p

theorem NeededRead.mono {s t : Store} {last : Lookup} {p : Path}
    (h : NeededRead sources s last p) (ht : s.Precedes sources.capacity t) :
    NeededRead sources t last p := by
  obtain ⟨ref, name, u, hv, hr, hu, seen, v, hleads, hreads, hv'⟩ := h
  exact ⟨ref, name, u, hv, hr, hu.trans ht, seen, v, hleads, hreads, hv'.trans ht⟩

/-- A file was read first, and all other files that were read were needed. -/
def ReadOnDemand (sources : Sources) (entry : Path) (s : Store) : Prop :=
  ∃ more, s.reads.toList = entry :: more ∧ ∀ p ∈ more, ∃ last, NeededRead sources s last p

theorem ReadOnDemand.trans {entry : Path} {s t : Store} (h : ReadOnDemand sources entry s)
    (hst : s.Precedes sources.capacity t)
    (hreads : ReadsAmong (fun p => ∃ last, NeededRead sources t last p) s t) :
    ReadOnDemand sources entry t := by
  obtain ⟨first, hfirst, hneeded⟩ := h
  obtain ⟨more, hmore, hneeded'⟩ := hreads
  refine ⟨first ++ more, by rw [hmore, hfirst, List.cons_append], fun p hp => ?_⟩
  rcases List.mem_append.1 hp with hp | hp
  · obtain ⟨last, hlast⟩ := hneeded p hp
    exact ⟨last, hlast.mono hst⟩
  · exact hneeded' p hp

/-- In a state of expansion, all that was read was needed, and the names that are still to
be looked up are those of visited statements. -/
structure Warranted (sources : Sources) (entry : Path) (c : Progress) : Prop where
  onDemand : ReadOnDemand sources entry c.store
  names : ∀ id name, .define id name ∈ c.work →
    ∃ ref, ref.moduleId = id ∧ c.store.isVisited ref = true ∧ c.store.Reads ref name

theorem precedes_resolveName (id : Nat) (name : String) (s : Store) :
    s.Precedes sources.capacity ((resolveName sources id name).storeAfter s) :=
  precedes_follow ..

theorem Store.Reads.mono {s t : Store} {ref : StatementRef} {name : String} (h : s.Reads ref name)
    (ht : s.Extends t) : t.Reads ref name := by
  obtain ⟨st, hst, hname⟩ := h
  exact ⟨st, hst.mono ht, hname⟩

/-- A step to a store where nothing but names of visited statements was looked up. -/
theorem Step.precedes {c d : Progress} (h : Step sources c d) :
    c.store.Precedes sources.capacity d.store := by
  have hresolve : ∀ {id name s t} {o : Option StatementRef}, resolveName sources id name s = .ok o t →
      s.Precedes sources.capacity t := by
    intro id name s t o hr
    have h := @precedes_resolveName sources id name s
    rwa [Bundling.storeAfter_of_ok hr] at h
  cases h with
  | skip h =>
    cases h with
    | visited hv => exact .refl _
    | absent hm hs => exact .refl _
    | external hr => exact hresolve hr
    | known hr hv => exact hresolve hr
  | emit => exact .visit ..
  | enter hv hs => exact .visit ..
  | need hr hv => exact hresolve hr

namespace Warranted

variable {entry : Path} {c d : Progress}

/-- What the search for the next name asks for is needed. -/
theorem search {emitted : List StatementRef} {id : Nat} {name : String} {rest : List WorkItem}
    {s : Store} (h : Warranted sources entry ⟨emitted, .define id name :: rest, s⟩) :
    ReadOnDemand sources entry ((resolveName sources id name).storeAfter s) := by
  obtain ⟨ref, rfl, hv, hr⟩ := h.names id name List.mem_cons_self
  have hprecedes := @precedes_resolveName sources ref.moduleId name s
  refine h.onDemand.trans hprecedes ((readsAmong_resolveName (.refl _)).mono fun p hp => ?_)
  obtain ⟨last, hlast⟩ := hp
  exact ⟨last, ref, name, s, hv, hr, hprecedes, hlast⟩

/-- The names that are still to be looked up stay those of visited statements. -/
theorem keep {work : List WorkItem} {emitted : List StatementRef} {t : Store}
    (h : Warranted sources entry c) (ht : c.store.Precedes sources.capacity t)
    (hreads : ReadOnDemand sources entry t) (hwork : ∀ id name, .define id name ∈ work →
      .define id name ∈ c.work) : Warranted sources entry ⟨emitted, work, t⟩ := by
  refine ⟨hreads, fun id name hmem => ?_⟩
  obtain ⟨ref, hid, hv, hr⟩ := h.names id name (hwork id name hmem)
  exact ⟨ref, hid, ht.visited ref hv, hr.mono ht.toContinues.extends_⟩

/-- A step of expansion asks only for files that are needed. -/
theorem step (h : Warranted sources entry c) (hstep : Step sources c d) :
    Warranted sources entry d := by
  have hprecedes := hstep.precedes
  cases hstep with
  | @skip emitted item rest s t hidle =>
    refine h.keep hprecedes ?_ fun id name hmem => List.mem_cons_of_mem _ hmem
    cases hidle with
    | visited hv => exact h.onDemand
    | absent hm hs => exact h.onDemand
    | external hr => exact Bundling.storeAfter_of_ok hr ▸ h.search
    | known hr hv => exact Bundling.storeAfter_of_ok hr ▸ h.search
  | @emit emitted ref rest s =>
    exact h.keep hprecedes (h.onDemand.trans hprecedes (.none rfl))
      fun id name hmem => List.mem_cons_of_mem _ hmem
  | @enter emitted ref rest s st hv hs =>
    refine ⟨h.onDemand.trans hprecedes (.none rfl), fun id name hmem => ?_⟩
    rcases List.mem_append.1 hmem with hmem | hmem
    · -- the names of the statement, which is visited from now on
      obtain ⟨rfl, hname⟩ := (define_mem_work st ref id name).1 hmem
      exact ⟨ref, rfl, by simp, st, hs, hname⟩
    · obtain ⟨other, hid, hother, hr⟩ := h.names id name (List.mem_cons_of_mem _ hmem)
      exact ⟨other, hid, hprecedes.visited other hother, hr⟩
  | @need emitted id name ref rest s t hr hv =>
    refine h.keep hprecedes (Bundling.storeAfter_of_ok hr ▸ h.search) fun other name' hmem => ?_
    rcases List.mem_cons.1 hmem with hmem | hmem
    · cases hmem
    · exact List.mem_cons_of_mem _ hmem

theorem steps (h : Warranted sources entry c) (hsteps : Steps sources c d) :
    Warranted sources entry d := by
  induction hsteps with
  | refl => exact h
  | tail _ hstep ih => exact ih.step hstep

/-- Where expansion gets stuck, no file was read without need either. -/
theorem stuck (h : Warranted sources entry c) {e : BuildError} {t : Store}
    (hstuck : Stuck sources c e t) : ReadOnDemand sources entry t := by
  cases hstuck with
  | unresolved hr => exact Bundling.storeAfter_of_error hr ▸ h.search
  | noModule hm => exact h.onDemand

end Warranted

-- ---------------------------------------------------------------------------
-- Builds
-- ---------------------------------------------------------------------------

/-- To expand a statement is to read on demand, be it with or without success. -/
theorem ReadOnDemand.expand {entry : Path} (ref : StatementRef) :
    Bundling.Keeps (ReadOnDemand sources entry) (expand sources ref) := by
  refine ⟨fun s hs => ?_⟩
  have hstart : Warranted sources entry ⟨[], [.expand ref], s⟩ := ⟨hs, by simp⟩
  cases hx : ModuleBundler.expand sources ref s with
  | ok out t =>
    rw [Bundling.storeAfter_of_ok hx]
    exact (hstart.steps (steps_of_run hx)).onDemand
  | error e t =>
    rw [Bundling.storeAfter_of_error hx]
    obtain ⟨c, hsteps, hstuck⟩ := @stuck_of_run sources [] _ _ _ _ hx
    exact (hstart.steps hsteps).stuck hstuck

/-- The entry is read first. -/
theorem readOnDemand_entry (entry : Path) :
    ReadOnDemand sources entry ((fetch sources entry).storeAfter .empty) := by
  have hnone : Store.empty.find? entry = none := by simp [Store.find?, Store.empty]
  refine ⟨[], ?_, fun p hp => absurd hp List.not_mem_nil⟩
  unfold Bundling.storeAfter
  rw [fetch_of_find?_eq_none hnone]
  cases sources.load entry Store.empty.modules.size <;>
    simp [Store.add, Store.logRead, Store.empty]

theorem readOnDemand_build (entry : Path) :
    ReadOnDemand sources entry ((build sources entry).storeAfter .empty) := by
  have hentry := @readOnDemand_entry sources entry
  have hrest : ∀ id, Bundling.Keeps (ReadOnDemand sources entry) (do
      let refs ← expandAll sources id
      generate refs.toList) := by
    intro id
    have hall : Bundling.Keeps (ReadOnDemand sources entry) (expandAll sources id) :=
      (Bundling.Keeps.moduleAt id).bind fun _ =>
        (Bundling.Keeps.mapM ReadOnDemand.expand _).bind fun _ => .pure _
    exact hall.bind fun _ => .generate _
  unfold build
  cases hx : fetch sources entry .empty with
  | ok id t =>
    rw [Bundling.storeAfter_of_ok hx] at hentry
    rw [Bundling.storeAfter_bind_of_ok hx]
    exact (hrest id).storeAfter t hentry
  | error e t =>
    rw [Bundling.storeAfter_of_error hx] at hentry
    rwa [Bundling.storeAfter_bind_of_error hx]

theorem recorded_build (sources : Sources) (entry : Path) :
    ((build sources entry).storeAfter .empty).Recorded sources :=
  (Bundling.Keeps.build (fun _ _ => Store.Recorded.fetch sources _)
    (fun _ ref v hs => hs.visit ref v) (Store.Recorded.fetch sources entry)).storeAfter .empty
      (.empty sources)

-- ---------------------------------------------------------------------------
-- What unused imports come to
-- ---------------------------------------------------------------------------

/-- A module of the store has a statement that imports a name. -/
def Store.Imports (s : Store) (id : Nat) (name : String) : Prop :=
  ∃ m, s.modules[id]? = some m ∧ ∃ st ∈ m.statements.toList, name ∈ st.importedNames

/-- A module of the store exports a name of its scope. -/
def Store.Exports (s : Store) (id : Nat) (localName : String) : Prop :=
  ∃ m, s.modules[id]? = some m ∧
    ∃ name statement, m.exports.find? name = some ⟨localName, .here statement⟩

section

variable {s t : Store} {id : Nat} {name : String}

/-- From a name in the scope of a module it goes on only through an import. -/
theorem Hops.exists_import {next : Lookup}
    (h : Hops sources s (.inScope id name) (.onward next) t) :
    ∃ m binding, s.modules[id]? = some m ∧ m.imports.find? name = some binding := by
  cases h with
  | imported hm _ hi _ _ => exact ⟨_, _, hm, hi⟩

variable {w : Store} {last : Lookup} {p : Path}

/-- Hops from a name in the scope of a module ask for files only if it is imported. -/
theorem ChainReads.import (h : ChainReads sources (.inScope id name) s w last p) :
    ∃ m binding, w.modules[id]? = some m ∧ m.imports.find? name = some binding := by
  obtain ⟨seen, t, hleads, ⟨htarget, -⟩, hw⟩ := h
  have hsw := hleads.precedes.trans ((precedes_hop last t).trans hw)
  rcases hleads.first_onward with ⟨rfl, rfl⟩ | ⟨next, u, hop⟩
  · cases htarget with
    | imported hm _ hi _ => exact ⟨_, _, hw.toContinues.get hm, hi⟩
  · obtain ⟨m, binding, hm, hi⟩ := hop.exists_import
    exact ⟨m, binding, hsw.toContinues.get hm, hi⟩

/-- Hops lead to a name in the scope of a module from the name itself or through an
export of the module. -/
theorem ChainReads.cases_inScope {first : Lookup}
    (h : ChainReads sources first s w (.inScope id name) p) :
    first = .inScope id name ∨ w.Exports id name := by
  obtain ⟨seen, t, hleads, -, hw⟩ := h
  have htw := (precedes_hop (.inScope id name) t).trans hw
  cases hleads with
  | start => exact .inl rfl
  | @onward _ lookup _ u _ _ hop =>
    obtain ⟨exported, m, statement, -, -, hm, hexport⟩ := hop.exists_export
    have hut := @precedes_hop sources lookup u
    rw [Bundling.storeAfter_of_ok hop.hop_eq] at hut
    exact .inr ⟨m, (hut.trans htw).toContinues.get hm, exported, statement, hexport⟩

end

/-- A build reads the entry first, and other files only on demand: each of them is asked
for by a hop that was made in search for a name that an expanded statement depends on,
whether the build succeeds or fails. A hop through an import is made only if an expanded
statement of the module depends on the imported name, or for others if the module
exports it. As long as no expanded statement depends on a name that its module imports,
nothing but the entry is read, whatever else is imported. -/
theorem build_reads (sources : Sources) (entry : Path) :
    let t := (build sources entry).storeAfter .empty
    (∃ later, t.reads.toList = entry :: later ∧
      ∀ p ∈ later, ∃ last, NeededRead sources t last p) ∧
    (∀ id name p, NeededRead sources t (.inScope id name) p →
      (∃ ref, ref.moduleId = id ∧ t.isVisited ref = true ∧ t.Reads ref name) ∨
        t.Exports id name) ∧
    ((∀ ref name, t.isVisited ref = true → t.Reads ref name → ¬ t.Imports ref.moduleId name) →
      t.reads.toList = [entry]) := by
  intro t
  obtain ⟨later, hlater, hneeded⟩ := @readOnDemand_build sources entry
  refine ⟨⟨later, hlater, hneeded⟩, fun id name p h => ?_, fun hnone => ?_⟩
  · obtain ⟨ref, first, s, hv, hr, hst, hchain⟩ := h
    rcases hchain.cases_inScope with hfirst | hexports
    · cases hfirst
      exact .inl ⟨ref, rfl, hst.visited ref hv, hr.mono hst.toContinues.extends_⟩
    · exact .inr hexports
  · have ht : t.Recorded sources := recorded_build sources entry
    cases later with
    | nil => exact hlater
    | cons p later =>
      obtain ⟨last, ref, name, s, hv, hr, hst, hchain⟩ := hneeded p List.mem_cons_self
      obtain ⟨m, binding, hm, hi⟩ := hchain.import
      obtain ⟨text, -, hread⟩ := Except.bind_eq_ok.1 (ht.loaded hm)
      exact absurd ⟨m, hm, Module.exists_of_import hread hi⟩
        (hnone ref name (hst.visited ref hv) (hr.mono hst.toContinues.extends_))

/-- A file with an import that no statement uses, and one that is made for its effect. Both
imported files are missing. -/
def unusedImports : FileTable :=
  ⟨[(.ofText "a.js", .holds "import { x } from './b.js';\nimport './c.js';\nlog();\n")]⟩

/-- The module of the file. -/
def unusedImportsModule : Module :=
  (unusedImports.sources.moduleOf (.ofText "a.js")).toOption.getD default

theorem build_reads_unusedImports :
    let t := (build unusedImports.sources (.ofText "a.js")).storeAfter .empty
    (∀ ref name, t.isVisited ref = true → t.Reads ref name → ¬ t.Imports ref.moduleId name) ∧
      t.reads.toList = [.ofText "a.js"] := by
  intro t
  have hmodule : unusedImports.sources.moduleOf (.ofText "a.js") = .ok unusedImportsModule :=
    eq_ok_of_isOk (by decide +kernel)
  have hnames : ∀ st ∈ unusedImportsModule.statements.toList, ∀ name ∈ st.dependsOn,
      ∀ other ∈ unusedImportsModule.statements.toList, name ∉ other.importedNames := by
    decide +kernel
  have ht : t.Recorded unusedImports.sources := recorded_build ..
  -- each kept module is that of the file
  have hkept : ∀ {i : Nat} {m : Module}, t.modules[i]? = some m →
      m.Alike unusedImportsModule := by
    intro i m hm
    obtain ⟨text, hread, -⟩ := Except.bind_eq_ok.1 (ht.loaded hm)
    have hsame : (Path.ofText "a.js").same m.path = true := by
      obtain ⟨⟨k, hlt⟩, hk⟩ := FileTable.exists_entry_of_read hread
      obtain rfl : k = 0 := Nat.lt_one_iff.1 hlt
      exact hk
    have halike := unusedImports.lawful_sources.sameOutcome_moduleOf (Path.same_symm hsame) i 0
    rw [ht.loaded hm, hmodule] at halike
    exact halike.2.2
  have hunused : ∀ ref name, t.isVisited ref = true → t.Reads ref name →
      ¬ t.Imports ref.moduleId name := by
    rintro ref name - ⟨st, ⟨m, hm, hst⟩, hname⟩ ⟨n, hn, other, hother, himport⟩
    obtain rfl : m = n := Option.some.inj (hm.symm.trans hn)
    obtain ⟨i, hat⟩ := Array.mem_iff_getElem?.1 (Array.mem_toList_iff.1 hother)
    -- the two statements stand in the module of the file as well
    obtain ⟨st, hst, hname⟩ :=
      ((hkept hm).exists_statement_iff (P := (name ∈ ·.dependsOn)) fun _ => .rfl).1
        ⟨st, hst, hname⟩
    obtain ⟨other, hat, himport⟩ :=
      ((hkept hm).exists_statement_iff (P := (name ∈ ·.importedNames)) fun _ => .rfl).1
        ⟨other, hat, himport⟩
    exact hnames st (Array.mem_toList_iff.2 (Array.mem_of_getElem? hst)) name hname other
      (Array.mem_toList_iff.2 (Array.mem_of_getElem? hat)) himport
  exact ⟨hunused, (build_reads unusedImports.sources (.ofText "a.js")).2.2 hunused⟩

end ModuleBundler

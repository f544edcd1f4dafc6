import ModuleBundler.Proofs.Coherence

/-!
# ModuleBundler — searches that are made again

A search leaves behind the modules that it fetched. Made again, in any later
store, it finds them all there: it comes to the same answer and changes nothing.
A search that failed fails again with the same error. All this holds of any
sources, since a text is read again only if it could not be kept.

* `Store.Continues` — a later store, whatever statements were visited in between.
* `Repeatable` — steps that can be made again.
* `Repeatable.hop`, `Repeatable.resolveName` — hops and searches are such steps.
-/

namespace ModuleBundler

-- ---------------------------------------------------------------------------
-- Later stores
-- ---------------------------------------------------------------------------

namespace Store

/-- One store holds what another one holds, under the same numbers, and maybe more
modules within a capacity. -/
structure Continues (capacity : Nat) (s t : Store) : Prop where
  modules_eq : ∃ added : Array Module, t.modules = s.modules ++ added
  size_le : t.modules.size ≤ max s.modules.size capacity

theorem Grows.continues {capacity : Nat} {s t : Store} (h : Grows capacity s t) :
    s.Continues capacity t :=
  ⟨h.modules_eq, h.size_le⟩

namespace Continues

variable {capacity : Nat} {s t u : Store}

theorem of_modules_eq (h : t.modules = s.modules) : s.Continues capacity t :=
  ⟨⟨#[], by simp [h]⟩, by rw [h]; omega⟩

theorem trans (h : s.Continues capacity t) (k : t.Continues capacity u) :
    s.Continues capacity u := by
  obtain ⟨⟨a, ha⟩, hs⟩ := h
  obtain ⟨⟨b, hb⟩, ks⟩ := k
  exact ⟨⟨a ++ b, by rw [hb, ha, Array.append_assoc]⟩, by omega⟩

theorem get (h : s.Continues capacity t) {i : Nat} {m : Module}
    (hm : s.modules[i]? = some m) : t.modules[i]? = some m := by
  obtain ⟨added, h⟩ := h.modules_eq
  have hi := (Array.getElem?_eq_some_iff.1 hm).1
  rw [h, Array.getElem?_append_left hi, hm]

theorem find? (h : s.Continues capacity t) {path : Path} {i : Nat}
    (hi : s.find? path = some i) : t.find? path = some i := by
  obtain ⟨added, h⟩ := h.modules_eq
  rw [Store.find?] at hi ⊢
  rw [h, Array.findIdx?_append, hi, Option.some_or]

/-- There is room for as many modules as before. -/
theorem room_eq (h : s.Continues capacity t) :
    max t.modules.size capacity = max s.modules.size capacity := by
  obtain ⟨added, hm⟩ := h.modules_eq
  have hle := h.size_le
  have hsize := congrArg Array.size hm
  rw [Array.size_append] at hsize
  omega

end Continues

/-- A path is found where its module was just added. -/
theorem find?_add {s : Store} {m : Module} (h : s.find? m.path = none) :
    (s.add m).find? m.path = some s.modules.size := by
  rw [find?] at h
  rw [find?, add, Array.findIdx?_push, h, Option.none_or, if_pos (Path.same_refl m.path)]

end Store

-- ---------------------------------------------------------------------------
-- Reading files
-- ---------------------------------------------------------------------------

theorem Except.bind_eq_ok {α β : Type} {x : Except BuildError α} {f : α → Except BuildError β}
    {b : β} : x >>= f = .ok b ↔ ∃ a, x = .ok a ∧ f a = .ok b := by
  cases x <;> simp [Bind.bind, Except.bind]

theorem Except.bind_eq_error {α β : Type} {x : Except BuildError α} {f : α → Except BuildError β}
    {e : BuildError} : x >>= f = .error e ↔ x = .error e ∨ ∃ a, x = .ok a ∧ f a = .error e := by
  cases x <;> simp [Bind.bind, Except.bind]

/-- A module is known by the path that it is read from. -/
theorem Module.path_of_read {path : Path} {text : String} {id : Nat} {m : Module}
    (h : Module.read path text id = .ok m) : m.path = path := by
  have hsame := Module.sameOutcome_read (Path.same_refl path) text id id
  rw [h] at hsame
  exact hsame.1

-- ---------------------------------------------------------------------------
-- What fetching comes to
-- ---------------------------------------------------------------------------

/-- The module that is kept for a path when a number of modules is kept already. -/
def Sources.load (sources : Sources) (path : Path) (size : Nat) : Except BuildError Module := do
  let m ← sources.moduleOf path size
  if size < sources.capacity then .ok m else .error (.tooManyModules path)

theorem Sources.path_of_load {sources : Sources} {path : Path} {size : Nat} {m : Module}
    (h : sources.load path size = .ok m) : m.path = path := by
  obtain ⟨n, hn, h⟩ := Except.bind_eq_ok.1 h
  obtain ⟨text, -, hm⟩ := Except.bind_eq_ok.1 hn
  split at h <;> cases h
  exact Module.path_of_read hm

section

variable {sources : Sources} {path : Path} {s t : Store}

/-- A path whose module is not kept is loaded. -/
theorem fetch_of_find?_eq_none (h : s.find? path = none) :
    fetch sources path s =
      match sources.load path s.modules.size with
      | .ok m => .ok s.modules.size ((s.logRead path).add m)
      | .error e => .error e (s.logRead path) := by
  rw [fetch, h, Sources.load, Sources.moduleOf]
  cases ht : sources.read path with
  | error e => simp [Bind.bind, Except.bind]
  | ok text =>
    have hsize : (s.logRead path).modules.size = s.modules.size := rfl
    cases hm : Module.read path text s.modules.size with
    | error e => simp [Bind.bind, Except.bind, hsize, hm]
    | ok m =>
      by_cases hlt : s.modules.size < sources.capacity <;>
        simp only [Bind.bind, Except.bind, hsize, hm, hlt, ↓reduceIte]

theorem fetch_eq_ok {id : Nat} :
    fetch sources path s = .ok id t ↔
      s.find? path = some id ∧ s = t ∨
        s.find? path = none ∧ ∃ m, sources.load path s.modules.size = .ok m ∧
          s.modules.size = id ∧ (s.logRead path).add m = t := by
  cases hf : s.find? path with
  | some i => simp [fetch, hf]
  | none =>
    rw [fetch_of_find?_eq_none hf]
    cases sources.load path s.modules.size <;> simp

/-- The first module is kept under the first number. -/
theorem fetch_empty {m : Module} (hm : sources.moduleOf path = .ok m)
    (hroom : 0 < sources.capacity) :
    fetch sources path .empty = .ok 0 ((Store.empty.logRead path).add m) := by
  have hload : sources.load path 0 = .ok m := by
    simp only [Sources.load, hm, Bind.bind, Except.bind, if_pos hroom]
  have hnone : Store.empty.find? path = none := by simp [Store.find?, Store.empty]
  exact fetch_eq_ok.2 (.inr ⟨hnone, m, hload, rfl, rfl⟩)

theorem fetch_eq_error {e : BuildError} :
    fetch sources path s = .error e t ↔
      s.find? path = none ∧ sources.load path s.modules.size = .error e ∧ s.logRead path = t := by
  cases hf : s.find? path with
  | some i => simp [fetch, hf]
  | none =>
    rw [fetch_of_find?_eq_none hf]
    cases sources.load path s.modules.size <;> simp

end

-- ---------------------------------------------------------------------------
-- Steps that can be made again
-- ---------------------------------------------------------------------------

/-- A step that only fetches, and comes to the same when it is made again: to the
same value in each later store, which stays as it is, and to the same error. -/
structure Repeatable {α : Type} (capacity : Nat) (x : Bundling α) : Prop
    extends Bundling.OnlyFetches capacity x where
  again : ∀ {s t u : Store} {a : α}, x s = .ok a t → t.Continues capacity u → x u = .ok a u
  fails_again : ∀ {s t : Store} {e : BuildError}, x s = .error e t →
    ∃ u, x t = .error e u ∧ u.modules = t.modules

namespace Repeatable

variable {capacity : Nat} {sources : Sources} {α β : Type}

theorem continues_of_ok {x : Bundling α} (h : Repeatable capacity x) {s t : Store} {a : α}
    (hx : x s = .ok a t) : s.Continues capacity t :=
  (h.grows_of_ok hx).continues

theorem continues_of_error {x : Bundling α} (h : Repeatable capacity x) {s t : Store}
    {e : BuildError} (hx : x s = .error e t) : s.Continues capacity t := by
  have hgrows := h.grows s
  rw [Bundling.storeAfter, hx] at hgrows
  exact hgrows.continues

theorem visits_of_error {x : Bundling α} (h : Repeatable capacity x) {s t : Store}
    {e : BuildError} (hx : x s = .error e t) : t.visits = s.visits := by
  have hgrows := h.grows s
  rw [Bundling.storeAfter, hx] at hgrows
  exact hgrows.visits_eq

theorem pure (a : α) : Repeatable capacity (pure a : Bundling α) where
  toOnlyFetches := .pure a
  again h _ := by cases h; rfl
  fails_again h := by cases h

theorem throw (e : BuildError) : Repeatable capacity (throw e : Bundling α) where
  toOnlyFetches := .throw e
  again h _ := by cases h
  fails_again h := by cases h; exact ⟨_, rfl, rfl⟩

theorem bind {x : Bundling α} {f : α → Bundling β} (hx : Repeatable capacity x)
    (hf : ∀ a, Repeatable capacity (f a)) : Repeatable capacity (x >>= f) where
  toOnlyFetches := hx.toOnlyFetches.bind fun a => (hf a).toOnlyFetches
  again {s t u b} h htu := by
    obtain ⟨a, v, ha, hb⟩ := Bundling.bind_eq_ok.1 h
    have hvt := (hf a).continues_of_ok hb
    exact Bundling.bind_eq_ok.2 ⟨a, u, hx.again ha (hvt.trans htu), (hf a).again hb htu⟩
  fails_again {s t e} h := by
    rcases Bundling.bind_eq_error.1 h with he | ⟨a, v, ha, he⟩
    · obtain ⟨u, hu, hmodules⟩ := hx.fails_again he
      exact ⟨u, Bundling.bind_eq_error.2 (.inl hu), hmodules⟩
    · obtain ⟨u, hu, hmodules⟩ := (hf a).fails_again he
      have hat := hx.again ha ((hf a).continues_of_error he)
      exact ⟨u, Bundling.bind_eq_error.2 (.inr ⟨a, t, hat, hu⟩), hmodules⟩

theorem moduleAt (id : Nat) : Repeatable capacity (ModuleBundler.moduleAt id) where
  toOnlyFetches := .moduleAt id
  again h htu := by
    obtain ⟨hm, rfl⟩ := moduleAt_eq_ok.1 h
    exact moduleAt_eq_ok.2 ⟨htu.get hm, rfl⟩
  fails_again {s t e} h := by
    obtain ⟨-, -, rfl⟩ := moduleAt_eq_error.1 h
    exact ⟨s, h, rfl⟩

/-- A file that was fetched is not read again; one that could not be fetched is
read again, with no better result. -/
theorem fetch (sources : Sources) (path : Path) :
    Repeatable sources.capacity (ModuleBundler.fetch sources path) where
  toOnlyFetches := .fetch sources path
  again {s t u id} h htu := by
    have hkept : t.find? path = some id := by
      rcases fetch_eq_ok.1 h with ⟨hf, rfl⟩ | ⟨hf, m, hm, rfl, rfl⟩
      · exact hf
      · obtain rfl := Sources.path_of_load hm
        exact Store.find?_add hf
    exact fetch_eq_ok.2 (.inl ⟨htu.find? hkept, rfl⟩)
  fails_again {s t e} h := by
    obtain ⟨hf, he, rfl⟩ := fetch_eq_error.1 h
    exact ⟨_, fetch_eq_error.2 ⟨hf, he, rfl⟩, rfl⟩

theorem fetchFrom (sources : Sources) (importer : Path) (importee : String) :
    Repeatable sources.capacity (ModuleBundler.fetchFrom sources importer importee) :=
  fetch sources _

theorem searchSources (sources : Sources) (importer : Path) (name : String)
    (list : List String) :
    Repeatable sources.capacity (ModuleBundler.searchSources sources importer name list) := by
  induction list with
  | nil => exact pure _
  | cons source rest ih =>
    refine (fetchFrom ..).bind fun id => (moduleAt id).bind fun m => ?_
    split
    · exact pure _
    · refine ih.bind fun found => ?_
      split <;> exact pure _

theorem searchStars (sources : Sources) (name : String) (rounds : Nat)
    (visited stack : List Nat) :
    Repeatable sources.capacity (ModuleBundler.searchStars sources name rounds visited stack) := by
  fun_induction ModuleBundler.searchStars sources name rounds visited stack with
  | case1 => exact pure _
  | case2 => exact pure _
  | case3 visited n id rest hmem ih => exact ih
  | case4 visited n id rest hmem ih =>
    refine (moduleAt id).bind fun m => (searchSources ..).bind fun found => ?_
    split
    · exact pure _
    · exact ih _

/-- The number of rounds depends on the store, but is the same in later stores. -/
theorem findStarExport (sources : Sources) (id : Nat) (name : String) :
    Repeatable sources.capacity (ModuleBundler.findStarExport sources id name) := by
  by_cases hd : name = "default"
  · have hnone : ModuleBundler.findStarExport sources id name = Pure.pure none := by
      funext s
      rw [ModuleBundler.findStarExport, if_pos hd]
      rfl
    rw [hnone]
    exact pure none
  · have hsearch : ∀ s, ModuleBundler.findStarExport sources id name s =
        ModuleBundler.searchStars sources name (max s.modules.size sources.capacity) [] [id] s :=
      fun s => by rw [ModuleBundler.findStarExport, if_neg hd]
    have hstars := fun rounds => searchStars sources name rounds [] [id]
    refine ⟨.findStarExport sources id name, fun {s t u a} h htu => ?_, fun {s t e} h => ?_⟩
    · rw [hsearch] at h ⊢
      rw [(((hstars _).continues_of_ok h).trans htu).room_eq]
      exact (hstars _).again h htu
    · rw [hsearch] at h ⊢
      rw [((hstars _).continues_of_error h).room_eq]
      exact (hstars _).fails_again h

theorem hop (sources : Sources) (lookup : Lookup) :
    Repeatable sources.capacity (ModuleBundler.hop sources lookup) := by
  cases lookup with
  | inScope id name =>
    refine (moduleAt id).bind fun m => ?_
    split
    · exact pure _
    · split
      · exact pure _
      · split
        · exact throw _
        · exact (fetchFrom ..).bind fun _ => pure _
  | exported id name =>
    refine (moduleAt id).bind fun m => ?_
    split
    · exact pure _
    · exact (fetchFrom ..).bind fun _ => pure _
    · exact throw _
    · refine (findStarExport ..).bind fun found => ?_
      split
      · exact pure _
      · exact throw _

theorem circular (lookup : Lookup) :
    Repeatable capacity (ModuleBundler.circular lookup : Bundling α) :=
  (moduleAt _).bind fun _ => throw _

theorem follow (sources : Sources) (n : Nat) (seen : List Lookup) (lookup : Lookup) :
    Repeatable sources.capacity (ModuleBundler.follow sources n seen lookup) := by
  induction n generalizing seen lookup with
  | zero => exact circular lookup
  | succ n ih =>
    unfold ModuleBundler.follow
    split
    · exact circular lookup
    · refine (hop ..).bind fun answer => ?_
      split
      · exact pure _
      · exact pure _
      · exact ih _ _

theorem resolveName (sources : Sources) (id : Nat) (name : String) :
    Repeatable sources.capacity (ModuleBundler.resolveName sources id name) :=
  follow ..

/-- A text is made of what is there. -/
theorem generate (refs : List StatementRef) :
    Repeatable capacity (ModuleBundler.generate refs) := by
  have hlines : Repeatable capacity (refs.mapM lineAt) := by
    induction refs with
    | nil => exact pure _
    | cons ref refs ih =>
      rw [List.mapM_cons]
      exact ((moduleAt _).bind fun _ => pure _).bind fun _ => ih.bind fun _ => pure _
  exact hlines.bind fun _ => pure _

end Repeatable

end ModuleBundler

import ModuleBundler.Proofs.DepthFirst
import ModuleBundler.Proofs.Invariants

/-!
# ModuleBundler — the bundler ends

A bundler loops in three places: over its work list, along a chain of imports and
re-exports, and over the modules that star exports lead to. The modules are found on the
way, and so is the work. Its loops are stated here without any bound: there is room for
every module, and they go on until they come to an end by themselves. If there are
finitely many files, they do, whatever the files refer to in circles and whatever was
fetched and visited before.

Why they end: a search through star exports searches no module twice, a chain is given up
after `maxHops` lookups, and each step of the work list either keeps a further file, or
visits a further statement, or makes the list lighter.

* `Unlimited` — the loops of the bundler without bounds, and what is made of them.
* `Store.Roomy` — room for all files that are not kept.
* `Unlimited.Matches` — work without bounds comes to what bounded work comes to.
* `Unlimited.searchStars_eq`, `Unlimited.follow_matches`, `Unlimited.run_eq` — the three
  loops.
* `requests_end` — every request ends, from every store.
-/

namespace ModuleBundler

/-- The same sources with room for another number of modules. -/
def Sources.withCapacity (sources : Sources) (capacity : Nat) : Sources :=
  { sources with capacity := capacity }

/-- The modules of a table of files, however what an import names is resolved. -/
def FileTable.sourcesBy (t : FileTable) (resolve : Path → String → Path) : Sources :=
  ⟨resolve, t.read, t.entries.length⟩

-- ---------------------------------------------------------------------------
-- The loops without bounds
-- ---------------------------------------------------------------------------

/-- Sources of which any number of modules can be kept. -/
abbrev Unlimited := Sources

namespace Unlimited

/-- The number of the module of a path. There is always room for one more. -/
def fetch (sources : Unlimited) (path : Path) : Recursing Nat := fun s =>
  (ModuleBundler.fetch (sources.withCapacity (s.modules.size + 1)) path).toRecursing s

/-- The number of the module that an import in a file names. -/
def fetchFrom (sources : Unlimited) (importer : Path) (importee : String) : Recursing Nat :=
  fetch sources (sources.resolve importer importee)

/-- Fetches sources in order, up to the first one that exports a name itself. -/
def searchSources (sources : Unlimited) (importer : Path) (name : String) :
    List String → Recursing StarSources
  | [] => return .next []
  | source :: rest => do
    let id ← fetchFrom sources importer source
    let m ← moduleAt id
    if m.exports.contains name then return .found id
    else
      match ← searchSources sources importer name rest with
      | .found other => return .found other
      | .next ids => return .next (id :: ids)

/-- Searches the modules on a stack, less the visited ones, until the stack is empty. -/
def searchStars (sources : Unlimited) (name : String) (visited : List Nat) :
    List Nat → Recursing (Option Nat)
  | [] => return none
  | id :: rest =>
    if id ∈ visited then sources |>.searchStars name visited rest
    else do
      let m ← moduleAt id
      match ← searchSources sources m.path name m.starExports with
      | .found target => return some target
      | .next ids => sources |>.searchStars name (id :: visited) (ids ++ rest)
partial_fixpoint

/-- The module reached through star exports that exports a name itself. -/
def findStarExport (sources : Unlimited) (id : Nat) (name : String) : Recursing (Option Nat) :=
  if name = "default" then return none else searchStars sources name [] [id]

/-- The hop from a name in the scope of a module. -/
def hopInScope (sources : Unlimited) (id : Nat) (name : String) : Recursing Hop := do
  let m ← moduleAt id
  match m.definitions.find? name with
  | some index => return .defined ⟨id, index⟩
  | none =>
    match m.imports.find? name with
    | none => return .external
    | some binding =>
      if binding.name = "*" then throw (.unsupportedNamespace m.path name)
      else do
        let target ← fetchFrom sources m.path binding.source
        return .onward (.exported target binding.name)

/-- The hop from an exported name. -/
def hopExported (sources : Unlimited) (id : Nat) (name : String) : Recursing Hop := do
  let m ← moduleAt id
  match m.exports.find? name with
  | some ⟨localName, .here _⟩ => return .onward (.inScope id localName)
  | some ⟨_, .reexport source exported⟩ => do
    let target ← fetchFrom sources m.path source
    return .onward (.exported target exported)
  | some ⟨_, .wholeModule _⟩ => throw (.unsupportedNamespace m.path name)
  | none => do
    match ← findStarExport sources id name with
    | some target => return .onward (.exported target name)
    | none => throw (.exportNotFound m.path name)

/-- The answer to a lookup. -/
def hop (sources : Unlimited) : Lookup → Recursing Hop
  | .inScope id name => hopInScope sources id name
  | .exported id name => hopExported sources id name

/-- Hops on from a lookup until the search ends. It is given up at a lookup that was seen,
and after `maxHops` lookups. -/
def follow (sources : Unlimited) (seen : List Lookup) (lookup : Lookup) :
    Recursing (Option StatementRef) := do
  if maxHops ≤ seen.length ∨ lookup ∈ seen then (circular lookup : Bundling _)
  else
    match ← hop sources lookup with
    | .defined statement => return some statement
    | .external => return none
    | .onward next => sources |>.follow (lookup :: seen) next
partial_fixpoint

/-- The statement that defines a name in the scope of a module. -/
def resolveName (sources : Unlimited) (id : Nat) (name : String) :
    Recursing (Option StatementRef) :=
  follow sources [] (.inScope id name)

/-- Does the steps of a work list, until none is left. -/
def run (sources : Unlimited) (emitted : Array StatementRef) :
    List WorkItem → Recursing (Array StatementRef)
  | [] => return emitted
  | .emit ref :: rest => do
    modify (·.visit ref .emitted)
    sources |>.run (emitted.push ref) rest
  | .expand ref :: rest => do
    if (← get).isVisited ref then sources |>.run emitted rest
    else do
      let m ← moduleAt ref.moduleId
      match m.statement? ref.index with
      | none => sources |>.run emitted rest
      | some statement =>
        modify (·.visit ref .inProgress)
        sources |>.run emitted (statement.work ref ++ rest)
  | .define id name :: rest => do
    match ← resolveName sources id name with
    | none => sources |>.run emitted rest
    | some ref =>
      if (← get).isVisited ref then sources |>.run emitted rest
      else sources |>.run emitted (.expand ref :: rest)
partial_fixpoint

/-- Expands the statements of a module that carry code, one after the other. -/
def expandAll (sources : Unlimited) (id : Nat) : Recursing (Array StatementRef) := do
  let m ← moduleAt id
  let parts ← (m.codeRefs id).mapM fun ref => run sources #[] [.expand ref]
  return parts.foldl (· ++ ·) #[]

/-- The bundle of an entry module. -/
def build (sources : Unlimited) (entry : Path) : Recursing String := do
  let id ← fetch sources entry
  let refs ← expandAll sources id
  generate refs.toList

/-- What is done for a request. -/
def perform (sources : Unlimited) : Request → Recursing Reply
  | .fetch importee none => do return .moduleId (← fetch sources (.ofText importee))
  | .fetch importee (some importer) => do return .moduleId (← fetchFrom sources importer importee)
  | .define id name => do return .statements (← run sources #[] [.define id name])
  | .expand ref => do return .statements (← run sources #[] [.expand ref])
  | .expandAll id => do return .statements (← expandAll sources id)
  | .generate refs => do return .code (← ModuleBundler.generate refs)
  | .build entry => do return .code (← build sources entry)

end Unlimited

-- ---------------------------------------------------------------------------
-- Room for all files
-- ---------------------------------------------------------------------------

/-- Sources whose files are among finitely many, however their paths are spelled. -/
def Sources.FilesAmong (sources : Sources) (paths : List Path) : Prop :=
  ∀ ⦃path text⦄, sources.read path = .ok text → ∃ p ∈ paths, p.same path = true

theorem FileTable.filesAmong (files : FileTable) (resolve : Path → String → Path) :
    (files.sourcesBy resolve).FilesAmong (files.entries.map Prod.fst) := by
  intro path text h
  obtain ⟨i, hi⟩ := FileTable.exists_entry_of_read h
  exact ⟨_, List.mem_map_of_mem (List.getElem_mem i.2), hi⟩

namespace Store

variable {paths : List Path} {capacity : Nat} {s : Store}

/-- The number of paths whose module is not kept. -/
def unkept (paths : List Path) (s : Store) : Nat := paths.countP fun p => (s.find? p).isNone

/-- A store within a capacity that has room for the modules of some paths, too. -/
def Roomy (paths : List Path) (capacity : Nat) (s : Store) : Prop :=
  s.modules.size + s.unkept paths ≤ capacity

/-- Room for as many further modules as there are paths is enough. -/
theorem roomy_add_length (paths : List Path) (s : Store) :
    s.Roomy paths (s.modules.size + paths.length) :=
  Nat.add_le_add_left List.countP_le_length _

theorem find?_eq_none_of_same {p q : Path} (hq : s.find? q = none) (hsame : p.same q = true) :
    s.find? p = none := by
  rw [find?_eq_none_iff] at hq ⊢
  intro i m hm
  rw [Bool.eq_false_iff]
  intro hkept
  have hnot := hq i m hm
  rw [Path.same_trans hkept hsame] at hnot
  cases hnot

theorem find?_add_of_same {m : Module} {p : Path} (hsame : p.same m.path = true) :
    (s.add m).find? p ≠ none := by
  have hnew : (s.add m).modules[s.modules.size]? = some m := Array.getElem?_push_size
  rw [ne_eq, find?_eq_none_iff]
  intro hnone
  have hnot := hnone _ m hnew
  rw [Path.same_symm hsame] at hnot
  cases hnot

/-- Where a file is not kept there is room for its module. -/
theorem Roomy.size_lt (h : s.Roomy paths capacity) {q : Path} (hq : s.find? q = none)
    (hpath : ∃ p ∈ paths, p.same q = true) : s.modules.size < capacity := by
  obtain ⟨p, hp, hsame⟩ := hpath
  have hcount : 0 < s.unkept paths := by
    unfold unkept
    rw [List.countP_pos_iff]
    exact ⟨p, hp, Option.isNone_iff_eq_none.2 (find?_eq_none_of_same hq hsame)⟩
  unfold Roomy at h
  omega

/-- When its module is kept there is one path less that is not kept. -/
theorem Roomy.add (h : s.Roomy paths capacity) {m : Module} (hm : s.find? m.path = none)
    (hpath : ∃ p ∈ paths, p.same m.path = true) : (s.add m).Roomy paths capacity := by
  obtain ⟨p, hp, hsame⟩ := hpath
  have hlt : (s.add m).unkept paths < s.unkept paths := by
    refine countP_lt (fun q hq => ?_) hp ?_ ?_
    · rw [Option.isNone_iff_eq_none, find?_eq_none_iff] at hq ⊢
      exact fun i n hn => hq i n (extends_add s m hn)
    · rw [Option.isNone_eq_false_iff, Option.isSome_iff_ne_none]
      exact find?_add_of_same hsame
    · exact Option.isNone_iff_eq_none.2 (find?_eq_none_of_same hm hsame)
  have hsize : (s.add m).modules.size = s.modules.size + 1 := Array.size_push m
  unfold Roomy at h ⊢
  omega

end Store

-- ---------------------------------------------------------------------------
-- Work with and without bounds
-- ---------------------------------------------------------------------------

namespace Unlimited

/-- Bounded work one step after the other, taken as work that might not end. -/
theorem toRecursing_bind {α β : Type} (y : Bundling α) (g : α → Bundling β) (s : Store) :
    (y >>= g).toRecursing s =
      match y s with
      | .ok a t => (g a).toRecursing t
      | .error e t => some (.error e, t) := by
  unfold Bundling.toRecursing
  simp only [Bind.bind, EStateM.bind]
  cases y s <;> rfl

/-- Only what comes next where the first work succeeds has to come to the same. -/
theorem bind_eq {α β : Type} {x : Recursing α} {y : Bundling α} {f : α → Recursing β}
    {g : α → Bundling β} {s : Store} (hx : x s = y.toRecursing s)
    (hf : ∀ a t, y s = .ok a t → f a t = (g a).toRecursing t) :
    (x >>= f) s = (y >>= g).toRecursing s := by
  rw [toRecursing_bind]
  unfold Bundling.toRecursing at hx
  cases hy : y s with
  | ok a t =>
    rw [hy] at hx
    rw [Recursing.bind_of_ok hx]
    exact hf a t hy
  | error e t =>
    rw [hy] at hx
    exact Recursing.bind_of_error hx

/-- In stores with a property, which is kept, work without bounds comes to what bounded work
comes to. In particular it ends. -/
structure Matches {α : Type} (inv : Store → Prop) (x : Recursing α) (y : Bundling α) : Prop where
  eq : ∀ s, inv s → x s = y.toRecursing s
  keeps : Bundling.Keeps inv y

namespace Matches

variable {α β : Type} {inv : Store → Prop} {x : Recursing α} {y : Bundling α}

/-- Work without any loop is bounded. -/
theorem lift (h : Bundling.Keeps inv y) : Matches inv (liftM y : Recursing α) y :=
  ⟨fun _ _ => rfl, h⟩

theorem pure (a : α) : Matches inv (pure a : Recursing α) (pure a : Bundling α) :=
  ⟨fun _ _ => rfl, .pure a⟩

theorem throw (e : BuildError) : Matches inv (throw e : Recursing α) (throw e : Bundling α) :=
  ⟨fun _ _ => rfl, .throw e⟩

theorem keeps_of_ok (h : Matches inv x y) {s t : Store} {a : α} (hs : inv s)
    (hy : y s = .ok a t) : inv t := by
  have ht := h.keeps.storeAfter s hs
  rwa [Bundling.storeAfter, hy] at ht

theorem bind {f : α → Recursing β} {g : α → Bundling β} (h : Matches inv x y)
    (hf : ∀ a, Matches inv (f a) (g a)) : Matches inv (x >>= f) (y >>= g) :=
  ⟨fun s hs => bind_eq (h.eq s hs) fun a t hy => (hf a).eq t (h.keeps_of_ok hs hy),
    h.keeps.bind fun a => (hf a).keeps⟩

theorem ite {c : Prop} [Decidable c] {x' : Recursing α} {y' : Bundling α}
    (h : Matches inv x y) (h' : Matches inv x' y') :
    Matches inv (if c then x else x') (if c then y else y') := by
  split
  · exact h
  · exact h'

theorem mapM {f : α → Recursing β} {g : α → Bundling β} (h : ∀ a, Matches inv (f a) (g a))
    (l : List α) : Matches inv (l.mapM f) (l.mapM g) := by
  induction l with
  | nil =>
    rw [List.mapM_nil, List.mapM_nil]
    exact pure _
  | cons a l ih =>
    rw [List.mapM_cons, List.mapM_cons]
    exact (h a).bind fun _ => ih.bind fun _ => pure _

theorem moduleAt (id : Nat) :
    Matches inv (liftM (ModuleBundler.moduleAt id) : Recursing Module) (ModuleBundler.moduleAt id) :=
  lift (.moduleAt id)

end Matches

section Roomy

variable {sources : Sources} {paths : List Path} {capacity : Nat}
  (hfiles : sources.FilesAmong paths)

include hfiles

-- ---------------------------------------------------------------------------
-- Fetching
-- ---------------------------------------------------------------------------

theorem exists_path_of_moduleOf {path : Path} {id : Nat} {m : Module}
    (h : sources.moduleOf path id = .ok m) :
    ∃ p ∈ paths, p.same path = true := by
  obtain ⟨text, htext, -⟩ := Except.bind_eq_ok.1 h
  exact hfiles htext

/-- Where there is room for all files, room for one more module makes no difference. -/
theorem load_eq {s : Store} (hs : s.Roomy paths capacity) {path : Path}
    (hnone : s.find? path = none) :
    (sources.withCapacity (s.modules.size + 1)).load path s.modules.size =
      (sources.withCapacity capacity).load path s.modules.size := by
  have hmodule : ∀ c, (sources.withCapacity c).moduleOf path s.modules.size =
      sources.moduleOf path s.modules.size := fun _ => rfl
  unfold Sources.load
  rw [hmodule, hmodule]
  cases hm : sources.moduleOf path s.modules.size with
  | error e => rfl
  | ok m =>
    have hlt : s.modules.size < (sources.withCapacity capacity).capacity :=
      hs.size_lt hnone (exists_path_of_moduleOf hfiles hm)
    have hone : s.modules.size < (sources.withCapacity (s.modules.size + 1)).capacity :=
      Nat.lt_succ_self _
    simp only [Bind.bind, Except.bind, if_pos hlt, if_pos hone]

theorem fetch_matches (path : Path) :
    Matches (Store.Roomy paths capacity) (fetch sources path)
      (ModuleBundler.fetch (sources.withCapacity capacity) path) := by
  constructor
  · intro s hs
    unfold fetch Bundling.toRecursing
    cases hfind : s.find? path with
    | some id =>
      have hkept : ∀ c, ModuleBundler.fetch (sources.withCapacity c) path s = .ok id s :=
        fun c => fetch_eq_ok.2 (.inl ⟨hfind, rfl⟩)
      rw [hkept, hkept]
    | none =>
      rw [fetch_of_find?_eq_none hfind, fetch_of_find?_eq_none hfind, load_eq hfiles hs hfind]
  · refine .fetch (fun s e _ _ hs => hs) fun s m hnone hload hs => ?_
    have hpath := Sources.path_of_load hload
    obtain ⟨n, hn, -⟩ := Except.bind_eq_ok.1 hload
    subst hpath
    exact Store.Roomy.add (s := s.logRead m.path) hs hnone (exists_path_of_moduleOf hfiles hn)

theorem fetchFrom_matches (importer : Path) (importee : String) :
    Matches (Store.Roomy paths capacity) (fetchFrom sources importer importee)
      (ModuleBundler.fetchFrom (sources.withCapacity capacity) importer importee) :=
  fetch_matches hfiles _

-- ---------------------------------------------------------------------------
-- Star exports
-- ---------------------------------------------------------------------------

theorem searchSources_matches (importer : Path) (name : String) (list : List String) :
    Matches (Store.Roomy paths capacity) (searchSources sources importer name list)
      (ModuleBundler.searchSources (sources.withCapacity capacity) importer name list) := by
  induction list with
  | nil => exact .pure _
  | cons source rest ih =>
    refine (fetchFrom_matches hfiles importer source).bind fun id => (Matches.moduleAt id).bind
      fun m => .ite (.pure _) (ih.bind fun found => ?_)
    split
    · exact .pure _
    · exact .pure _

omit hfiles in
/-- The sources to search next are kept. -/
theorem searchSources_next_lt {importer : Path} {name : String} {list : List String}
    {ids : List Nat} {s t : Store}
    (h : ModuleBundler.searchSources sources importer name list s = .ok (.next ids) t) :
    ∀ id ∈ ids, id < t.modules.size := by
  induction list generalizing ids s with
  | nil =>
    cases h
    exact nofun
  | cons source rest ih =>
    obtain ⟨id, u, -, h⟩ := Bundling.bind_eq_ok.1 h
    obtain ⟨m, v, hat, h⟩ := Bundling.bind_eq_ok.1 h
    obtain ⟨hm, rfl⟩ := moduleAt_eq_ok.1 hat
    split at h
    · cases h
    · obtain ⟨found, w, hrest, h⟩ := Bundling.bind_eq_ok.1 h
      cases found with
      | found other => cases h
      | next others =>
        cases h
        have hgrows := (Bundling.OnlyFetches.of_fetchFrom fun h => .searchSources h importer name
          rest).grows_of_ok hrest
        intro i hi
        rcases List.mem_cons.1 hi with rfl | hi
        · exact Nat.lt_of_lt_of_le (Array.getElem?_eq_some_iff.1 hm).1 hgrows.size_mono
        · exact ih hrest i hi

omit hfiles in
theorem searchStars_of_visited {name : String} {visited stack : List Nat}
    (h : ∀ id ∈ stack, id ∈ visited) :
    searchStars sources name visited stack = pure none := by
  induction stack with
  | nil => rw [searchStars]
  | cons id rest ih =>
    rw [searchStars, if_pos (h id List.mem_cons_self)]
    exact ih fun i hi => h i (List.mem_cons_of_mem id hi)

/-- The rounds of a search through star exports are enough: where there are none left, all
modules were visited. -/
theorem searchStars_eq {name : String} {rounds : Nat} {visited stack : List Nat} {s : Store}
    (hs : s.Roomy paths capacity) (hnodup : visited.Nodup)
    (hvisited : ∀ id ∈ visited, id < s.modules.size) (hstack : ∀ id ∈ stack, id < s.modules.size)
    (hrounds : capacity ≤ rounds + visited.length) :
    searchStars sources name visited stack s =
      (ModuleBundler.searchStars (sources.withCapacity capacity) name rounds visited stack).toRecursing
        s := by
  fun_induction ModuleBundler.searchStars (sources.withCapacity capacity) name rounds visited stack
    generalizing s with
  | case1 visited stack =>
    have hsize : s.modules.size ≤ capacity := Nat.le_of_add_right_le hs
    have hperm : visited.Perm (List.range s.modules.size) := by
      refine (List.subperm_of_subset hnodup fun id hid => ?_).perm_of_length_le ?_
      · exact List.mem_range.2 (hvisited id hid)
      · rw [List.length_range]
        omega
    rw [searchStars_of_visited fun id hid => hperm.mem_iff.2 (List.mem_range.2 (hstack id hid))]
    rfl
  | case2 visited rounds hrounds' =>
    rw [searchStars]
    rfl
  | case3 visited n id rest hmem ih =>
    rw [searchStars, if_pos hmem]
    exact ih hs hnodup hvisited (fun i hi => hstack i (List.mem_cons_of_mem id hi)) hrounds
  | case4 visited n id rest hmem ih =>
    rw [searchStars, if_neg hmem]
    refine bind_eq rfl fun m t hat => ?_
    obtain ⟨hm, rfl⟩ := moduleAt_eq_ok.1 hat
    have hsources : Matches (Store.Roomy paths capacity) _ _ :=
      searchSources_matches hfiles m.path name m.starExports
    refine bind_eq (hsources.eq s hs) fun found t hfound => ?_
    cases found with
    | found target => rfl
    | next ids =>
      have hgrows := (Bundling.OnlyFetches.of_fetchFrom fun h => .searchSources h m.path name
        m.starExports).grows_of_ok hfound
      have hmono : ∀ i, i < s.modules.size → i < t.modules.size :=
        fun i hi => Nat.lt_of_lt_of_le hi hgrows.size_mono
      refine ih ids (hsources.keeps_of_ok hs hfound) (List.nodup_cons.2 ⟨hmem, hnodup⟩)
        (fun i hi => ?_) (fun i hi => ?_) ?_
      · rcases List.mem_cons.1 hi with rfl | hi
        · exact hmono _ (hstack _ List.mem_cons_self)
        · exact hmono i (hvisited i hi)
      · rcases List.mem_append.1 hi with hi | hi
        · exact searchSources_next_lt hfound i hi
        · exact hmono i (hstack i (List.mem_cons_of_mem id hi))
      · rw [List.length_cons]
        omega

theorem findStarExport_eq {id : Nat} {name : String} {s : Store} (hs : s.Roomy paths capacity)
    (hid : id < s.modules.size) :
    findStarExport sources id name s =
      (ModuleBundler.findStarExport (sources.withCapacity capacity) id name).toRecursing s := by
  unfold findStarExport Bundling.toRecursing ModuleBundler.findStarExport
  by_cases hname : name = "default"
  · rw [if_pos hname, if_pos hname]
    rfl
  · have hsize : s.modules.size ≤ capacity := Nat.le_of_add_right_le hs
    have hrounds : max s.modules.size (sources.withCapacity capacity).capacity = capacity :=
      Nat.max_eq_right hsize
    rw [if_neg hname, if_neg hname, hrounds]
    refine searchStars_eq hfiles hs .nil nofun (fun i hi => ?_) (Nat.le_refl _)
    rw [List.mem_singleton.1 hi]
    exact hid

-- ---------------------------------------------------------------------------
-- Chains
-- ---------------------------------------------------------------------------

theorem keeps_fetchFrom (importer : Path) (importee : String) :
    Bundling.Keeps (Store.Roomy paths capacity)
      (ModuleBundler.fetchFrom (sources.withCapacity capacity) importer importee) :=
  (fetchFrom_matches hfiles importer importee).keeps

theorem hopInScope_matches (id : Nat) (name : String) :
    Matches (Store.Roomy paths capacity) (hopInScope sources id name)
      (ModuleBundler.hopInScope (sources.withCapacity capacity) id name) := by
  refine (Matches.moduleAt id).bind fun m => ?_
  cases m.definitions.find? name with
  | some index => exact .pure _
  | none =>
    cases m.imports.find? name with
    | none => exact .pure _
    | some binding =>
      exact .ite (.throw _) ((fetchFrom_matches hfiles _ _).bind fun _ => .pure _)

theorem hopExported_eq {id : Nat} {name : String} {s : Store} (hs : s.Roomy paths capacity) :
    hopExported sources id name s =
      (ModuleBundler.hopExported (sources.withCapacity capacity) id name).toRecursing s := by
  refine bind_eq rfl fun m t hat => ?_
  obtain ⟨hm, rfl⟩ := moduleAt_eq_ok.1 hat
  cases m.exports.find? name with
  | none =>
    refine bind_eq (findStarExport_eq hfiles hs (Array.getElem?_eq_some_iff.1 hm).1)
      fun found t _ => ?_
    cases found with
    | none => rfl
    | some target => rfl
  | some binding =>
    obtain ⟨localName, target⟩ := binding
    cases target with
    | here statement => rfl
    | reexport source exported =>
      exact ((fetchFrom_matches hfiles m.path source).bind fun _ => .pure _).eq s hs
    | wholeModule source => rfl

theorem hop_matches (lookup : Lookup) :
    Matches (Store.Roomy paths capacity) (hop sources lookup)
      (ModuleBundler.hop (sources.withCapacity capacity) lookup) := by
  refine ⟨fun s hs => ?_, .hop (keeps_fetchFrom hfiles) lookup⟩
  cases lookup with
  | inScope id name => exact (hopInScope_matches hfiles id name).eq s hs
  | exported id name => exact hopExported_eq hfiles hs

/-- A chain is as long as the lookups that were seen and those that are still allowed. -/
theorem follow_matches {n : Nat} {seen : List Lookup} (hn : seen.length + n = maxHops)
    (lookup : Lookup) :
    Matches (Store.Roomy paths capacity) (follow sources seen lookup)
      (ModuleBundler.follow (sources.withCapacity capacity) n seen lookup) := by
  induction n generalizing seen lookup with
  | zero =>
    rw [follow, if_pos (.inl (Nat.le_of_eq hn.symm))]
    exact .lift (.circular lookup)
  | succ n ih =>
    have hmore : ¬ maxHops ≤ seen.length := by omega
    rw [follow]
    unfold ModuleBundler.follow
    by_cases hseen : lookup ∈ seen
    · rw [if_pos (.inr hseen), if_pos hseen]
      exact .lift (.circular lookup)
    · rw [if_neg (not_or.2 ⟨hmore, hseen⟩), if_neg hseen]
      refine (hop_matches hfiles lookup).bind fun answer => ?_
      cases answer with
      | defined statement => exact .pure _
      | external => exact .pure _
      | onward next => exact ih (by rw [List.length_cons]; omega) next

theorem resolveName_matches (id : Nat) (name : String) :
    Matches (Store.Roomy paths capacity) (resolveName sources id name)
      (ModuleBundler.resolveName (sources.withCapacity capacity) id name) :=
  follow_matches hfiles (Nat.zero_add _) _

-- ---------------------------------------------------------------------------
-- The work list
-- ---------------------------------------------------------------------------

/-- The induction is that of the bounded work list: each step keeps a module, visits a
statement or makes the list lighter. -/
theorem run_eq {emitted : Array StatementRef} {work : List WorkItem} {s : Store}
    (hs : s.Roomy paths capacity) :
    run sources emitted work s =
      Bundling.toRecursing (ModuleBundler.run (sources.withCapacity capacity) emitted work) s := by
  have hresolve : ∀ id name, Matches (Store.Roomy paths capacity) _ _ :=
    fun id name => resolveName_matches hfiles id name
  -- what a search comes to without bounds
  have hname : ∀ {id name s r t}, s.Roomy paths capacity →
      ModuleBundler.resolveName (sources.withCapacity capacity) id name s = .ok r t →
      resolveName sources id name s = some (.ok r, t) ∧ t.Roomy paths capacity := by
    intro id name s r t hs hr
    refine ⟨?_, (hresolve id name).keeps_of_ok hs hr⟩
    rw [(hresolve id name).eq s hs, Bundling.toRecursing, hr]
  unfold Bundling.toRecursing
  fun_induction ModuleBundler.run (sources.withCapacity capacity) emitted work s with
  | case1 emitted s =>
    rw [run]
    rfl
  | case2 emitted s ref rest ih =>
    rw [run]
    exact ih hs
  | case3 emitted s ref rest hv ih =>
    rw [run, Recursing.bind_of_ok (x := get) rfl, if_pos hv]
    exact ih hs
  | case4 emitted s ref rest hv hm =>
    have hat : moduleAt ref.moduleId s = .error (.noSuchModule ref.moduleId) s :=
      moduleAt_eq_error.2 ⟨hm, rfl, rfl⟩
    rw [run, Recursing.bind_of_ok (x := get) rfl, if_neg hv,
      Recursing.bind_of_error (Recursing.lift_of_error hat)]
  | case5 emitted s ref rest hv m hm hst ih =>
    have hat : moduleAt ref.moduleId s = .ok m s := moduleAt_eq_ok.2 ⟨hm, rfl⟩
    rw [run, Recursing.bind_of_ok (x := get) rfl, if_neg hv,
      Recursing.bind_of_ok (Recursing.lift_of_ok hat), hst]
    exact ih hs
  | case6 emitted s ref rest hv m hm st hst ih =>
    have hat : moduleAt ref.moduleId s = .ok m s := moduleAt_eq_ok.2 ⟨hm, rfl⟩
    rw [run, Recursing.bind_of_ok (x := get) rfl, if_neg hv,
      Recursing.bind_of_ok (Recursing.lift_of_ok hat), hst]
    exact ih hs
  | case7 emitted s id name rest e t hr =>
    have hfails : resolveName sources id name s = some (.error e, t) := by
      rw [(hresolve id name).eq s hs, Bundling.toRecursing, hr]
    rw [run, Recursing.bind_of_error hfails]
  | case8 emitted s id name rest t hr ih =>
    obtain ⟨hr, ht⟩ := hname hs hr
    rw [run, Recursing.bind_of_ok hr]
    exact ih ht
  | case9 emitted s id name rest ref t hr hv ih =>
    obtain ⟨hr, ht⟩ := hname hs hr
    rw [run, Recursing.bind_of_ok hr]
    dsimp only
    rw [Recursing.bind_of_ok (x := get) rfl, if_pos hv]
    exact ih ht
  | case10 emitted s id name rest ref t hr hv ih =>
    obtain ⟨hr, ht⟩ := hname hs hr
    rw [run, Recursing.bind_of_ok hr]
    dsimp only
    rw [Recursing.bind_of_ok (x := get) rfl, if_neg hv]
    exact ih ht

theorem run_matches (emitted : Array StatementRef) (work : List WorkItem) :
    Matches (Store.Roomy paths capacity) (run sources emitted work)
      (ModuleBundler.run (sources.withCapacity capacity) emitted work) :=
  ⟨fun _ hs => run_eq hfiles hs, .run (keeps_fetchFrom hfiles) (fun _ _ _ hs => hs) emitted work⟩

theorem expandAll_matches (id : Nat) :
    Matches (Store.Roomy paths capacity) (expandAll sources id)
      (ModuleBundler.expandAll (sources.withCapacity capacity) id) :=
  (Matches.moduleAt id).bind fun m =>
    (Matches.mapM (fun _ => run_matches hfiles _ _) (m.codeRefs id)).bind fun _ => .pure _

theorem build_matches (entry : Path) :
    Matches (Store.Roomy paths capacity) (build sources entry)
      (ModuleBundler.build (sources.withCapacity capacity) entry) :=
  (fetch_matches hfiles entry).bind fun id => (expandAll_matches hfiles id).bind fun refs =>
    .lift (.generate refs.toList)

/-- Without bounds a request comes to what it comes to with room for all files. -/
theorem perform_matches (request : Request) :
    Matches (Store.Roomy paths capacity) (perform sources request)
      (request.perform (sources.withCapacity capacity)) := by
  cases request with
  | fetch importee importer =>
    cases importer with
    | none => exact (fetch_matches hfiles _).bind fun _ => .pure _
    | some importer => exact (fetchFrom_matches hfiles importer importee).bind fun _ => .pure _
  | define id name => exact (run_matches hfiles _ _).bind fun _ => .pure _
  | expand ref => exact (run_matches hfiles _ _).bind fun _ => .pure _
  | expandAll id => exact (expandAll_matches hfiles id).bind fun _ => .pure _
  | generate refs => exact (Matches.lift (.generate refs)).bind fun _ => .pure _
  | build entry => exact (build_matches hfiles entry).bind fun _ => .pure _

end Roomy

end Unlimited

-- ---------------------------------------------------------------------------
-- The end of every request
-- ---------------------------------------------------------------------------

/-- Bounded work always ends. -/
theorem Bundling.exists_toRecursing_eq {α : Type} (x : Bundling α) (s : Store) :
    ∃ result t, x.toRecursing s = some (result, t) := by
  unfold Bundling.toRecursing
  cases x s with
  | ok a t => exact ⟨_, _, rfl⟩
  | error e t => exact ⟨_, _, rfl⟩

/-- With finitely many files every request ends, in success or failure: to build a bundle, to
define a name, to expand a statement or all statements of a module. So it is from every
store, whatever is kept and visited there. And from the stores that requests lead to it
comes to the same as with the bounds, which are never met. -/
theorem requests_end (files : FileTable) (resolve : Path → String → Path) :
    (∀ (request : Request) (s : Store), ∃ result t,
      Unlimited.perform (files.sourcesBy resolve) request s = some (result, t)) ∧
      ∀ (requests : List Request) (request : Request),
        let s := (serve (files.sourcesBy resolve) requests .empty).2
        Unlimited.perform (files.sourcesBy resolve) request s =
          (request.perform (files.sourcesBy resolve)).toRecursing s := by
  have hfiles := files.filesAmong resolve
  constructor
  · intro request s
    have hs := s.roomy_add_length (files.entries.map Prod.fst)
    rw [(Unlimited.perform_matches hfiles request).eq s hs]
    exact Bundling.exists_toRecursing_eq _ s
  · intro requests request
    have hempty : Store.Roomy (files.entries.map Prod.fst) files.entries.length .empty := by
      have h := Store.empty.roomy_add_length (files.entries.map Prod.fst)
      rwa [List.length_map, show Store.empty.modules.size = 0 from rfl, Nat.zero_add] at h
    have hfetch : ∀ path, Bundling.Keeps _ (fetch (files.sourcesBy resolve) path) :=
      fun path => (Unlimited.fetch_matches hfiles path).keeps
    have hs := keeps_serve hfetch (fun _ _ _ hs => hs) requests hempty
    exact (Unlimited.perform_matches hfiles request).eq _ hs

end ModuleBundler

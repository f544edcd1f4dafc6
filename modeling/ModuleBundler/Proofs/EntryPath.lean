import ModuleBundler.Proofs.Cache
import ModuleBundler.Proofs.Chains
import ModuleBundler.Proofs.NormalPaths

/-!
# ModuleBundler — the path of the entry

The entry of a bundle is known by its path as it is given, every other module by the
normal path that an import names. So a file is one module, whatever the spelling of
the imports, but for one case: the path of the entry is not normal, and the entry is
imported back. Then the file of the entry is kept for a second time under the normal
path, and its statements may be emitted for a second time.

* `Store.SameFile` — numbers of modules whose normal paths are the same.
* `Store.EntryTwice` — the two modules of an entry whose path is not normal.
* `one_module_for_each_file` — modules of one file are one module, or those two.
* `entry_kept_twice` — a file that imports itself, with a `.` in front of its path.
-/

namespace ModuleBundler

variable {sources : Sources} {entry : Path} {s t u : Store} {i j : Nat}

-- ---------------------------------------------------------------------------
-- Modules of one file
-- ---------------------------------------------------------------------------

namespace Store

/-- Modules of one file: their normal paths are the same. -/
def SameFile (s : Store) (i j : Nat) : Prop :=
  ∃ m n : Module, s.modules[i]? = some m ∧ s.modules[j]? = some n ∧
    m.path.normalize.same n.path.normalize = true

/-- The modules of an entry whose path is not normal, the one under that path and the
other one under its normal path. -/
def EntryTwice (s : Store) (entry : Path) (i j : Nat) : Prop :=
  entry.same entry.normalize = false ∧ ∃ m n : Module, s.modules[i]? = some m ∧
    s.modules[j]? = some n ∧ m.path.same entry = true ∧ n.path.same entry.normalize = true

/-- Each module is known by the path of the entry or by a normal path. -/
def KnownFrom (entry : Path) (s : Store) : Prop :=
  ∀ (i : Nat) (m : Module), s.modules[i]? = some m →
    m.path.same entry = true ∨ m.path.same m.path.normalize = true

theorem KnownFrom.empty (entry : Path) : Store.empty.KnownFrom entry := by
  intro i m hm
  simp [Store.empty] at hm

theorem KnownFrom.add (h : s.KnownFrom entry) {m : Module}
    (hm : m.path.same entry = true ∨ m.path.same m.path.normalize = true) :
    (s.add m).KnownFrom entry := by
  intro i n hn
  rcases getElem?_add hn with hn | ⟨-, rfl⟩
  · exact h i n hn
  · exact hm

/-- The path of a module of the same file as the entry. -/
theorem entryTwice_or_eq (hs : s.Coherent sources) {m n : Module} (hm : s.modules[i]? = some m)
    (hn : s.modules[j]? = some n) (hentry : m.path.same entry = true)
    (hnormal : n.path.same n.path.normalize = true)
    (h : m.path.normalize.same n.path.normalize = true) : i = j ∨ s.EntryTwice entry i j := by
  have hpath : n.path.same entry.normalize = true := by
    rw [← Path.normalize_eq_of_same hentry]
    exact Path.same_trans hnormal (Path.same_symm h)
  cases hsame : entry.same entry.normalize with
  | true =>
    have hmn := Path.same_trans hentry (Path.same_trans hsame (Path.same_symm hpath))
    exact .inl (hs.distinct hm hn hmn)
  | false => exact .inr ⟨hsame, m, n, hm, hn, hentry, hpath⟩

/-- Modules of one file are one module, or those of an entry that is kept twice. -/
theorem KnownFrom.eq_or_entryTwice (h : s.KnownFrom entry) (hs : s.Coherent sources)
    (hij : s.SameFile i j) : i = j ∨ s.EntryTwice entry i j ∨ s.EntryTwice entry j i := by
  obtain ⟨m, n, hm, hn, hp⟩ := hij
  rcases h i m hm with hentry | hnormal
  · rcases h j n hn with hentry' | hnormal'
    · exact .inl (hs.distinct hm hn (Path.same_trans hentry (Path.same_symm hentry')))
    · exact (entryTwice_or_eq hs hm hn hentry hnormal' hp).imp_right .inl
  · rcases h j n hn with hentry' | hnormal'
    · rcases entryTwice_or_eq hs hn hm hentry' hnormal (Path.same_symm hp) with rfl | htwice
      · exact .inl rfl
      · exact .inr (.inr htwice)
    · have hmn := Path.same_trans hnormal (Path.same_trans hp (Path.same_symm hnormal'))
      exact .inl (hs.distinct hm hn hmn)

end Store

-- ---------------------------------------------------------------------------
-- Builds
-- ---------------------------------------------------------------------------

theorem keeps_knownFrom_fetch {path : Path}
    (hpath : path.same entry = true ∨ path.same path.normalize = true) :
    Bundling.Keeps (Store.KnownFrom entry) (fetch sources path) := by
  refine .fetch (fun s e _ _ hs => hs) fun s m _ hload hs => ?_
  obtain rfl := Sources.path_of_load hload
  exact Store.KnownFrom.add (s := s.logRead m.path) hs hpath

/-- A bundle of an entry only fetches the entry and what imports name. -/
theorem keeps_knownFrom_build (hresolve : sources.resolve = Path.resolve) :
    Bundling.Keeps (Store.KnownFrom entry) (build sources entry) := by
  refine .build (fun importer importee => ?_) (fun _ _ _ hs => hs)
    (keeps_knownFrom_fetch (.inl (Path.same_refl entry)))
  refine keeps_knownFrom_fetch (.inr ?_)
  rw [hresolve]
  exact Path.same_normalize_resolve importer importee

theorem keeps_recorded_build : Bundling.Keeps (Store.Recorded sources) (build sources entry) :=
  .build (fun _ _ => Store.Recorded.fetch sources _) (fun _ ref v hs => hs.visit ref v)
    (Store.Recorded.fetch sources entry)

/-- The statements of a bundle are emitted once each. -/
theorem nodup_entryRefs {refs : Array StatementRef}
    (h : entryRefs sources entry .empty = .ok refs u) : refs.toList.Nodup := by
  have haccounts : Accounts (entryRefs sources entry) Array.toList :=
    (Accounts.of_onlyFetches (.fetch sources entry)).bind fun id => .expandAll id
  exact (List.nodup_append.1 (haccounts.ok h Accounted.empty).nodup).1

/-- A bundle is the text of the statements that are emitted for it. -/
theorem entryRefs_of_build {code : String} (h : build sources entry .empty = .ok code u) :
    ∃ refs, entryRefs sources entry .empty = .ok refs u ∧ generate refs.toList u = .ok code u := by
  rw [build_eq] at h
  obtain ⟨refs, t, hrefs, hcode⟩ := Bundling.bind_eq_ok.1 h
  -- putting the text together leaves the store as it is
  obtain rfl : t = u := by
    have hkeeps : Bundling.Keeps (t = ·) (generate refs.toList) := .generate refs.toList
    have hstore := hkeeps.storeAfter t rfl
    rwa [Bundling.storeAfter, hcode] at hstore
  exact ⟨refs, hrefs, hcode⟩

/-- Modules that a bundle keeps for one file are one module, or the entry is kept
twice. In its text no statement of a file is emitted twice, but for those of an entry
that is kept twice. -/
theorem one_module_for_each_file (read : Path → Except BuildError String) (capacity : Nat)
    (entry : Path) :
    let sources : Sources := ⟨Path.resolve, read, capacity⟩
    let u := (build sources entry).storeAfter .empty
    (∀ i j : Nat, u.SameFile i j → i = j ∨ u.EntryTwice entry i j ∨ u.EntryTwice entry j i) ∧
    ∀ code t, build sources entry .empty = .ok code t →
      ∃ refs, entryRefs sources entry .empty = .ok refs t ∧
        generate refs.toList t = .ok code t ∧
        refs.toList.Pairwise fun ref other =>
          t.SameFile ref.moduleId other.moduleId → ref.index = other.index →
            t.EntryTwice entry ref.moduleId other.moduleId ∨
              t.EntryTwice entry other.moduleId ref.moduleId := by
  intro sources u
  have hresolve : sources.resolve = Path.resolve := by dsimp only [sources]
  have hknown : u.KnownFrom entry := (keeps_knownFrom_build hresolve).storeAfter _ (.empty entry)
  have hu : u.Recorded sources := keeps_recorded_build.storeAfter _ (.empty sources)
  have hfiles : ∀ i j : Nat, u.SameFile i j →
      i = j ∨ u.EntryTwice entry i j ∨ u.EntryTwice entry j i :=
    fun i j => hknown.eq_or_entryTwice hu.toCoherent
  have hstore : ∀ code t, build sources entry .empty = .ok code t → t = u := fun code t h => by
    rw [show u = (build sources entry).storeAfter .empty from rfl, Bundling.storeAfter, h]
  clear_value u
  refine ⟨hfiles, fun code t h => ?_⟩
  obtain rfl := hstore code t h
  obtain ⟨refs, hrefs, hcode⟩ := entryRefs_of_build h
  refine ⟨refs, hrefs, hcode, (nodup_entryRefs hrefs).imp fun {ref other} hne hfile hindex => ?_⟩
  refine (hfiles _ _ hfile).resolve_left fun hid => hne ?_
  obtain ⟨id, index⟩ := ref
  obtain ⟨id', index'⟩ := other
  obtain rfl : id = id' := hid
  obtain rfl : index = index' := hindex
  rfl

-- ---------------------------------------------------------------------------
-- An entry that is kept twice
-- ---------------------------------------------------------------------------

/-- A file that imports a constant of its own under another name. -/
def ownImport : FileTable :=
  ⟨[(.ofText "a.js", .holds "import { x as y } from './a.js';\nexport const x = 1;\ny;\n")]⟩

/-- The file as the source of a bundler that does not look at how far a path is from
normal. -/
def ownImportSources : Sources := ⟨Path.resolve, fun path => ownImport.read path.normalize, 2⟩

/-- The path of the file with a `.` in front. -/
def dottedPath : Path := .ofText "./a.js"

/-- The path that the file imports. -/
def importedPath : Path := Path.resolve dottedPath "./a.js"

/-- The module of a number under a path. -/
def ownImportModule (id : Nat) (path : Path) : Module :=
  (ownImportSources.moduleOf path id).toOption.getD default

theorem moduleOf_ownImport {id : Nat} {path : Path}
    (h : (ownImportSources.moduleOf path id).isOk = true) :
    ownImportSources.moduleOf path id = .ok (ownImportModule id path) ∧
      (ownImportModule id path).path = path := by
  have hm : ownImportSources.moduleOf path id = .ok (ownImportModule id path) := eq_ok_of_isOk h
  obtain ⟨text, -, hread⟩ := Except.bind_eq_ok.1 hm
  exact ⟨hm, Module.path_of_read hread⟩

theorem dottedModule_facts :
    (ownImportSources.moduleOf dottedPath).isOk = true ∧
      (ownImportModule 0 dottedPath).definitions.find? "y" = none ∧
      (ownImportModule 0 dottedPath).imports.find? "y" = some ⟨"./a.js", "x"⟩ ∧
      (ownImportModule 0 dottedPath).codeRefs 0 = [⟨0, 1⟩, ⟨0, 2⟩] ∧
      (ownImportModule 0 dottedPath).statements.toList.map Statement.dependsOn = [[], [], ["y"]] ∧
      (ownImportModule 0 dottedPath).emittedText? 1 = some "const x = 1;" ∧
      (ownImportModule 0 dottedPath).emittedText? 2 = some "y;" := by
  decide +kernel

theorem importedModule_facts :
    (ownImportSources.moduleOf importedPath 1).isOk = true ∧
      (ownImportModule 1 importedPath).definitions.find? "x" = some 1 ∧
      (ownImportModule 1 importedPath).exports.find? "x" = some ⟨"x", .here (some 1)⟩ ∧
      ((ownImportModule 1 importedPath).statement? 1).map Statement.dependsOn = some [] ∧
      (ownImportModule 1 importedPath).emittedText? 1 = some "const x = 1;" := by
  decide +kernel

/-- The constant is found in the file as it is imported, which is kept besides. -/
theorem resolveName_ownImport {s : Store} (hs : s.modules = #[ownImportModule 0 dottedPath]) :
    resolveName ownImportSources 0 "y" s =
      .ok (some ⟨1, 1⟩) ((s.logRead importedPath).add (ownImportModule 1 importedPath)) := by
  obtain ⟨hok, hdefinition, himport, -⟩ := dottedModule_facts
  obtain ⟨hok', hdefinition', hexport, -⟩ := importedModule_facts
  obtain ⟨-, hpath⟩ := moduleOf_ownImport hok
  obtain ⟨hmodule, -⟩ := moduleOf_ownImport hok'
  have hm : s.modules[0]? = some (ownImportModule 0 dottedPath) := by simp [hs]
  have hdiffer : dottedPath.same importedPath = false := by decide +kernel
  have hnone : s.find? importedPath = none := by simp [Store.find?, hs, hpath, hdiffer]
  have hsize : s.modules.size = 1 := by simp [hs]
  have hload : ownImportSources.load importedPath s.modules.size =
      .ok (ownImportModule 1 importedPath) := by
    rw [hsize]
    exact Sources.load_eq_ok.2 ⟨hmodule, by decide⟩
  have hfetch : fetchFrom ownImportSources (ownImportModule 0 dottedPath).path "./a.js" s =
      .ok 1 ((s.logRead importedPath).add (ownImportModule 1 importedPath)) := by
    rw [hpath]
    exact fetch_eq_ok.2 (.inr ⟨hnone, _, hload, hsize, rfl⟩)
  generalize ht : (s.logRead importedPath).add (ownImportModule 1 importedPath) = t at hfetch ⊢
  have hn : t.modules[1]? = some (ownImportModule 1 importedPath) := by
    rw [← ht]
    simp [Store.add, Store.logRead, hs]
  have hleads : Leads ownImportSources (.inScope 0 "y") s [.exported 1 "x", .inScope 0 "y"]
      (.inScope 1 "x") t :=
    (Leads.start.onward (.imported hm hdefinition himport (by decide) hfetch)).onward
      (.here hn hexport)
  have hfinish : Finishes ownImportSources (.inScope 0 "y") s 3 (.ok (some ⟨1, 1⟩) t) :=
    ⟨_, _, _, hleads, rfl, .defined (.defined hn hdefinition')⟩
  exact hfinish.follow_eq (by decide)

/-- The constant is emitted once for the entry, and once for what the entry imports. -/
theorem entryRefs_ownImport : ∃ u,
    entryRefs ownImportSources dottedPath .empty = .ok #[⟨0, 1⟩, ⟨1, 1⟩, ⟨0, 2⟩] u ∧
      u.modules = #[ownImportModule 0 dottedPath, ownImportModule 1 importedPath] := by
  obtain ⟨hok, -, -, hcode, hdepends, -⟩ := dottedModule_facts
  obtain ⟨-, -, -, hdepends', -⟩ := importedModule_facts
  have hfetch := fetch_empty (moduleOf_ownImport hok).1 (by decide)
  generalize hs : (Store.empty.logRead dottedPath).add (ownImportModule 0 dottedPath) = s at hfetch
  have hmodules : s.modules = #[ownImportModule 0 dottedPath] := by
    rw [← hs]
    rfl
  have hv : ∀ ref, s.isVisited ref = false := by
    intro ref
    rw [← hs]
    simp [Store.isVisited, Store.add, Store.logRead, Store.empty]
  have hm : s.modules[0]? = some (ownImportModule 0 dottedPath) := by simp [hmodules]
  have hstatement : ∀ {i : Nat} {names : List String},
      ((ownImportModule 0 dottedPath).statements.toList.map Statement.dependsOn)[i]? = some names →
      ∃ st, (ownImportModule 0 dottedPath).statement? i = some st ∧ st.dependsOn = names := by
    intro i names h
    rw [List.getElem?_map, Array.getElem?_toList] at h
    exact Option.map_eq_some_iff.1 h
  obtain ⟨constant, hconstant, hnone⟩ := @hstatement 1 [] (by rw [hdepends]; rfl)
  obtain ⟨use, huse, hnames⟩ := @hstatement 2 ["y"] (by rw [hdepends]; rfl)
  obtain ⟨again, hagain, hnone'⟩ := Option.map_eq_some_iff.1 hdepends'
  let s₁ := (s.visit ⟨0, 1⟩ .inProgress).visit ⟨0, 1⟩ .emitted
  have hfirst : expand ownImportSources ⟨0, 1⟩ s = .ok #[⟨0, 1⟩] s₁ :=
    expand_of_dependsOn_nil ⟨_, hm, hconstant⟩ (hv _) hnone
  let s₂ := s₁.visit ⟨0, 2⟩ .inProgress
  let s₃ := (s₂.logRead importedPath).add (ownImportModule 1 importedPath)
  let s₄ := (s₃.visit ⟨1, 1⟩ .inProgress).visit ⟨1, 1⟩ .emitted
  have hresolve : resolveName ownImportSources 0 "y" s₂ = .ok (some ⟨1, 1⟩) s₃ :=
    resolveName_ownImport hmodules
  have hlast : s₃.modules = #[ownImportModule 0 dottedPath, ownImportModule 1 importedPath] := by
    show s.modules.push (ownImportModule 1 importedPath) = _
    rw [hmodules]
    rfl
  have hvisited : ∀ ref, s₃.isVisited ref = s₂.isVisited ref := fun _ => rfl
  have hsteps : Steps ownImportSources ⟨[], [.expand ⟨0, 2⟩], s₁⟩
      ⟨[⟨1, 1⟩, ⟨0, 2⟩], [], s₄.visit ⟨0, 2⟩ .emitted⟩ := by
    refine .head (.enter (by simp [s₁, hv]) ⟨_, hm, huse⟩) ?_
    rw [Statement.work, hnames]
    refine .head (.need hresolve (by simp [hvisited, s₂, s₁, hv])) ?_
    refine .head (.enter (by simp [hvisited, s₂, s₁, hv]) ⟨_, by simp [hlast], hagain⟩) ?_
    rw [Statement.work, hnone']
    exact .head .emit (.head .emit .refl)
  have hsecond : expand ownImportSources ⟨0, 2⟩ s₁ =
      .ok #[⟨1, 1⟩, ⟨0, 2⟩] (s₄.visit ⟨0, 2⟩ .emitted) := run_of_steps hsteps
  have hparts : ((ownImportModule 0 dottedPath).codeRefs 0).mapM (expand ownImportSources) s =
      .ok [#[⟨0, 1⟩], #[⟨1, 1⟩, ⟨0, 2⟩]] (s₄.visit ⟨0, 2⟩ .emitted) := by
    rw [hcode]
    simp only [List.mapM_cons, List.mapM_nil, Bind.bind, EStateM.bind, hfirst, hsecond]
    rfl
  exact ⟨s₄.visit ⟨0, 2⟩ .emitted, entryRefs_of_mapM hfetch hm hparts, hlast⟩

theorem build_ownImport : ∃ u,
    build ownImportSources dottedPath .empty = .ok "const x = 1;\nconst x = 1;\ny;\n" u ∧
      u.SameFile 0 1 := by
  obtain ⟨u, hrefs, hmodules⟩ := entryRefs_ownImport
  obtain ⟨hok, -, -, -, -, hconstant, huse⟩ := dottedModule_facts
  obtain ⟨hok', -, -, -, hagain⟩ := importedModule_facts
  have hm : u.modules[0]? = some (ownImportModule 0 dottedPath) := by simp [hmodules]
  have hn : u.modules[1]? = some (ownImportModule 1 importedPath) := by simp [hmodules]
  have hfile : dottedPath.normalize.same importedPath.normalize = true := by decide +kernel
  refine ⟨u, ?_, _, _, hm, hn, ?_⟩
  · rw [build_eq]
    refine Bundling.bind_eq_ok.2 ⟨_, u, hrefs, ?_⟩
    have h₁ : lineAt ⟨0, 1⟩ u = _ := lineAt_of_emittedText? hm hconstant
    have h₂ : lineAt ⟨1, 1⟩ u = _ := lineAt_of_emittedText? hn hagain
    have h₃ : lineAt ⟨0, 2⟩ u = _ := lineAt_of_emittedText? hm huse
    simp only [generate, List.mapM_cons, List.mapM_nil, Bind.bind, EStateM.bind, h₁, h₂, h₃]
    rfl
  · rw [(moduleOf_ownImport hok).2, (moduleOf_ownImport hok').2]
    exact hfile

theorem one_module_for_each_file_ownImport :
    let u := (build ownImportSources dottedPath).storeAfter .empty
    u.SameFile 0 1 ∧ (u.EntryTwice dottedPath 0 1 ∨ u.EntryTwice dottedPath 1 0) := by
  intro u
  obtain ⟨t, hbuild, hfile⟩ := build_ownImport
  obtain rfl : u = t := by
    rw [show u = (build ownImportSources dottedPath).storeAfter .empty from rfl,
      Bundling.storeAfter, hbuild]
  exact ⟨hfile, ((one_module_for_each_file ownImportSources.read ownImportSources.capacity
    dottedPath).1 0 1 hfile).resolve_left (by decide)⟩

/-- A file can be kept as two modules and its statements be emitted twice, although it
is read alike under all paths with the same normal path. -/
theorem entry_kept_twice :
    ownImportSources.resolve = Path.resolve ∧
      (∀ p q : Path, p.normalize.same q.normalize = true →
        SameOutcome (· = ·) (ownImportSources.read p) (ownImportSources.read q)) ∧
      ∃ u, build ownImportSources dottedPath .empty = .ok "const x = 1;\nconst x = 1;\ny;\n" u ∧
        ∃ m n : Module, u.modules[0]? = some m ∧ u.modules[1]? = some n ∧
          m.path.normalize.same n.path.normalize = true := by
  refine ⟨by dsimp only [ownImportSources], fun p q h => ?_, build_ownImport⟩
  exact ownImport.lawful_sources.read_same h

end ModuleBundler

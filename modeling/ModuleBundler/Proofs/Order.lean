import ModuleBundler.Proofs.Expansion

/-!
# ModuleBundler — the order of a bundle

A bundler may be called many times, and emits each statement at most once. All
that it emits over time stands in an order in which what a statement depends on
comes first, unless the two depend on each other.

* `Call` — what a bundler can be called for.
* `performAll` — calls one after the other.
* `dependencies_first` — the order of what is emitted.
-/

namespace ModuleBundler

variable {sources : Sources}

-- ---------------------------------------------------------------------------
-- Steps in sequence
-- ---------------------------------------------------------------------------

theorem toList_foldl_append (parts : List (Array StatementRef)) (first : Array StatementRef) :
    (parts.foldl (· ++ ·) first).toList = first.toList ++ parts.flatMap Array.toList := by
  induction parts generalizing first with
  | nil => simp
  | cons part parts ih => simp [ih]

namespace History

variable {asked : WorkItem → Prop} {emitted : List StatementRef} {s u : Store}

theorem run (h : History sources asked ⟨emitted, [], s⟩) {item : WorkItem} (ha : asked item)
    (he : ∀ ref, item ≠ .emit ref) {out : Array StatementRef}
    (hr : ModuleBundler.run sources #[] [item] s = .ok out u) :
    History sources asked ⟨emitted ++ out.toList, [], u⟩ :=
  (h.ask ha he).steps (steps_of_run hr)

theorem mapM (h : History sources asked ⟨emitted, [], s⟩) {refs : List StatementRef}
    (ha : ∀ ref ∈ refs, asked (.expand ref)) {parts : List (Array StatementRef)}
    (hr : refs.mapM (expand sources) s = .ok parts u) :
    History sources asked ⟨emitted ++ parts.flatMap Array.toList, [], u⟩ := by
  induction refs generalizing emitted s parts with
  | nil =>
    rw [List.mapM_nil] at hr
    cases hr
    simpa using h
  | cons ref refs ih =>
    rw [List.mapM_cons] at hr
    obtain ⟨out, t, hout, hr⟩ := Bundling.bind_eq_ok.1 hr
    obtain ⟨rest, v, hrest, hr⟩ := Bundling.bind_eq_ok.1 hr
    cases hr
    have h' := h.run (ha ref (.head _)) (fun _ he => by cases he) hout
    have := ih h' (fun r hm => ha r (.tail _ hm)) hrest
    simpa using this

end History

-- ---------------------------------------------------------------------------
-- Calls
-- ---------------------------------------------------------------------------

/-- What a bundler can be called for. -/
inductive Call where
  /-- Fetches a file, for the number of its module. -/
  | fetch (path : Path)
  | define (moduleId : Nat) (name : String)
  | expand (statement : StatementRef)
  | expandAll (moduleId : Nat)
  deriving Inhabited

/-- The statements that a call returns. It is no failure of the bundler if a file
cannot be fetched. -/
def Call.perform (sources : Sources) : Call → Bundling (Array StatementRef)
  | .fetch path => fun s => .ok #[] ((ModuleBundler.fetch sources path).storeAfter s)
  | .define id name => ModuleBundler.define sources id name
  | .expand ref => ModuleBundler.expand sources ref
  | .expandAll id => ModuleBundler.expandAll sources id

/-- The statements that calls return, one call after the other. -/
def performAll (sources : Sources) : List Call → Bundling (Array StatementRef)
  | [] => return #[]
  | call :: rest => do
    let first ← call.perform sources
    return first ++ (← performAll sources rest)

theorem Store.Coherent.storeAfter_fetch {s : Store} (h : s.Coherent sources)
    (laws : sources.Lawful) (path : Path) :
    s.Later sources ((ModuleBundler.fetch sources path).storeAfter s) := by
  have hf := h.fetch laws path
  cases hm : sources.moduleOf path with
  | ok m =>
    rw [hm] at hf
    obtain ⟨i, t, n, hf, hext, ht, -⟩ := hf
    rw [Bundling.storeAfter, hf]
    exact ⟨hext, ht⟩
  | error e =>
    rw [hm] at hf
    obtain ⟨t, hf, hext, ht⟩ := hf
    rw [Bundling.storeAfter, hf]
    exact ⟨hext, ht⟩

theorem History.perform {asked : WorkItem → Prop} (hasked : ∀ item, asked item)
    {emitted : List StatementRef} {s u : Store}
    (h : History sources asked ⟨emitted, [], s⟩) (laws : sources.Lawful) {call : Call}
    {out : Array StatementRef} (hr : call.perform sources s = .ok out u) :
    History sources asked ⟨emitted ++ out.toList, [], u⟩ := by
  cases call with
  | fetch path =>
    cases hr
    have hlater := (h.coherent laws).storeAfter_fetch laws path
    have hgrows := (Bundling.OnlyFetches.fetch sources path).grows s
    simpa using h.fetched hlater hgrows.visits_eq
  | define id name => exact h.run (hasked _) (fun _ he => by cases he) hr
  | expand ref => exact h.run (hasked _) (fun _ he => by cases he) hr
  | expandAll id =>
    obtain ⟨m, t, hm, hr⟩ := Bundling.bind_eq_ok.1 hr
    obtain ⟨-, rfl⟩ := moduleAt_eq_ok.1 hm
    obtain ⟨parts, v, hparts, hr⟩ := Bundling.bind_eq_ok.1 hr
    cases hr
    rw [toList_foldl_append]
    exact h.mapM (fun _ _ => hasked _) hparts

theorem History.performAll {asked : WorkItem → Prop} (hasked : ∀ item, asked item)
    {emitted : List StatementRef} {s u : Store}
    (h : History sources asked ⟨emitted, [], s⟩) (laws : sources.Lawful) {calls : List Call}
    {out : Array StatementRef} (hr : ModuleBundler.performAll sources calls s = .ok out u) :
    History sources asked ⟨emitted ++ out.toList, [], u⟩ := by
  induction calls generalizing emitted s out with
  | nil =>
    cases hr
    simpa using h
  | cons call rest ih =>
    obtain ⟨first, t, hfirst, hr⟩ := Bundling.bind_eq_ok.1 hr
    obtain ⟨others, v, hothers, hr⟩ := Bundling.bind_eq_ok.1 hr
    cases hr
    rw [Array.toList_append, ← List.append_assoc]
    exact ih (h.perform hasked laws hfirst) hothers

-- ---------------------------------------------------------------------------
-- The order
-- ---------------------------------------------------------------------------

/-- Whatever a bundler is called for, a statement that another one depends on is
emitted before it or depends on it in turn. If no statement depends on itself, it
is always emitted before. -/
theorem dependencies_first (files : FileTable) {calls : List Call} {out : Array StatementRef}
    {u : Store} (h : performAll files.sources calls .empty = .ok out u) :
    (∀ before ref after other, out.toList = before ++ ref :: after →
        DependsOn files.sources u ref other → other ≠ ref →
        other ∈ before ∨ Relation.TransGen (DependsOn files.sources u) other ref) ∧
      ((∀ ref, ¬ Relation.TransGen (DependsOn files.sources u) ref ref) →
        ∀ before ref after other, out.toList = before ++ ref :: after →
          DependsOn files.sources u ref other → other ∈ before) := by
  have laws := files.lawful_sources
  have hist : History files.sources (fun _ => True) ⟨[] ++ out.toList, [], u⟩ :=
    History.start.performAll (fun _ => trivial) laws h
  have horder : ∀ before ref after other, out.toList = before ++ ref :: after →
      DependsOn files.sources u ref other → other ≠ ref →
      other ∈ before ∨ Relation.TransGen (DependsOn files.sources u) other ref := by
    rintro before ref after other he ⟨name, hn, hother⟩ hne
    obtain ⟨o, ho, hdone⟩ := hist.done laws (hist.coherent laws) (.refl u) he hn
    exact (hdone other (ho.unique hother)).2 hne
  refine ⟨horder, fun hacyclic before ref after other he hd => ?_⟩
  have hne : other ≠ ref := fun heq => hacyclic ref (.single (heq ▸ hd))
  exact (horder before ref after other he hd hne).resolve_right
    fun hback => hacyclic ref (.head hd hback)

/-- Two functions that call each other, and a call of the first one. -/
def mutualFiles : FileTable :=
  ⟨[(.ofText "a.js", .holds "function f() { g(); }\nfunction g() { f(); }\nf();")]⟩

/-- The module of the two functions. -/
def mutualModule : Module :=
  (mutualFiles.sources.moduleOf (.ofText "a.js")).toOption.getD default

theorem moduleOf_mutual :
    mutualFiles.sources.moduleOf (.ofText "a.js") = .ok mutualModule :=
  eq_ok_of_isOk (by decide +kernel)

/-- A table of one file has room for one module. -/
theorem fetch_only {files : FileTable} {path : Path} {n : Module}
    (hfiles : files.entries.length = 1) (hn : files.sources.moduleOf path = .ok n) :
    ∃ s m, fetch files.sources path .empty = .ok 0 s ∧ s.modules[0]? = some m ∧ m.Alike n ∧
      ∀ ref, s.isVisited ref = false := by
  have laws := files.lawful_sources
  obtain ⟨i, s, m, hf, hs, hv, hm, -, ha⟩ := (Store.Coherent.empty _).fetch_ok laws hn
  have hi : i < s.modules.size := (Array.getElem?_eq_some_iff.1 hm).1
  have hsize : s.modules.size ≤ files.entries.length := laws.fits hs.coherent
  obtain rfl : i = 0 := by omega
  refine ⟨s, m, hf, hm, ha, fun ref => ?_⟩
  rw [Store.isVisited, hv]
  simp [Store.empty]

theorem dependencies_first_mutual : ∃ out u,
    performAll mutualFiles.sources [.fetch (.ofText "a.js"), .expand ⟨0, 2⟩] .empty = .ok out u ∧
    out = #[⟨0, 1⟩, ⟨0, 0⟩, ⟨0, 2⟩] ∧
    (∀ before ref after other, out.toList = before ++ ref :: after →
        DependsOn mutualFiles.sources u ref other → other ≠ ref →
        other ∈ before ∨ Relation.TransGen (DependsOn mutualFiles.sources u) other ref) ∧
      ((∀ ref, ¬ Relation.TransGen (DependsOn mutualFiles.sources u) ref ref) →
        ∀ before ref after other, out.toList = before ++ ref :: after →
          DependsOn mutualFiles.sources u ref other → other ∈ before) := by
  obtain ⟨s, m, hf, hm, ha, hv⟩ := fetch_only rfl moduleOf_mutual
  have hdefinitions : m.definitions = mutualModule.definitions :=
    congrArg Bindings.definitions ha.bindings
  have hf' : m.definitions.find? "f" = some 0 := by
    rw [hdefinitions]
    decide +kernel
  have hg : m.definitions.find? "g" = some 1 := by
    rw [hdefinitions]
    decide +kernel
  have hwork : ∀ {i : Nat} {name : String},
      (mutualModule.statement? i).map Statement.dependsOn = some [name] →
      ∃ st, m.statement? i = some st ∧ st.work ⟨0, i⟩ = [.define 0 name, .emit ⟨0, i⟩] := by
    intro i name h
    obtain ⟨st, hst, hnames⟩ :=
      (ha.exists_statement_iff (P := (·.dependsOn = [name])) fun _ => .rfl).2
        (Option.map_eq_some_iff.1 h)
    refine ⟨st, hst, ?_⟩
    rw [Statement.work, hnames]
    rfl
  obtain ⟨f, hf0, hfw⟩ := @hwork 0 "g" (by decide +kernel)
  obtain ⟨g, hg1, hgw⟩ := @hwork 1 "f" (by decide +kernel)
  obtain ⟨main, hm2, hmw⟩ := @hwork 2 "f" (by decide +kernel)
  have hrun : ∃ u, run mutualFiles.sources #[] [.expand ⟨0, 2⟩] s =
      .ok #[⟨0, 1⟩, ⟨0, 0⟩, ⟨0, 2⟩] u := by
    have hdef : ∀ {t : Store} {name : String} {i : Nat}, t.modules = s.modules →
        m.definitions.find? name = some i →
        resolveName mutualFiles.sources 0 name t = .ok (some ⟨0, i⟩) t := fun ht hd =>
      resolveName_of_definition (by rw [ht, hm]) hd
    let s₁ := s.visit ⟨0, 2⟩ .inProgress
    let s₂ := s₁.visit ⟨0, 0⟩ .inProgress
    let s₃ := s₂.visit ⟨0, 1⟩ .inProgress
    let s₄ := s₃.visit ⟨0, 1⟩ .emitted
    let s₅ := s₄.visit ⟨0, 0⟩ .emitted
    have hsteps : Steps mutualFiles.sources ⟨[], [.expand ⟨0, 2⟩], s⟩
        ⟨[⟨0, 1⟩, ⟨0, 0⟩, ⟨0, 2⟩], [], s₅.visit ⟨0, 2⟩ .emitted⟩ := by
      refine .head (.enter (hv _) ⟨m, hm, hm2⟩) ?_
      rw [hmw]
      refine .head (.need (hdef rfl hf') (by simp [hv])) ?_
      refine .head (.enter (by simp [hv]) ⟨m, hm, hf0⟩) ?_
      rw [hfw]
      refine .head (.need (hdef rfl hg) (by simp [hv])) ?_
      refine .head (.enter (by simp [hv]) ⟨m, hm, hg1⟩) ?_
      rw [hgw]
      -- the first function is met again, while it is being expanded
      refine .head (.skip (.known (hdef rfl hf') (by simp))) ?_
      exact .head .emit (.head .emit (.head .emit .refl))
    exact ⟨_, run_of_steps hsteps⟩
  obtain ⟨u, hrun⟩ := hrun
  have h : performAll mutualFiles.sources [.fetch (.ofText "a.js"), .expand ⟨0, 2⟩] .empty =
      .ok #[⟨0, 1⟩, ⟨0, 0⟩, ⟨0, 2⟩] u := by
    have hfetch : (Call.fetch (.ofText "a.js")).perform mutualFiles.sources .empty = .ok #[] s := by
      simp only [Call.perform, Bundling.storeAfter, hf]
    refine Bundling.bind_eq_ok.2 ⟨#[], s, hfetch, Bundling.bind_eq_ok.2
      ⟨#[⟨0, 1⟩, ⟨0, 0⟩, ⟨0, 2⟩], u, ?_, rfl⟩⟩
    exact Bundling.bind_eq_ok.2 ⟨_, u, hrun, Bundling.bind_eq_ok.2 ⟨#[], u, rfl, rfl⟩⟩
  exact ⟨_, u, h, rfl, dependencies_first mutualFiles h⟩

end ModuleBundler

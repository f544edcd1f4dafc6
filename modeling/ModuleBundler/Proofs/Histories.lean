import ModuleBundler.Proofs.Agreement
import ModuleBundler.Proofs.Cache

/-!
# ModuleBundler — what a bundler was asked before

What a name stands for is a matter of the files alone. Two bundlers over the same
files may have been asked for different things, in a different order and with
different failures, and number their modules differently: in a module that both keep
they find the same definition of a name.

* `uniform_of_read_same` — files that answer equal paths alike, with imports that name
  paths as files do, are uniform sources.
* `resolveName_of_any_history` — a name is resolved alike after any requests.
-/

namespace ModuleBundler

/-- Imports that name paths as files do respect that paths are equal. -/
theorem uniform_of_read_same {read : Path → Except BuildError String} (capacity : Nat)
    (hread : ∀ ⦃p q : Path⦄, p.same q = true → SameOutcome (· = ·) (read p) (read q)) :
    Sources.Uniform ⟨Path.resolve, read, capacity⟩ where
  resolve_same p q h importee := by
    dsimp only
    rw [Path.resolve_eq_of_same h]
    exact Path.same_refl _
  read_same := hread

/-- Let two bundlers over the same files be asked for whatever, and then both for a name
in a module of the same path. Both find the same statement of a module of the same
path, or both find that the name comes from outside, or both fail with the same error
for the same path. Only if there are more modules than there is room for, one of them
may find no room. -/
theorem resolveName_of_any_history (read : Path → Except BuildError String) (capacity : Nat)
    (hread : ∀ ⦃p q : Path⦄, p.same q = true → SameOutcome (· = ·) (read p) (read q))
    (first second : List Request) :
    let sources : Sources := ⟨Path.resolve, read, capacity⟩
    let s := (serve sources first .empty).2
    let t := (serve sources second .empty).2
    ∀ (i j : Nat) (m n : Module), s.modules[i]? = some m → t.modules[j]? = some n →
      m.path.same n.path = true → ∀ name : String,
        let x := resolveName sources i name s
        let y := resolveName sources j name t
        Agree sources Store.TwinAnswer s t x y ∨
          sources.Crowded ∧ ∃ path u,
            x = .error (.tooManyModules path) u ∨ y = .error (.tooManyModules path) u := by
  intro sources s t i j m n hm hn hp name x y
  have hs : s.Recorded sources := recorded_serve (.empty sources) first
  have ht : t.Recorded sources := recorded_serve (.empty sources) second
  exact (resolveName_match (uniform_of_read_same capacity hread) hs.toWithin ht.toWithin
    ⟨m, n, hm, hn, hp⟩ name).agree_or_crowded

-- ---------------------------------------------------------------------------
-- Two orders of fetching
-- ---------------------------------------------------------------------------

/-- A file that imports a constant of another one. -/
def importedConstant : FileTable :=
  ⟨[(.ofText "a.js", .holds "import { one } from './b.js';\none;\n"),
    (.ofText "b.js", .holds "export const one = 1;\n")]⟩

/-- The importing module, under a number. -/
def importingModule (id : Nat) : Module :=
  (importedConstant.sources.moduleOf (.ofText "a.js") id).toOption.getD default

/-- The module with the constant, under a number. -/
def constantModule (id : Nat) : Module :=
  (importedConstant.sources.moduleOf (.ofText "b.js") id).toOption.getD default

/-- Two files that are fetched one after the other are kept in this order. -/
theorem modules_serve_fetch {sources : Sources} {importee other : String} {m n : Module}
    (hm : sources.moduleOf (.ofText importee) = .ok m)
    (hn : sources.moduleOf (.ofText other) 1 = .ok n)
    (hne : m.path.same (.ofText other) = false) (hroom : 1 < sources.capacity) :
    (serve sources [.fetch importee none, .fetch other none] .empty).2.modules = #[m, n] := by
  have hfirst := fetch_empty hm (by omega)
  generalize hs : (Store.empty.logRead (.ofText importee)).add m = s at hfirst
  have hmodules : s.modules = #[m] := by
    rw [← hs]
    rfl
  have hnone : s.find? (.ofText other) = none := by
    simp [Store.find?, hmodules, hne]
  have hload : sources.load (.ofText other) s.modules.size = .ok n := by
    rw [hmodules]
    exact Sources.load_eq_ok.2 ⟨hn, hroom⟩
  have hsecond := fetch_eq_ok.2 (.inr ⟨hnone, n, hload, rfl, rfl⟩)
  rw [serve, answer_fetch hfirst, serve, answer_fetch hsecond, serve]
  simp [Store.add, Store.logRead, hmodules]

theorem resolveName_of_any_history_swapped :
    (∀ ⦃p q : Path⦄, p.same q = true →
      SameOutcome (· = ·) (importedConstant.read p) (importedConstant.read q)) ∧
    let sources := importedConstant.sources
    let s := (serve sources [.fetch "a.js" none, .fetch "b.js" none] .empty).2
    let t := (serve sources [.fetch "b.js" none, .fetch "a.js" none] .empty).2
    s.modules[0]? = some (importingModule 0) ∧ t.modules[1]? = some (importingModule 1) ∧
      (importingModule 0).path.same (importingModule 1).path = true ∧
      Agree sources Store.TwinAnswer s t (resolveName sources 0 "one" s)
        (resolveName sources 1 "one" t) := by
  have hread : ∀ ⦃p q : Path⦄, p.same q = true →
      SameOutcome (· = ·) (importedConstant.read p) (importedConstant.read q) :=
    importedConstant.lawful_sources.read_same
  have ha : ∀ {id}, (importedConstant.sources.moduleOf (.ofText "a.js") id).isOk = true →
      importedConstant.sources.moduleOf (.ofText "a.js") id = .ok (importingModule id) :=
    eq_ok_of_isOk
  have hb : ∀ {id}, (importedConstant.sources.moduleOf (.ofText "b.js") id).isOk = true →
      importedConstant.sources.moduleOf (.ofText "b.js") id = .ok (constantModule id) :=
    eq_ok_of_isOk
  have hs := modules_serve_fetch (ha (by decide +kernel)) (hb (by decide +kernel))
    (by decide +kernel) (by decide)
  have ht := modules_serve_fetch (hb (by decide +kernel)) (ha (by decide +kernel))
    (by decide +kernel) (by decide)
  have hm : (serve importedConstant.sources [.fetch "a.js" none, .fetch "b.js" none]
      .empty).2.modules[0]? = some (importingModule 0) := by simp [hs]
  have hn : (serve importedConstant.sources [.fetch "b.js" none, .fetch "a.js" none]
      .empty).2.modules[1]? = some (importingModule 1) := by simp [ht]
  have hsame : (importingModule 0).path.same (importingModule 1).path = true := by decide +kernel
  refine ⟨hread, hm, hn, hsame, ?_⟩
  exact (resolveName_of_any_history importedConstant.read importedConstant.entries.length hread
    _ _ 0 1 _ _ hm hn hsame "one").resolve_right
      fun hcrowded => importedConstant.lawful_sources.not_crowded hcrowded.1

end ModuleBundler

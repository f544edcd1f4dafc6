import ModuleBundler.Module.Basic
import ModuleBundler.Path.Normal
import Std.Data.HashMap

/-!
# ModuleBundler — the store of a bundler

A bundler reads modules when they are first asked for and keeps them. A module
is known by a number, its position among the kept ones, which never changes.
Besides the modules the store remembers which statements were visited, so that
no statement is emitted twice.

* `Sources` — where paths and texts come from, and how many modules there is
  room for.
* `fetch` — the module of a path, read on first use.
* `Bundling.Keeps` — a step keeps a property of stores, whether it succeeds or fails.
* `Store.Grows` — one store comes from another by fetching: modules are added
  within the capacity, and nothing else changes. Every search only fetches,
  which is one half of why expansion ends.
-/

namespace ModuleBundler

-- ---------------------------------------------------------------------------
-- Types
-- ---------------------------------------------------------------------------

/-- Where modules come from: what an import names, and the text of a file. -/
structure Sources where
  resolve : Path → String → Path
  read : Path → Except BuildError String
  /-- The largest number of modules. The bundler itself has no such bound; with it
  every run ends, also where a reader makes up a new file for each import. A table of
  files has room for as many modules as it has files, so that no run comes to the bound
  (`FileTable.lawful_sources`), and runs that stay below it are runs without it. -/
  capacity : Nat

/-- A statement of a fetched module, by the number of the module and the position
of the statement. -/
structure StatementRef where
  moduleId : Nat
  index : Nat
  deriving DecidableEq, Hashable, Repr, Inhabited

/-- How far the expansion of a statement is. -/
inductive Visit where
  | inProgress
  | emitted
  deriving DecidableEq, Repr, Inhabited

/-- What a bundler remembers: the modules by number, the visits, and every path
it asked for, in order. -/
structure Store where
  modules : Array Module
  visits : Std.HashMap StatementRef Visit
  reads : Array Path
  deriving Inhabited

/-- Work on a store that may fail. What a failed step did to the store stays. -/
abbrev Bundling := EStateM BuildError Store

namespace Store

/-- Nothing fetched, nothing visited. -/
def empty : Store := ⟨#[], ∅, #[]⟩

/-- The number of a path, if its module is kept. -/
def find? (s : Store) (path : Path) : Option Nat := s.modules.findIdx? (·.path.same path)

/-- The module of a number. -/
def get? (s : Store) (id : Nat) : Option Module := s.modules[id]?

/-- Remembers that a path is asked for. -/
def logRead (s : Store) (path : Path) : Store := { s with reads := s.reads.push path }

/-- Keeps a module under the next number. -/
def add (s : Store) (m : Module) : Store := { s with modules := s.modules.push m }

/-- Remembers how far the expansion of a statement is. -/
def visit (s : Store) (ref : StatementRef) (v : Visit) : Store :=
  { s with visits := s.visits.insert ref v }

/-- Whether a statement was visited. -/
def isVisited (s : Store) (ref : StatementRef) : Bool := s.visits.contains ref

end Store

-- ---------------------------------------------------------------------------
-- Fetching
-- ---------------------------------------------------------------------------

/-- The error for a number that no module has. -/
def BuildError.noSuchModule (id : Nat) : BuildError :=
  .notFound (.ofText ("<module " ++ toString id ++ ">"))

/-- The module of a number. -/
def moduleAt (id : Nat) : Bundling Module := fun s =>
  match s.get? id with
  | some m => .ok m s
  | none => .error (.noSuchModule id) s

/-- The number of the module of a path. The module is read unless it is kept, and gets
the next number. -/
def fetch (sources : Sources) (path : Path) : Bundling Nat := fun s =>
  match s.find? path with
  | some id => .ok id s
  | none =>
    let s := s.logRead path
    match sources.read path with
    | .error e => .error e s
    | .ok text =>
      match Module.read path text s.modules.size with
      | .error e => .error e s
      | .ok m =>
        if s.modules.size < sources.capacity then .ok s.modules.size (s.add m)
        else .error (.tooManyModules path) s

/-- The number of the module that an import in a file names. -/
def fetchFrom (sources : Sources) (importer : Path) (importee : String) : Bundling Nat :=
  fetch sources (sources.resolve importer importee)

-- ---------------------------------------------------------------------------
-- Outcomes
-- ---------------------------------------------------------------------------

namespace Bundling

variable {α β : Type} {x : Bundling α} {f : α → Bundling β} {s u : Store}

theorem bind_eq_ok {b : β} :
    (x >>= f) s = .ok b u ↔ ∃ a t, x s = .ok a t ∧ f a t = .ok b u := by
  simp only [Bind.bind, EStateM.bind]
  cases x s <;> simp [and_assoc]

theorem bind_eq_error {e : BuildError} :
    (x >>= f) s = .error e u ↔
      x s = .error e u ∨ ∃ a t, x s = .ok a t ∧ f a t = .error e u := by
  simp only [Bind.bind, EStateM.bind]
  cases x s <;> simp [and_assoc]

end Bundling

theorem moduleAt_eq_ok {id : Nat} {s u : Store} {m : Module} :
    moduleAt id s = .ok m u ↔ s.modules[id]? = some m ∧ s = u := by
  rw [moduleAt, Store.get?]
  cases s.modules[id]? <;> simp

theorem moduleAt_eq_error {id : Nat} {s u : Store} {e : BuildError} :
    moduleAt id s = .error e u ↔ s.modules[id]? = none ∧ .noSuchModule id = e ∧ s = u := by
  rw [moduleAt, Store.get?]
  cases s.modules[id]? <;> simp

-- ---------------------------------------------------------------------------
-- Growth
-- ---------------------------------------------------------------------------

namespace Store

/-- One store comes from another by fetching modules within a capacity. -/
structure Grows (capacity : Nat) (s t : Store) : Prop where
  modules_eq : ∃ added : Array Module, t.modules = s.modules ++ added
  size_le : t.modules.size ≤ max s.modules.size capacity
  visits_eq : t.visits = s.visits

namespace Grows

variable {capacity : Nat} {s t u : Store}

theorem refl (s : Store) : Grows capacity s s := ⟨⟨#[], by simp⟩, by omega, rfl⟩

theorem trans (h : Grows capacity s t) (k : Grows capacity t u) : Grows capacity s u := by
  obtain ⟨⟨a, ha⟩, hs, hv⟩ := h
  obtain ⟨⟨b, hb⟩, ks, kv⟩ := k
  exact ⟨⟨a ++ b, by rw [hb, ha, Array.append_assoc]⟩, by omega, kv.trans hv⟩

theorem size_mono (h : Grows capacity s t) : s.modules.size ≤ t.modules.size := by
  obtain ⟨a, ha⟩ := h.modules_eq
  simp [ha]

/-- A store that did not become larger has the same modules. -/
theorem modules_eq_of_size_le (h : Grows capacity s t) (hle : t.modules.size ≤ s.modules.size) :
    t.modules = s.modules := by
  obtain ⟨a, ha⟩ := h.modules_eq
  have : a = #[] := by
    rw [ha, Array.size_append] at hle
    exact Array.eq_empty_of_size_eq_zero (by omega)
  simp [ha, this]

theorem logRead (s : Store) (path : Path) : Grows capacity s (s.logRead path) :=
  ⟨⟨#[], by simp [Store.logRead]⟩, by simp only [Store.logRead]; omega, rfl⟩

theorem add (s : Store) (m : Module) (h : s.modules.size < capacity) :
    Grows capacity s (s.add m) :=
  ⟨⟨#[m], by simp [Store.add]⟩, by simp only [Store.add, Array.size_push]; omega, rfl⟩

end Grows

end Store

namespace Bundling

variable {α β : Type} {capacity : Nat}

/-- The store that is left when a step ends, in success or failure. -/
def storeAfter (x : Bundling α) (s : Store) : Store :=
  match x s with
  | .ok _ t | .error _ t => t

/-- A step that keeps a property of stores, whether it succeeds or fails. -/
structure Keeps (inv : Store → Prop) (x : Bundling α) : Prop where
  storeAfter : ∀ s, inv s → inv (x.storeAfter s)

namespace Keeps

variable {inv : Store → Prop}

theorem pure (a : α) : Keeps inv (pure a : Bundling α) := ⟨fun _ hs => hs⟩

theorem throw (e : BuildError) : Keeps inv (throw e : Bundling α) := ⟨fun _ hs => hs⟩

theorem bind {x : Bundling α} {f : α → Bundling β} (hx : Keeps inv x)
    (hf : ∀ a, Keeps inv (f a)) : Keeps inv (x >>= f) := by
  refine ⟨fun s hs => ?_⟩
  have h := hx.storeAfter s hs
  simp only [Bundling.storeAfter, Bind.bind, EStateM.bind] at h ⊢
  split at h <;> rename_i heq <;> simp only [heq]
  · exact (hf _).storeAfter _ h
  · exact h

theorem moduleAt (id : Nat) : Keeps inv (ModuleBundler.moduleAt id) := by
  refine ⟨fun s hs => ?_⟩
  unfold Bundling.storeAfter ModuleBundler.moduleAt
  split <;> rename_i h <;> split at h <;> cases h <;> exact hs

end Keeps

/-- A step that does no more to the store than fetch modules. -/
structure OnlyFetches (capacity : Nat) (x : Bundling α) : Prop where
  grows : ∀ s, Store.Grows capacity s (x.storeAfter s)

namespace OnlyFetches

/-- To only fetch is to keep it so that a store came from another one by fetching. -/
theorem of_keeps {x : Bundling α} (h : ∀ s, Keeps (Store.Grows capacity s) x) :
    OnlyFetches capacity x :=
  ⟨fun s => (h s).storeAfter s (.refl s)⟩

theorem keeps {x : Bundling α} (h : OnlyFetches capacity x) (s : Store) :
    Keeps (Store.Grows capacity s) x :=
  ⟨fun t ht => ht.trans (h.grows t)⟩

theorem pure (a : α) : OnlyFetches capacity (pure a : Bundling α) :=
  of_keeps fun _ => .pure a

theorem throw (e : BuildError) : OnlyFetches capacity (throw e : Bundling α) :=
  of_keeps fun _ => .throw e

theorem bind {x : Bundling α} {f : α → Bundling β} (hx : OnlyFetches capacity x)
    (hf : ∀ a, OnlyFetches capacity (f a)) : OnlyFetches capacity (x >>= f) :=
  of_keeps fun s => (hx.keeps s).bind fun a => (hf a).keeps s

/-- What holds of a step that succeeds. -/
theorem grows_of_ok {x : Bundling α} (h : OnlyFetches capacity x) {s t : Store} {a : α}
    (hx : x s = .ok a t) : Store.Grows capacity s t := by
  have := h.grows s
  rwa [storeAfter, hx] at this

theorem moduleAt (id : Nat) : OnlyFetches capacity (ModuleBundler.moduleAt id) :=
  of_keeps fun _ => .moduleAt id

theorem fetch (sources : Sources) (path : Path) :
    OnlyFetches sources.capacity (ModuleBundler.fetch sources path) := by
  refine ⟨fun s => ?_⟩
  have hlog : Store.Grows sources.capacity s (s.logRead path) := .logRead s path
  simp only [storeAfter, ModuleBundler.fetch]
  cases hf : s.find? path with
  | some id => exact .refl s
  | none =>
    cases ht : sources.read path with
    | error e => simpa only [ht] using hlog
    | ok text =>
      cases hm : Module.read path text (s.logRead path).modules.size with
      | error e => simpa only [hm] using hlog
      | ok m =>
        by_cases hlt : (s.logRead path).modules.size < sources.capacity
        · simpa only [hm, hlt, ↓reduceIte] using hlog.trans (.add _ m hlt)
        · simpa only [hm, hlt, ↓reduceIte] using hlog

theorem fetchFrom (sources : Sources) (importer : Path) (importee : String) :
    OnlyFetches sources.capacity (ModuleBundler.fetchFrom sources importer importee) :=
  fetch sources _

end OnlyFetches

end Bundling

end ModuleBundler

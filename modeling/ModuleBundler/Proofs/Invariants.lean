import ModuleBundler.Proofs.Sessions

/-!
# ModuleBundler — what every request keeps

A bundler changes its store in two ways only: it fetches modules and it visits
statements. So a property of stores that these two keep is kept by whatever the
bundler is asked for, whether that succeeds or fails.

* `Keeps.fetch` — fetching keeps what remembering a read and adding a module keep.
* `Keeps.run` — expansion keeps what fetching and visiting keep.
* `Keeps.expandAll` — the same for all statements of a module.
* `keeps_serve` — the same for requests one after the other.
-/

namespace ModuleBundler

variable {sources : Sources} {inv : Store → Prop}

namespace Bundling.Keeps

variable {α β : Type}

theorem mapM {f : α → Bundling β} (h : ∀ a, Keeps inv (f a)) (l : List α) :
    Keeps inv (l.mapM f) := by
  induction l with
  | nil =>
    rw [List.mapM_nil]
    exact pure _
  | cons a l ih =>
    rw [List.mapM_cons]
    exact (h a).bind fun _ => ih.bind fun _ => pure _

/-- A file that cannot be kept is remembered as read, and one that can be is kept
besides. -/
theorem fetch {path : Path}
    (hlog : ∀ s e, s.find? path = none → sources.load path s.modules.size = .error e →
      inv s → inv (s.logRead path))
    (hadd : ∀ s m, s.find? path = none → sources.load path s.modules.size = .ok m →
      inv s → inv ((s.logRead path).add m)) : Keeps inv (ModuleBundler.fetch sources path) := by
  refine ⟨fun s hs => ?_⟩
  rw [Bundling.storeAfter]
  cases hfetch : ModuleBundler.fetch sources path s with
  | ok id t =>
    rcases fetch_eq_ok.1 hfetch with ⟨-, rfl⟩ | ⟨hnone, m, hload, -, rfl⟩
    · exact hs
    · exact hadd s m hnone hload hs
  | error e t =>
    obtain ⟨hnone, hload, rfl⟩ := fetch_eq_error.1 hfetch
    exact hlog s e hnone hload hs

/-- Putting a text together does nothing to the store. -/
theorem generate (refs : List StatementRef) : Keeps inv (ModuleBundler.generate refs) :=
  (mapM (fun _ => (moduleAt _).bind fun _ => pure _) refs).bind fun _ => pure _

variable (hfetch : ∀ importer importee, Keeps inv (fetchFrom sources importer importee))
  (hvisit : ∀ s ref v, inv s → inv (s.visit ref v))

include hfetch hvisit

theorem run (emitted : Array StatementRef) (work : List WorkItem) :
    Keeps inv (ModuleBundler.run sources emitted work) := by
  refine ⟨fun s hs => ?_⟩
  unfold Bundling.storeAfter
  -- a search keeps the property, whatever it comes to
  have hresolve : ∀ {id name s}, inv s → inv ((ModuleBundler.resolveName sources id name).storeAfter s) :=
    fun hs => (resolveName hfetch _ _).storeAfter _ hs
  fun_induction ModuleBundler.run sources emitted work s with
  | case1 emitted s => exact hs
  | case2 emitted s ref rest ih => exact ih (hvisit s ref _ hs)
  | case3 emitted s ref rest hv ih => exact ih hs
  | case4 emitted s ref rest hv hm => exact hs
  | case5 emitted s ref rest hv m hm hst ih => exact ih hs
  | case6 emitted s ref rest hv m hm st hst ih => exact ih (hvisit s ref _ hs)
  | case7 emitted s id name rest e t hr =>
    have ht := @hresolve id name s hs
    rwa [Bundling.storeAfter, hr] at ht
  | case8 emitted s id name rest t hr ih =>
    have ht := @hresolve id name s hs
    rw [Bundling.storeAfter, hr] at ht
    exact ih ht
  | case9 emitted s id name rest ref t hr hv ih =>
    have ht := @hresolve id name s hs
    rw [Bundling.storeAfter, hr] at ht
    exact ih ht
  | case10 emitted s id name rest ref t hr hv ih =>
    have ht := @hresolve id name s hs
    rw [Bundling.storeAfter, hr] at ht
    exact ih ht

theorem expandAll (id : Nat) : Keeps inv (ModuleBundler.expandAll sources id) :=
  (moduleAt id).bind fun _ =>
    (mapM (fun _ => run hfetch hvisit _ _) _).bind fun _ => pure _

theorem build {entry : Path} (hentry : Keeps inv (ModuleBundler.fetch sources entry)) :
    Keeps inv (ModuleBundler.build sources entry) :=
  hentry.bind fun _ => (expandAll hfetch hvisit _).bind fun _ => generate _

end Bundling.Keeps

-- ---------------------------------------------------------------------------
-- Requests
-- ---------------------------------------------------------------------------

section

variable (hfetch : ∀ path, Bundling.Keeps inv (fetch sources path))
  (hvisit : ∀ s ref v, inv s → inv (s.visit ref v))

include hfetch hvisit

theorem keeps_perform (request : Request) : Bundling.Keeps inv (request.perform sources) := by
  have hfrom : ∀ importer importee, Bundling.Keeps inv (fetchFrom sources importer importee) :=
    fun _ _ => hfetch _
  cases request with
  | fetch importee importer =>
    cases importer with
    | none => exact (hfetch _).bind fun _ => .pure _
    | some importer => exact (hfrom ..).bind fun _ => .pure _
  | define id name => exact (Bundling.Keeps.run hfrom hvisit ..).bind fun _ => .pure _
  | expand ref => exact (Bundling.Keeps.run hfrom hvisit ..).bind fun _ => .pure _
  | expandAll id => exact (Bundling.Keeps.expandAll hfrom hvisit id).bind fun _ => .pure _
  | generate refs => exact (Bundling.Keeps.generate refs).bind fun _ => .pure _
  | build entry => exact (Bundling.Keeps.build hfrom hvisit (hfetch entry)).bind fun _ => .pure _

/-- What fetching and visiting keep, requests keep, whether they succeed or fail. -/
theorem keeps_serve (requests : List Request) {s : Store} (hs : inv s) :
    inv (serve sources requests s).2 := by
  induction requests generalizing s with
  | nil => exact hs
  | cons request rest ih =>
    refine ih ?_
    have h := (keeps_perform hfetch hvisit request).storeAfter s hs
    rw [Bundling.storeAfter] at h
    rw [Request.answer]
    cases hr : request.perform sources s with
    | ok reply t =>
      rw [hr] at h
      exact h
    | error e t =>
      rw [hr] at h
      exact h

end

end ModuleBundler

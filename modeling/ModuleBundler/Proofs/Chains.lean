import ModuleBundler.Bundle.FileTable
import ModuleBundler.Proofs.Entries
import ModuleBundler.Proofs.Hops
import ModuleBundler.Proofs.Replay

/-!
# ModuleBundler — the search for a name is the iteration of a hop

Hopping on from a lookup either ends somewhere, or comes back to a lookup where
it was, or goes on for long. The search for a name hops on in just this way. It
comes to what the hops end with if they end within `maxHops` lookups, and calls
the name circular if they do not. Since a hop that is made again comes to the
same, hops that came back to a lookup never end. Hops are told of by what they
may do (`Hops`, `HopFails`), and not by the function that makes them.

* `Ensures` — what a step succeeds with, and what it may fail with.
* `has_of_hop`, `mayFail_of_hop` — a hop leads to a module that is there, and never calls
  a name circular.
* `Leads`, `Concludes` — hops in a row, and what a last one comes to.
* `Leads.onward_of_mem` — where hops come back to, they go on in circles.
* `Leads.follow_eq` — the search keeps in step with the hops.
* `resolveName_exact` — what the search comes to.
-/

namespace ModuleBundler

variable {sources : Sources}

-- ---------------------------------------------------------------------------
-- What steps succeed and fail with
-- ---------------------------------------------------------------------------

/-- Started in a store as wanted, a step succeeds with a value and a store as
wanted, or fails with an error that may occur. -/
structure Ensures {α : Type} (may : BuildError → Prop) (before : Store → Prop) (x : Bundling α)
    (after : α → Store → Prop) : Prop where
  ends : ∀ s, before s →
    match x s with
    | .ok a t => after a t
    | .error e _ => may e

/-- The store has a module of a number. -/
def Store.Has (s : Store) (id : Nat) : Prop := ∃ m, s.modules[id]? = some m

/-- Errors other than that of a search that comes to no end. -/
def BuildError.NotCircular (e : BuildError) : Prop := ∀ path name, e ≠ .circularReexport path name

/-- Whether an error is one of the search for a name, and not one of fetching a module. -/
def BuildError.isOfSearch : BuildError → Bool
  | exportNotFound _ _ | unsupportedNamespace _ _ | circularReexport _ _ => true
  | _ => false

/-- The errors of single hops: a file cannot be read, or something else is wrong
than that a search comes to no end. -/
def Sources.MayFail (sources : Sources) (e : BuildError) : Prop :=
  e.NotCircular ∨ ∃ path, sources.read path = .error e

/-- Fetching fails with errors that may occur. -/
structure Sources.FetchingMay (sources : Sources) (may : BuildError → Prop) : Prop where
  noSuchModule : ∀ id, may (.noSuchModule id)
  load : ∀ {path size e}, sources.load path size = .error e → may e

namespace Ensures

variable {α β : Type} {may : BuildError → Prop} {before : Store → Prop} {after : α → Store → Prop}
  {x : Bundling α} {s t : Store}

theorem of_ok (h : Ensures may before x after) (hs : before s) {a : α} (hx : x s = .ok a t) :
    after a t := by
  have := h.ends s hs
  rwa [hx] at this

theorem of_error (h : Ensures may before x after) (hs : before s) {e : BuildError}
    (hx : x s = .error e t) : may e := by
  have := h.ends s hs
  rwa [hx] at this

theorem pure {a : α} (h : ∀ s, before s → after a s) :
    Ensures may before (pure a : Bundling α) after :=
  ⟨h⟩

theorem bind {f : α → Bundling β} {last : β → Store → Prop} (hx : Ensures may before x after)
    (hf : ∀ a, Ensures may (after a) (f a) last) : Ensures may before (x >>= f) last := by
  refine ⟨fun s hs => ?_⟩
  have h := hx.ends s hs
  simp only [Bind.bind, EStateM.bind]
  cases hxs : x s with
  | ok a t =>
    rw [hxs] at h
    exact (hf a).ends t h
  | error e t =>
    rw [hxs] at h
    exact h

theorem moduleAt (hmay : sources.FetchingMay may) (id : Nat) :
    Ensures may before (ModuleBundler.moduleAt id) fun _ s => before s ∧ s.Has id := by
  refine ⟨fun s hs => ?_⟩
  cases hx : ModuleBundler.moduleAt id s with
  | ok m t =>
    obtain ⟨hm, rfl⟩ := moduleAt_eq_ok.1 hx
    exact ⟨hs, m, hm⟩
  | error e t =>
    obtain ⟨-, rfl, -⟩ := moduleAt_eq_error.1 hx
    exact hmay.noSuchModule id

end Ensures

-- ---------------------------------------------------------------------------
-- Loading a module
-- ---------------------------------------------------------------------------

theorem Module.isOfSearch_of_read {path : Path} {text : String} {id : Nat} {e : BuildError}
    (h : Module.read path text id = .error e) : e.isOfSearch = false := by
  rw [Module.read] at h
  split at h
  · cases h
    rfl
  · obtain h | ⟨b, -, h⟩ := Except.bind_eq_error.1 h
    · obtain ⟨name, -, rfl⟩ := Bindings.ofStatements_eq_error.1 h
      rfl
    · cases h

/-- Fetching fails as files cannot be read, or else with an error of its own. -/
theorem Sources.fetchingMay_of {may : BuildError → Prop}
    (hown : ∀ e : BuildError, e.isOfSearch = false → may e)
    (hread : ∀ path e, sources.read path = .error e → may e) : sources.FetchingMay may := by
  refine ⟨fun _ => hown _ rfl, fun {path size e} h => ?_⟩
  obtain h | ⟨m, -, h⟩ := Except.bind_eq_error.1 h
  · obtain h | ⟨text, -, h⟩ := Except.bind_eq_error.1 h
    · exact hread path e h
    · exact hown e (Module.isOfSearch_of_read h)
  · split at h <;> cases h
    exact hown _ rfl

theorem Sources.fetchingMay (sources : Sources) : sources.FetchingMay sources.MayFail := by
  refine fetchingMay_of (fun e h => .inl ?_) fun path e h => .inr ⟨path, h⟩
  rintro path name rfl
  cases h

-- ---------------------------------------------------------------------------
-- Hops
-- ---------------------------------------------------------------------------

/-- The module that an answer leads to. -/
def Hop.moduleId? : Hop → Option Nat
  | .defined ref => some ref.moduleId
  | .external => none
  | .onward next => some next.moduleId

namespace Ensures

variable {before : Store → Prop}

section Fetching

variable {may : BuildError → Prop} (hmay : sources.FetchingMay may)

include hmay

theorem fetch (path : Path) :
    Ensures may before (ModuleBundler.fetch sources path) fun id t => t.Has id := by
  refine ⟨fun s _ => ?_⟩
  cases hx : ModuleBundler.fetch sources path s with
  | ok id t =>
    rcases fetch_eq_ok.1 hx with ⟨hf, rfl⟩ | ⟨-, m, -, rfl, rfl⟩
    · obtain ⟨hlt, -, -⟩ := Array.findIdx?_eq_some_iff_getElem.1 hf
      exact ⟨_, Array.getElem?_eq_getElem hlt⟩
    · exact ⟨m, Array.getElem?_push_size⟩
  | error e t => exact hmay.load (fetch_eq_error.1 hx).2.1

theorem searchSources (importer : Path) (name : String) (list : List String) :
    Ensures may before (ModuleBundler.searchSources sources importer name list)
      fun found t => ∀ id, found = .found id → t.Has id := by
  induction list generalizing before with
  | nil => exact pure fun _ _ _ h => by cases h
  | cons source rest ih =>
    refine (fetch hmay _).bind fun id => (moduleAt hmay id).bind fun m => ?_
    split
    · refine pure fun s hs id h => ?_
      cases h
      exact hs.2
    · refine ih.bind fun found => ?_
      split
      · exact pure fun s hs => hs
      · exact pure fun _ _ _ h => by cases h

theorem searchStars (name : String) (rounds : Nat) (visited stack : List Nat) :
    Ensures may before (ModuleBundler.searchStars sources name rounds visited stack)
      fun found t => ∀ id, found = some id → t.Has id := by
  fun_induction ModuleBundler.searchStars sources name rounds visited stack
      generalizing before with
  | case1 => exact pure fun _ _ _ h => by cases h
  | case2 => exact pure fun _ _ _ h => by cases h
  | case3 visited n id rest hmem ih => exact ih
  | case4 visited n id rest hmem ih =>
    refine (moduleAt hmay id).bind fun m => (searchSources hmay ..).bind fun found => ?_
    split
    · refine pure fun s hs id h => ?_
      cases h
      exact hs _ rfl
    · exact ih _

theorem findStarExport (id : Nat) (name : String) :
    Ensures may before (ModuleBundler.findStarExport sources id name)
      fun found t => ∀ id, found = some id → t.Has id := by
  refine ⟨fun s hs => ?_⟩
  rw [ModuleBundler.findStarExport]
  by_cases hd : name = "default"
  · rw [if_pos hd]
    intro id h
    cases h
  · rw [if_neg hd]
    exact (searchStars hmay name _ [] [id]).ends s hs

end Fetching

end Ensures

/-- A hop comes to a module that is there. -/
theorem has_of_hop {lookup : Lookup} {answer : Hop} {s t : Store}
    (h : hop sources lookup s = .ok answer t) {id : Nat} (hid : answer.moduleId? = some id) :
    t.Has id := by
  have hfetch := @Ensures.fetch sources (fun _ => True) _ sources.fetchingMay
  cases hop_eq_ok.1 h with
  | external => cases hid
  | defined hm | here hm =>
    cases hid
    exact ⟨_, hm⟩
  | imported hm hd hi hne hf =>
    cases hid
    exact (hfetch _).of_ok trivial hf
  | reexported hm he hf =>
    cases hid
    exact (hfetch _).of_ok trivial hf
  | @starred id _ name _ _ hm he hf =>
    cases hid
    exact (@Ensures.findStarExport sources (fun _ => True) _ sources.fetchingMay id name).of_ok
      trivial hf _ rfl

/-- A hop fails for a reason that is seen from the lookup alone. -/
theorem mayFail_of_hop {lookup : Lookup} {s t : Store} {e : BuildError}
    (h : hop sources lookup s = .error e t) : sources.MayFail e := by
  have hfetch := @Ensures.fetch sources (fun _ => True) _ sources.fetchingMay
  cases hop_eq_error.1 h with
  | unknown => exact sources.fetchingMay.noSuchModule _
  | starImport | wholeModule | notExported => exact .inl fun _ _ => BuildError.noConfusion
  | imported hm hd hi hne hf => exact (hfetch _).of_error trivial hf
  | reexported hm he hf => exact (hfetch _).of_error trivial hf
  | @starred id name _ _ _ hm he hf =>
    exact (@Ensures.findStarExport sources (fun _ => True) _ sources.fetchingMay id name).of_error
      trivial hf

-- ---------------------------------------------------------------------------
-- Hops in a row
-- ---------------------------------------------------------------------------

/-- Hops in a row lead from one lookup to another, and leave lookups behind, which
are listed with the last one first. -/
inductive Leads (sources : Sources) (first : Lookup) (s : Store) :
    List Lookup → Lookup → Store → Prop
  | start : Leads sources first s [] first s
  | onward {seen : List Lookup} {lookup next : Lookup} {t u : Store}
    (h : Leads sources first s seen lookup t) (hop : Hops sources t lookup (.onward next) u) :
    Leads sources first s (lookup :: seen) next u

/-- What a search comes to with a hop that leads no further. -/
inductive Concludes (sources : Sources) (s : Store) (lookup : Lookup) :
    EStateM.Result BuildError Store (Option StatementRef) → Prop
  | defined {ref : StatementRef} {t : Store} (hop : Hops sources s lookup (.defined ref) t) :
    Concludes sources s lookup (.ok (some ref) t)
  | external {t : Store} (hop : Hops sources s lookup .external t) :
    Concludes sources s lookup (.ok none t)
  | fails {e : BuildError} {t : Store} (hop : HopFails sources s lookup e t) :
    Concludes sources s lookup (.error e t)

/-- Each hop leads on, or a search comes to something with it. -/
theorem onward_or_concludes (sources : Sources) (lookup : Lookup) (s : Store) :
    (∃ next t, Hops sources s lookup (.onward next) t) ∨
      ∃ result, Concludes sources s lookup result := by
  rcases hop_cases sources lookup s with ⟨answer, t, hop⟩ | ⟨e, t, hop⟩
  · cases answer with
    | defined ref => exact .inr ⟨_, .defined hop⟩
    | external => exact .inr ⟨_, .external hop⟩
    | onward next => exact .inl ⟨next, t, hop⟩
  · exact .inr ⟨_, .fails hop⟩

/-- A hop is made one way only. -/
theorem Hops.unique {lookup : Lookup} {answer answer' : Hop} {s t t' : Store}
    (h : Hops sources s lookup answer t) (h' : Hops sources s lookup answer' t') :
    answer = answer' ∧ t = t' := by
  have heq := h.hop_eq.symm.trans h'.hop_eq
  cases heq
  exact ⟨rfl, rfl⟩

/-- A search comes to nothing with a hop that leads on. -/
theorem Hops.not_concludes {lookup next : Lookup} {s t : Store}
    (h : Hops sources s lookup (.onward next) t)
    {result : EStateM.Result BuildError Store (Option StatementRef)} :
    ¬ Concludes sources s lookup result := by
  rintro (hop | hop | hop) <;> cases h.hop_eq.symm.trans hop.hop_eq

/-- Hopping on from a lookup ends, after a number of lookups, with a result. -/
def Finishes (sources : Sources) (first : Lookup) (s : Store) (lookups : Nat)
    (result : EStateM.Result BuildError Store (Option StatementRef)) : Prop :=
  ∃ seen lookup t, Leads sources first s seen lookup t ∧ seen.length + 1 = lookups ∧
    Concludes sources t lookup result

/-- Hopping on comes back to a lookup where it was. -/
def Revisits (sources : Sources) (first : Lookup) (s : Store) : Prop :=
  ∃ seen lookup t, Leads sources first s seen lookup t ∧ lookup ∈ seen

/-- Hopping on takes more than a number of lookups. -/
def Exceeds (sources : Sources) (first : Lookup) (s : Store) (lookups : Nat) : Prop :=
  ∃ seen lookup t, Leads sources first s seen lookup t ∧ seen.length = lookups

/-- A lookup is the first one that hopping on comes to for a second time, or that
comes after a number of lookups. -/
structure StopsAt (sources : Sources) (limit : Nat) (first : Lookup) (s : Store)
    (seen : List Lookup) (lookup : Lookup) (t : Store) : Prop where
  leads : Leads sources first s seen lookup t
  nodup : seen.Nodup
  length_le : seen.length ≤ limit
  stops : lookup ∈ seen ∨ seen.length = limit

namespace Leads

variable {first lookup : Lookup} {s t : Store} {seen : List Lookup}

/-- Hops in a row end where they begin, or else the first one goes on. -/
theorem first_onward (h : Leads sources first s seen lookup t) :
    (lookup = first ∧ t = s) ∨ ∃ next u, Hops sources s first (.onward next) u := by
  induction h with
  | start => exact .inl ⟨rfl, rfl⟩
  | @onward _ _ next _ u _ hop ih =>
    rcases ih with ⟨rfl, rfl⟩ | h
    · exact .inr ⟨next, u, hop⟩
    · exact .inr h

/-- A search that moved comes to a module that is there. -/
theorem has (h : Leads sources first s seen lookup t) (hne : seen ≠ []) :
    t.Has lookup.moduleId := by
  cases h with
  | start => exact absurd rfl hne
  | onward _ hop => exact has_of_hop hop.hop_eq rfl

/-- Hops are made one way only. -/
theorem unique (h : Leads sources first s seen lookup t) {seen' : List Lookup} {lookup' : Lookup}
    {t' : Store} (h' : Leads sources first s seen' lookup' t')
    (hlength : seen.length = seen'.length) : seen = seen' ∧ lookup = lookup' ∧ t = t' := by
  induction h generalizing seen' lookup' t' with
  | start =>
    cases h' with
    | start => exact ⟨rfl, rfl, rfl⟩
    | onward _ _ => cases hlength
  | onward _ hop ih =>
    cases h' with
    | start => cases hlength
    | onward h' hop' =>
      obtain ⟨rfl, rfl, rfl⟩ := ih h' (Nat.succ.inj hlength)
      obtain ⟨hnext, rfl⟩ := hop.unique hop'
      cases hnext
      exact ⟨rfl, rfl, rfl⟩

/-- Lookups that were left behind lead on among themselves, now as before. -/
theorem onward_of_mem_seen (h : Leads sources first s seen lookup t) {old : Lookup}
    (hold : old ∈ seen) :
    ∃ next ∈ lookup :: seen, Hops sources t old (.onward next) t := by
  induction h with
  | start => exact absurd hold List.not_mem_nil
  | @onward seen lookup next t u h hop ih =>
    have hrep := fun l => Repeatable.hop sources l
    rcases List.mem_cons.1 hold with rfl | hold
    · exact ⟨next, .head _, hop_eq_ok.1 ((hrep _).again hop.hop_eq (.of_modules_eq rfl))⟩
    · obtain ⟨after, hafter, hop'⟩ := ih hold
      have hcontinues := (hrep lookup).continues_of_ok hop.hop_eq
      exact ⟨after, .tail _ hafter, hop_eq_ok.1 ((hrep _).again hop'.hop_eq hcontinues)⟩

/-- From a lookup where the search was, it goes on to another such lookup. -/
theorem onward_of_mem (h : Leads sources first s seen lookup t) (hmem : lookup ∈ seen) :
    ∃ next ∈ seen, Hops sources t lookup (.onward next) t := by
  obtain ⟨next, hnext, hop⟩ := h.onward_of_mem_seen hmem
  rcases List.mem_cons.1 hnext with rfl | hnext
  · exact ⟨next, hmem, hop⟩
  · exact ⟨next, hnext, hop⟩

/-- A search that is nowhere for the second time never was. -/
theorem nodup (h : Leads sources first s seen lookup t) (hnot : lookup ∉ seen) : seen.Nodup := by
  induction h with
  | start => exact .nil
  | @onward seen lookup next t u h hop ih =>
    have hlookup : lookup ∉ seen := by
      intro hmem
      obtain ⟨other, hother, hop'⟩ := h.onward_of_mem hmem
      obtain ⟨hnext, -⟩ := hop.unique hop'
      cases hnext
      exact hnot (.tail _ hother)
    exact List.nodup_cons.2 ⟨hlookup, ih hlookup⟩

/-- Hops in a row went through each number of lookups on the way. -/
theorem earlier (h : Leads sources first s seen lookup t) {n : Nat} (hn : n < seen.length) :
    ∃ before old u, Leads sources first s before old u ∧ before.length = n ∧
      old :: before <:+ seen ∧ ∃ next v, Hops sources u old (.onward next) v := by
  induction h with
  | start => exact absurd hn (Nat.not_lt_zero n)
  | @onward seen lookup next t u h hop ih =>
    rcases Nat.lt_succ_iff_lt_or_eq.1 hn with hlt | rfl
    · obtain ⟨before, old, v, hold, hlength, hsuffix, hc⟩ := ih hlt
      exact ⟨before, old, v, hold, hlength, hsuffix.trans (List.suffix_cons _ _), hc⟩
    · exact ⟨seen, lookup, t, h, rfl, List.suffix_rfl, next, u, hop⟩

/-- The search keeps in step with hops that come nowhere for the second time. -/
theorem follow_eq (h : Leads sources first s seen lookup t) (hnodup : seen.Nodup) {limit : Nat}
    (hle : seen.length ≤ limit) :
    follow sources limit [] first s = follow sources (limit - seen.length) seen lookup t := by
  induction h with
  | start => rfl
  | @onward seen lookup next t u h hop ih =>
    obtain ⟨hnot, hnodup⟩ := List.nodup_cons.1 hnodup
    rw [List.length_cons] at hle ⊢
    rw [ih hnodup (by omega), show limit - seen.length = limit - (seen.length + 1) + 1 by omega,
      follow, if_neg hnot]
    simp only [Bind.bind, EStateM.bind, hop.hop_eq]

end Leads

/-- The search ends as its last hop does. -/
theorem Concludes.follow_eq {n : Nat} {seen : List Lookup} {lookup : Lookup} {s : Store}
    {result : EStateM.Result BuildError Store (Option StatementRef)}
    (h : Concludes sources s lookup result) (hnot : lookup ∉ seen) :
    follow sources (n + 1) seen lookup s = result := by
  rw [follow, if_neg hnot]
  simp only [Bind.bind, EStateM.bind]
  cases h with
  | defined hop | external hop =>
    rw [hop.hop_eq]
    rfl
  | fails hop => rw [hop.hop_eq]

/-- The search for a name fails if its first hop does. -/
theorem resolveName_of_hop_error {id : Nat} {name : String} {s t : Store} {e : BuildError}
    (h : hop sources (.inScope id name) s = .error e t) :
    resolveName sources id name s = .error e t := by
  rw [resolveName, maxHops]
  exact (Concludes.fails (hop_eq_error.1 h)).follow_eq List.not_mem_nil

/-- Hops that end come nowhere for the second time. -/
theorem Leads.not_mem_of_concludes {first lookup : Lookup} {s t : Store} {seen : List Lookup}
    (h : Leads sources first s seen lookup t)
    {result : EStateM.Result BuildError Store (Option StatementRef)}
    (hc : Concludes sources t lookup result) : lookup ∉ seen := by
  intro hmem
  obtain ⟨next, -, hop⟩ := h.onward_of_mem hmem
  exact hop.not_concludes hc

theorem Finishes.follow_eq {first : Lookup} {s : Store} {lookups limit : Nat}
    {result : EStateM.Result BuildError Store (Option StatementRef)}
    (h : Finishes sources first s lookups result) (hle : lookups ≤ limit) :
    follow sources limit [] first s = result := by
  obtain ⟨seen, lookup, t, hleads, rfl, hc⟩ := h
  have hnot := hleads.not_mem_of_concludes hc
  rw [hleads.follow_eq (hleads.nodup hnot) (by omega),
    show limit - seen.length = limit - (seen.length + 1) + 1 by omega]
  exact hc.follow_eq hnot

theorem StopsAt.follow_eq {limit : Nat} {first lookup : Lookup} {s t : Store} {seen : List Lookup}
    (h : StopsAt sources limit first s seen lookup t) :
    follow sources limit [] first s = circular lookup t := by
  rw [h.leads.follow_eq h.nodup h.length_le]
  rcases h.stops with hmem | hlength
  · cases hn : limit - seen.length with
    | zero => rw [follow]
    | succ n => rw [follow, if_pos hmem]
  · rw [hlength, Nat.sub_self, follow]

/-- The error of a search that stops names the module and the name of the lookup. -/
theorem StopsAt.circular_eq {limit : Nat} (hlimit : 0 < limit) {first lookup : Lookup} {s t : Store}
    {seen : List Lookup} (h : StopsAt sources limit first s seen lookup t) :
    ∃ m, t.modules[lookup.moduleId]? = some m ∧
      (circular lookup t : EStateM.Result BuildError Store (Option StatementRef)) =
        .error (.circularReexport m.path lookup.name) t := by
  have hne : seen ≠ [] := by
    rintro rfl
    rcases h.stops with hmem | hlength
    · exact List.not_mem_nil hmem
    · exact hlimit.ne hlength
  obtain ⟨m, hm⟩ := h.leads.has hne
  refine ⟨m, hm, ?_⟩
  simp only [circular, Bind.bind, EStateM.bind, moduleAt_eq_ok.2 ⟨hm, rfl⟩]
  rfl

-- ---------------------------------------------------------------------------
-- How hopping on goes
-- ---------------------------------------------------------------------------

/-- Hops end within the lookups that are left, or come to where a search stops. -/
theorem Leads.ends {first lookup : Lookup} {s t : Store} {seen : List Lookup}
    (h : Leads sources first s seen lookup t) (hnodup : seen.Nodup) {limit n : Nat}
    (hn : seen.length + n = limit) :
    (∃ lookups ≤ limit, ∃ result, Finishes sources first s lookups result) ∨
      ∃ seen lookup t, StopsAt sources limit first s seen lookup t := by
  induction n generalizing seen lookup t with
  | zero => exact .inr ⟨seen, lookup, t, h, hnodup, hn.le, .inr hn⟩
  | succ n ih =>
    by_cases hmem : lookup ∈ seen
    · exact .inr ⟨seen, lookup, t, h, hnodup, by omega, .inl hmem⟩
    · rcases onward_or_concludes sources lookup t with ⟨next, u, hop⟩ | ⟨result, hc⟩
      · exact ih (h.onward hop) (List.nodup_cons.2 ⟨hmem, hnodup⟩) (by simp; omega)
      · exact .inl ⟨_, by omega, result, seen, lookup, t, h, rfl, hc⟩

/-- Hops that end are the last ones. -/
theorem Finishes.length_lt {first lookup : Lookup} {s t : Store} {lookups : Nat}
    {result : EStateM.Result BuildError Store (Option StatementRef)} {seen : List Lookup}
    (h : Finishes sources first s lookups result) (hl : Leads sources first s seen lookup t) :
    seen.length < lookups := by
  obtain ⟨last, final, u, hleads, rfl, hc⟩ := h
  by_contra hlt
  obtain ⟨before, old, v, hold, hlength, -, next, w, hop⟩ :=
    hl.earlier (n := last.length) (by omega)
  obtain ⟨-, rfl, rfl⟩ := hold.unique hleads hlength
  exact hop.not_concludes hc

theorem Finishes.not_revisits {first : Lookup} {s : Store} {lookups : Nat}
    {result : EStateM.Result BuildError Store (Option StatementRef)}
    (h : Finishes sources first s lookups result) : ¬ Revisits sources first s := by
  rintro ⟨seen, lookup, t, hl, hmem⟩
  have hlt := h.length_lt hl
  obtain ⟨last, final, u, hleads, rfl, hc⟩ := h
  have hnot := hleads.not_mem_of_concludes hc
  rcases Nat.lt_succ_iff_lt_or_eq.1 hlt with hlt | hlength
  · obtain ⟨before, old, v, hold, hlength, hsuffix, -⟩ := hleads.earlier hlt
    obtain ⟨rfl, rfl, -⟩ := hold.unique hl hlength
    exact (List.nodup_cons.1 (hsuffix.nodup (hleads.nodup hnot))).1 hmem
  · obtain ⟨rfl, rfl, -⟩ := hl.unique hleads hlength
    exact hnot hmem

theorem Finishes.not_exceeds {first : Lookup} {s : Store} {lookups limit : Nat}
    {result : EStateM.Result BuildError Store (Option StatementRef)}
    (h : Finishes sources first s lookups result) (hle : lookups ≤ limit) :
    ¬ Exceeds sources first s limit := by
  rintro ⟨seen, lookup, t, hl, rfl⟩
  have := h.length_lt hl
  omega

section

variable {first : Lookup} {s : Store} {limit : Nat}

/-- Hopping on is of no use exactly if it comes to where a search stops. -/
theorem revisits_or_exceeds_iff_stopsAt :
    Revisits sources first s ∨ Exceeds sources first s limit ↔
      ∃ seen lookup t, StopsAt sources limit first s seen lookup t := by
  constructor
  · intro h
    rcases Leads.start.ends .nil (Nat.zero_add limit) with ⟨lookups, hle, result, hf⟩ | hstop
    · rcases h with h | h
      · exact absurd h hf.not_revisits
      · exact absurd h (hf.not_exceeds hle)
    · exact hstop
  · rintro ⟨seen, lookup, t, h⟩
    exact h.stops.imp (fun hmem => ⟨seen, lookup, t, h.leads, hmem⟩)
      fun hlength => ⟨seen, lookup, t, h.leads, hlength⟩

/-- Hopping on is of no use exactly if it does not end in time. -/
theorem revisits_or_exceeds_iff_not_finishes :
    Revisits sources first s ∨ Exceeds sources first s limit ↔
      ¬ ∃ lookups ≤ limit, ∃ result, Finishes sources first s lookups result := by
  constructor
  · rintro h ⟨lookups, hle, result, hf⟩
    rcases h with h | h
    · exact hf.not_revisits h
    · exact hf.not_exceeds hle h
  · intro h
    exact revisits_or_exceeds_iff_stopsAt.2
      ((Leads.start.ends .nil (Nat.zero_add limit)).resolve_left h)

/-- Hops that end do not end with a circular name, unless that is how files read. -/
theorem Finishes.notCircular (hread : ∀ path e, sources.read path = .error e → e.NotCircular)
    {lookups : Nat} {e : BuildError} {t : Store}
    (h : Finishes sources first s lookups (.error e t)) : e.NotCircular := by
  obtain ⟨seen, lookup, u, -, -, hc⟩ := h
  cases hc with | fails hop =>
  rcases mayFail_of_hop hop.hop_eq with he | ⟨path, he⟩
  · exact he
  · exact hread path e he

end

-- ---------------------------------------------------------------------------
-- The search for a name
-- ---------------------------------------------------------------------------

theorem maxHops_pos : 0 < maxHops := by decide

/-- A search that calls no name circular ends with its last hop. -/
theorem finishes_of_resolveName {id : Nat} {name : String} {s : Store}
    {result : EStateM.Result BuildError Store (Option StatementRef)}
    (h : resolveName sources id name s = result)
    (hresult : ∀ path other t, result ≠ .error (.circularReexport path other) t) :
    ∃ lookups ≤ maxHops, Finishes sources (.inScope id name) s lookups result := by
  rcases Leads.start.ends .nil (Nat.zero_add maxHops) with ⟨lookups, hle, other, hf⟩ | hstop
  · obtain rfl : result = other := h.symm.trans (hf.follow_eq hle)
    exact ⟨lookups, hle, hf⟩
  · obtain ⟨seen, lookup, u, hstop⟩ := hstop
    obtain ⟨m, -, hcircular⟩ := hstop.circular_eq maxHops_pos
    exact absurd (h.symm.trans (hstop.follow_eq.trans hcircular)) (hresult _ _ _)

/-- The search for a name comes to what hopping on from the name ends with, if that
takes at most `maxHops` lookups. Otherwise hopping on comes back to a lookup or
takes more than that, and the search fails at the first lookup where this shows,
with the name that is looked up there and the module. Nothing else is called
circular. -/
theorem resolveName_exact (sources : Sources) (id : Nat) (name : String) (s : Store) :
    (∀ lookups ≤ maxHops, ∀ result, Finishes sources (.inScope id name) s lookups result →
      resolveName sources id name s = result) ∧
    (∀ seen lookup t, StopsAt sources maxHops (.inScope id name) s seen lookup t →
      ∃ m, t.modules[lookup.moduleId]? = some m ∧
        resolveName sources id name s = .error (.circularReexport m.path lookup.name) t) ∧
    (Revisits sources (.inScope id name) s ∨ Exceeds sources (.inScope id name) s maxHops ↔
      ∃ seen lookup t, StopsAt sources maxHops (.inScope id name) s seen lookup t) ∧
    (Revisits sources (.inScope id name) s ∨ Exceeds sources (.inScope id name) s maxHops ↔
      ¬ ∃ lookups ≤ maxHops, ∃ result, Finishes sources (.inScope id name) s lookups result) ∧
    ((∀ path e, sources.read path = .error e → e.NotCircular) →
      ((∃ path other t, resolveName sources id name s = .error (.circularReexport path other) t) ↔
        Revisits sources (.inScope id name) s ∨
          Exceeds sources (.inScope id name) s maxHops)) := by
  have hstops : ∀ seen lookup t, StopsAt sources maxHops (.inScope id name) s seen lookup t →
      ∃ m, t.modules[lookup.moduleId]? = some m ∧
        resolveName sources id name s = .error (.circularReexport m.path lookup.name) t := by
    intro seen lookup t h
    obtain ⟨m, hm, hcircular⟩ := h.circular_eq maxHops_pos
    exact ⟨m, hm, h.follow_eq.trans hcircular⟩
  refine ⟨fun lookups hle result h => h.follow_eq hle, hstops, revisits_or_exceeds_iff_stopsAt,
    revisits_or_exceeds_iff_not_finishes, fun hread => ⟨?_, fun h => ?_⟩⟩
  · rintro ⟨path, other, t, hr⟩
    refine revisits_or_exceeds_iff_not_finishes.2 ?_
    rintro ⟨lookups, hle, result, hf⟩
    obtain rfl : .error (.circularReexport path other) t = result :=
      hr.symm.trans (hf.follow_eq hle)
    exact hf.notCircular hread path other rfl
  · obtain ⟨seen, lookup, t, h⟩ := revisits_or_exceeds_iff_stopsAt.1 h
    obtain ⟨m, -, hr⟩ := hstops seen lookup t h
    exact ⟨m.path, lookup.name, t, hr⟩

/-- Tables of files do not fail with circular names. -/
theorem FileTable.notCircular_read (files : FileTable) (path : Path) (e : BuildError)
    (h : files.sources.read path = .error e) : e.NotCircular := by
  have h : files.read path = .error e := h
  rw [FileTable.read] at h
  split at h <;> cases h <;> exact fun _ _ => BuildError.noConfusion

/-- A file that imports a name from itself, where it exports the name it imports. -/
def selfImport : FileTable :=
  ⟨[(.ofText "a.js", .holds "import { x } from './a.js';\nexport { x };\n")]⟩

/-- The module of the file. -/
def selfModule : Module :=
  (selfImport.sources.moduleOf (.ofText "a.js")).toOption.getD default

/-- The store where the file is fetched. -/
def selfStore : Store := (Store.empty.logRead (.ofText "a.js")).add selfModule

theorem moduleOf_selfImport : selfImport.sources.moduleOf (.ofText "a.js") = .ok selfModule :=
  eq_ok_of_isOk (by decide +kernel)

theorem resolveName_exact_selfImport :
    fetch selfImport.sources (.ofText "a.js") .empty = .ok 0 selfStore ∧
      resolveName selfImport.sources 0 "y" selfStore = .ok none selfStore ∧
      StopsAt selfImport.sources maxHops (.inScope 0 "x") selfStore
        [.exported 0 "x", .inScope 0 "x"] (.inScope 0 "x") selfStore ∧
      (∃ m, selfStore.modules[0]? = some m ∧ resolveName selfImport.sources 0 "x" selfStore =
        .error (.circularReexport m.path "x") selfStore) ∧
      ((∃ path other t,
        resolveName selfImport.sources 0 "x" selfStore = .error (.circularReexport path other) t) ↔
          Revisits selfImport.sources (.inScope 0 "x") selfStore ∨
            Exceeds selfImport.sources (.inScope 0 "x") selfStore maxHops) := by
  have hm : selfStore.modules[0]? = some selfModule := by
    simp [selfStore, Store.add, Store.logRead, Store.empty]
  have hfetch : fetchFrom selfImport.sources selfModule.path "./a.js" selfStore =
      .ok 0 selfStore :=
    fetch_eq_ok.2 (.inl ⟨by decide +kernel, rfl⟩)
  have hin : Hops selfImport.sources selfStore (.inScope 0 "x") (.onward (.exported 0 "x"))
      selfStore := by
    have himport : selfModule.imports.find? "x" = some ⟨"./a.js", "x"⟩ := by decide +kernel
    exact .imported hm (by decide +kernel) himport (by decide) hfetch
  have hout : Hops selfImport.sources selfStore (.exported 0 "x") (.onward (.inScope 0 "x"))
      selfStore := by
    have hexport : selfModule.exports.find? "x" = some ⟨"x", .here none⟩ := by decide +kernel
    exact .here hm hexport
  have hexternal : Hops selfImport.sources selfStore (.inScope 0 "y") .external selfStore :=
    .external hm (by decide +kernel) (by decide +kernel)
  have hstop : StopsAt selfImport.sources maxHops (.inScope 0 "x") selfStore
      [.exported 0 "x", .inScope 0 "x"] (.inScope 0 "x") selfStore :=
    ⟨(Leads.start.onward hin).onward hout, by decide, by decide, .inl (by decide)⟩
  obtain ⟨-, hstops, -, -, hcircular⟩ := resolveName_exact selfImport.sources 0 "x" selfStore
  have hfinish : Finishes selfImport.sources (.inScope 0 "y") selfStore 1 (.ok none selfStore) :=
    ⟨[], _, _, .start, rfl, .external hexternal⟩
  exact ⟨fetch_empty moduleOf_selfImport (by decide),
    (resolveName_exact selfImport.sources 0 "y" selfStore).1 1 (by decide) _ hfinish, hstop,
    hstops _ _ _ hstop, hcircular selfImport.notCircular_read⟩

end ModuleBundler

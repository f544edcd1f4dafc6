import ModuleBundler.Bundle.FileTable
import ModuleBundler.Proofs.Agreement
import Mathlib.Logic.Relation

/-!
# ModuleBundler — the search through star exports

Star exports make a graph of the modules, where cycles and diamonds are allowed. A
search through it looks for a module that exports a name itself. The bundler keeps
a stack of modules, and fetches a module as soon as a star export names it. What the
search comes to can be told without the stack and without a store: it goes depth
first through the graph, and finds a module whenever there is one.

* `Sources.starSources`, `Sources.offers` — the graph, and what is looked for.
* `StarSearch` — the search by recursion over the graph.
* `StarSearch.reaches`, `StarSearch.closed` — what the recursion finds is there, and
  if it finds nothing, then there is nothing.
* `searchStars_follows` — the bundler with its stack does what the recursion does.
* `findStarExport_depthFirst` — so the search of the bundler is complete.
-/

namespace ModuleBundler

-- ---------------------------------------------------------------------------
-- The graph
-- ---------------------------------------------------------------------------

namespace Sources

/-- The paths that the star exports of the module of a path name, in source order. -/
def starSources (sources : Sources) (p : Path) : List Path :=
  match sources.moduleOf p with
  | .ok m => m.starExports.map (sources.resolve p)
  | .error _ => []

/-- Whether the module of a path exports a name itself. -/
def offers (sources : Sources) (name : String) (p : Path) : Bool :=
  match sources.moduleOf p with
  | .ok m => m.exports.contains name
  | .error _ => false

/-- One or more star exports lead from one path to another. -/
def StarReaches (sources : Sources) : Path → Path → Prop :=
  Relation.TransGen fun p q => q ∈ sources.starSources p

/-- A path and all that star exports lead to from there can be fetched. -/
def Fetchable (sources : Sources) (p : Path) : Prop :=
  ∀ q, q = p ∨ sources.StarReaches p q → ∃ m, sources.moduleOf q = .ok m

variable {sources : Sources} {p q : Path} {m : Module}

theorem starSources_of_moduleOf (h : sources.moduleOf p = .ok m) :
    sources.starSources p = m.starExports.map (sources.resolve p) := by
  unfold starSources
  rw [h]

theorem offers_of_moduleOf (h : sources.moduleOf p = .ok m) (name : String) :
    sources.offers name p = m.exports.contains name := by
  unfold offers
  rw [h]

theorem Fetchable.moduleOf (h : sources.Fetchable p) : ∃ m, sources.moduleOf p = .ok m :=
  h p (.inl rfl)

/-- Where star exports lead, they lead on from there. -/
theorem Fetchable.source (h : sources.Fetchable p) (hq : q ∈ sources.starSources p) :
    sources.Fetchable q := by
  intro r hr
  rcases hr with rfl | hr
  · exact h r (.inr (.single hq))
  · exact h r (.inr (.head hq hr))

/-- Two spellings of a path name the same module, or none. -/
theorem Lawful.moduleOf_alike (laws : sources.Lawful) (h : p.same q = true) (i j : Nat) :
    (∃ m n, sources.moduleOf p i = .ok m ∧ sources.moduleOf q j = .ok n ∧ m.Alike n) ∨
      ∃ e e', sources.moduleOf p i = .error e ∧ sources.moduleOf q j = .error e' := by
  have ho := laws.sameOutcome_moduleOf h i j
  cases hp : sources.moduleOf p i with
  | ok m =>
    cases hq : sources.moduleOf q j with
    | ok n =>
      rw [hp, hq] at ho
      exact .inl ⟨m, n, rfl, rfl, ho.2.2⟩
    | error e =>
      rw [hp, hq] at ho
      exact ho.elim
  | error e =>
    cases hq : sources.moduleOf q j with
    | ok n =>
      rw [hp, hq] at ho
      exact ho.elim
    | error e' => exact .inr ⟨e, e', rfl, rfl⟩

/-- Two spellings of a path offer the same names. -/
theorem Lawful.offers_eq (laws : sources.Lawful) (h : p.same q = true) (name : String) :
    sources.offers name p = sources.offers name q := by
  unfold offers
  rcases laws.moduleOf_alike h 0 0 with ⟨m, n, hm, hn, ha⟩ | ⟨e, e', he, he'⟩
  · rw [hm, hn]
    show m.exports.contains name = n.exports.contains name
    rw [congrArg Bindings.exports ha.bindings]
  · rw [he, he']

/-- Two spellings of a path have the same star sources, spelled differently. -/
theorem Lawful.mem_starSources (laws : sources.Lawful) (h : p.same q = true) {r : Path}
    (hr : r ∈ sources.starSources p) : ∃ r' ∈ sources.starSources q, r.same r' = true := by
  rcases laws.moduleOf_alike h 0 0 with ⟨m, n, hm, hn, ha⟩ | ⟨e, e', he, he'⟩
  · rw [starSources_of_moduleOf hm] at hr
    obtain ⟨source, hsource, rfl⟩ := List.mem_map.1 hr
    rw [congrArg Bindings.starExports ha.bindings] at hsource
    rw [starSources_of_moduleOf hn]
    exact ⟨_, List.mem_map.2 ⟨source, hsource, rfl⟩, laws.resolve_same h source⟩
  · unfold starSources at hr
    rw [he] at hr
    exact absurd hr List.not_mem_nil

end Sources

-- ---------------------------------------------------------------------------
-- The search by recursion
-- ---------------------------------------------------------------------------

/-- A path is listed, however it is spelled. -/
def Listed (list : List Path) (p : Path) : Prop := ∃ q ∈ list, q.same p = true

/-- The depth-first search for a name through the star sources of modules that are
given in order. A module that was searched before is passed over. Of the others the
star sources are tested first, all of them in source order; if none offers the name,
they are searched in turn, and the other modules after that. The search starts from
a list of searched modules, to which it adds, and comes to the path that it finds. -/
inductive StarSearch (sources : Sources) (name : String) :
    List Path → List Path → List Path → Option Path → Prop
  | done {searched : List Path} : StarSearch sources name searched [] searched none
  | skip {searched searched' rest : List Path} {p : Path} {found : Option Path}
    (hp : Listed searched p) (hrest : StarSearch sources name searched rest searched' found) :
    StarSearch sources name searched (p :: rest) searched' found
  | found {searched rest : List Path} {p q : Path} (hp : ¬ Listed searched p)
    (hq : (sources.starSources p).find? (sources.offers name) = some q) :
    StarSearch sources name searched (p :: rest) (p :: searched) (some q)
  | inside {searched searched' rest : List Path} {p q : Path} (hp : ¬ Listed searched p)
    (hnone : (sources.starSources p).find? (sources.offers name) = none)
    (h : StarSearch sources name (p :: searched) (sources.starSources p) searched' (some q)) :
    StarSearch sources name searched (p :: rest) searched' (some q)
  | after {searched searched' searched'' rest : List Path} {p : Path} {found : Option Path}
    (hp : ¬ Listed searched p)
    (hnone : (sources.starSources p).find? (sources.offers name) = none)
    (h : StarSearch sources name (p :: searched) (sources.starSources p) searched' none)
    (hrest : StarSearch sources name searched' rest searched'' found) :
    StarSearch sources name searched (p :: rest) searched'' found

namespace StarSearch

variable {sources : Sources} {name : String} {searched searched' list rest : List Path}
  {found : Option Path} {p q : Path}

/-- What is found offers the name, and star exports of a given module lead there. -/
theorem reaches (h : StarSearch sources name searched list searched' (some q)) :
    sources.offers name q = true ∧ ∃ p ∈ list, sources.StarReaches p q := by
  generalize hfound : some q = found at h
  induction h with
  | done => cases hfound
  | skip hp hrest ih =>
    obtain ⟨ho, r, hr, hreach⟩ := ih hfound
    exact ⟨ho, r, List.mem_cons_of_mem _ hr, hreach⟩
  | @found _ _ p _ hp hq =>
    obtain rfl := Option.some.inj hfound
    have hmem := List.mem_of_find?_eq_some hq
    exact ⟨List.find?_some hq, p, List.mem_cons_self, .single hmem⟩
  | @inside _ _ _ p _ hp hnone h ih =>
    obtain ⟨ho, r, hr, hreach⟩ := ih hfound
    exact ⟨ho, p, List.mem_cons_self, .head hr hreach⟩
  | after hp hnone h hrest _ ih =>
    obtain ⟨ho, r, hr, hreach⟩ := ih hfound
    exact ⟨ho, r, List.mem_cons_of_mem _ hr, hreach⟩

/-- What a search is left with that finds nothing: it has searched what it was given,
and tested and searched all the star sources of each module that it searched. -/
structure Closed (sources : Sources) (name : String) (searched list searched' : List Path) :
    Prop where
  keeps : ∀ q ∈ searched, q ∈ searched'
  covers : ∀ p ∈ list, Listed searched' p
  step : ∀ q ∈ searched', q ∈ searched ∨
    ∀ r ∈ sources.starSources q, sources.offers name r = false ∧ Listed searched' r

theorem closed (h : StarSearch sources name searched list searched' none) :
    Closed sources name searched list searched' := by
  generalize hfound : none = found at h
  induction h with
  | done => exact ⟨fun q hq => hq, fun p hp => absurd hp List.not_mem_nil, fun q hq => .inl hq⟩
  | skip hp hrest ih =>
    obtain ⟨hkeeps, hcovers, hstep⟩ := ih hfound
    refine ⟨hkeeps, fun r hr => ?_, hstep⟩
    rcases List.mem_cons.1 hr with rfl | hr
    · obtain ⟨q, hq, hsame⟩ := hp
      exact ⟨q, hkeeps q hq, hsame⟩
    · exact hcovers r hr
  | found hp hq => cases hfound
  | inside hp hnone h ih => cases hfound
  | @after searched searched' _ rest p _ hp hnone h hrest ih ihrest =>
    obtain ⟨hkeeps, hcovers, hstep⟩ := ih rfl
    obtain ⟨hkeeps', hcovers', hstep'⟩ := ihrest hfound
    refine ⟨fun q hq => hkeeps' q (hkeeps q (List.mem_cons_of_mem _ hq)), fun r hr => ?_,
      fun q hq => ?_⟩
    · rcases List.mem_cons.1 hr with rfl | hr
      · exact ⟨r, hkeeps' r (hkeeps r List.mem_cons_self), Path.same_refl r⟩
      · exact hcovers' r hr
    · have hlisted : ∀ {r}, Listed searched' r → Listed _ r := fun ⟨w, hw, hsame⟩ =>
        ⟨w, hkeeps' w hw, hsame⟩
      rcases hstep' q hq with hq | hq
      · rcases hstep q hq with hq | hq
        · rcases List.mem_cons.1 hq with rfl | hq
          · -- the module itself: its star sources were tested, and then searched
            refine .inr fun r hr => ⟨?_, hlisted (hcovers r hr)⟩
            simpa using List.find?_eq_none.1 hnone r hr
          · exact .inl hq
        · exact .inr fun r hr => ⟨(hq r hr).1, hlisted (hq r hr).2⟩
      · exact .inr hq

/-- A search that starts from nothing and finds nothing leaves nothing out. -/
theorem offers_eq_false (laws : sources.Lawful)
    (h : StarSearch sources name [] list searched none) (hp : p ∈ list)
    (hq : sources.StarReaches p q) : sources.offers name q = false := by
  obtain ⟨-, hcovers, hstep⟩ := h.closed
  have hnext : ∀ {a b}, Listed searched a → b ∈ sources.starSources a →
      sources.offers name b = false ∧ Listed searched b := by
    rintro a b ⟨w, hw, hsame⟩ hb
    obtain ⟨b', hb', hsame'⟩ := laws.mem_starSources (Path.same_symm hsame) hb
    obtain ⟨ho, v, hv, hsame''⟩ := (hstep w hw).resolve_left List.not_mem_nil b' hb'
    exact ⟨(laws.offers_eq hsame' name).trans ho, v, hv,
      Path.same_trans hsame'' (Path.same_symm hsame')⟩
  have hall : sources.offers name q = false ∧ Listed searched q := by
    induction hq with
    | single hb => exact hnext (hcovers p hp) hb
    | tail _ hb ih => exact hnext ih.2 hb
  exact hall.1

/-- A search finds a module exactly if star exports lead to one that offers the name. -/
theorem isSome_iff (laws : sources.Lawful)
    (h : StarSearch sources name [] [p] searched found) :
    found.isSome = true ↔ ∃ q, sources.StarReaches p q ∧ sources.offers name q = true := by
  cases found with
  | some q =>
    obtain ⟨ho, r, hr, hreach⟩ := h.reaches
    obtain rfl := List.mem_singleton.1 hr
    exact ⟨fun _ => ⟨q, hreach, ho⟩, fun _ => rfl⟩
  | none =>
    refine ⟨fun hn => absurd hn (by simp), ?_⟩
    rintro ⟨q, hreach, ho⟩
    rw [h.offers_eq_false laws List.mem_cons_self hreach] at ho
    cases ho

/-- A direct star source that offers the name comes before all other modules. -/
theorem eq_of_direct (h : StarSearch sources name [] [p] searched found)
    (hq : (sources.starSources p).find? (sources.offers name) = some q) : found = some q := by
  cases h with
  | skip hp _ =>
    obtain ⟨w, hw, -⟩ := hp
    exact absurd hw List.not_mem_nil
  | found _ hq' => exact hq'.symm.trans hq
  | inside _ hnone _ =>
    rw [hnone] at hq
    cases hq
  | after _ hnone _ _ =>
    rw [hnone] at hq
    cases hq

/-- A search comes to one end only. -/
theorem unique (h : StarSearch sources name searched list searched' found)
    {other : List Path} {found' : Option Path}
    (h' : StarSearch sources name searched list other found') :
    searched' = other ∧ found = found' := by
  induction h generalizing other found' with
  | done => cases h' with | done => exact ⟨rfl, rfl⟩
  | skip hp _ ih =>
    cases h' with
    | skip _ hrest => exact ih hrest
    | found hnot _ => exact absurd hp hnot
    | inside hnot _ _ => exact absurd hp hnot
    | after hnot _ _ _ => exact absurd hp hnot
  | found hnot hq =>
    cases h' with
    | skip hp _ => exact absurd hp hnot
    | found _ hq' => exact ⟨rfl, hq.symm.trans hq'⟩
    | inside _ hnone _ => rw [hq] at hnone; cases hnone
    | after _ hnone _ _ => rw [hq] at hnone; cases hnone
  | inside hnot hnone _ ih =>
    cases h' with
    | skip hp _ => exact absurd hp hnot
    | found _ hq => rw [hnone] at hq; cases hq
    | inside _ _ h => exact ih h
    | after _ _ h _ => cases (ih h).2
  | after hnot hnone _ _ ih ihrest =>
    cases h' with
    | skip hp _ => exact absurd hp hnot
    | found _ hq => rw [hnone] at hq; cases hq
    | inside _ _ h => cases (ih h).2
    | after _ _ h hrest =>
      obtain ⟨rfl, -⟩ := ih h
      exact ihrest hrest

/-- Modules that were searched before are passed over. -/
theorem of_listed (h : ∀ p ∈ list, Listed searched p) :
    StarSearch sources name searched list searched none := by
  induction list with
  | nil => exact .done
  | cons p list ih =>
    exact .skip (h p List.mem_cons_self) (ih fun q hq => h q (List.mem_cons_of_mem _ hq))

/-- To search some modules and then others is to search the others unless the first
search finds something. -/
theorem split (h : StarSearch sources name searched (list ++ rest) searched' found) :
    (∃ q, found = some q ∧ StarSearch sources name searched list searched' (some q)) ∨
      ∃ between, StarSearch sources name searched list between none ∧
        StarSearch sources name between rest searched' found := by
  generalize hall : list ++ rest = all at h
  induction h generalizing list with
  | done =>
    obtain ⟨rfl, rfl⟩ := List.append_eq_nil_iff.1 hall
    exact .inr ⟨_, .done, .done⟩
  | @skip _ _ tail p _ hp hrest ih =>
    cases list with
    | nil =>
      obtain rfl : rest = p :: tail := hall
      exact .inr ⟨_, .done, .skip hp hrest⟩
    | cons a list =>
      obtain ⟨rfl, rfl⟩ := List.cons.inj hall
      rcases ih rfl with ⟨q, hfound, h⟩ | ⟨between, h, h'⟩
      · exact .inl ⟨q, hfound, .skip hp h⟩
      · exact .inr ⟨between, .skip hp h, h'⟩
  | @found _ tail p q hp hq =>
    cases list with
    | nil =>
      obtain rfl : rest = p :: tail := hall
      exact .inr ⟨_, .done, .found hp hq⟩
    | cons a list =>
      obtain ⟨rfl, -⟩ := List.cons.inj hall
      exact .inl ⟨q, rfl, .found hp hq⟩
  | @inside _ _ tail p q hp hnone h _ =>
    cases list with
    | nil =>
      obtain rfl : rest = p :: tail := hall
      exact .inr ⟨_, .done, .inside hp hnone h⟩
    | cons a list =>
      obtain ⟨rfl, -⟩ := List.cons.inj hall
      exact .inl ⟨q, rfl, .inside hp hnone h⟩
  | @after _ _ _ tail p _ hp hnone h hrest _ ih =>
    cases list with
    | nil =>
      obtain rfl : rest = p :: tail := hall
      exact .inr ⟨_, .done, .after hp hnone h hrest⟩
    | cons a list =>
      obtain ⟨rfl, rfl⟩ := List.cons.inj hall
      rcases ih rfl with ⟨q, hfound, h'⟩ | ⟨between, h', h''⟩
      · exact .inl ⟨q, hfound, .after hp hnone h h'⟩
      · exact .inr ⟨between, .after hp hnone h h', h''⟩

end StarSearch

-- ---------------------------------------------------------------------------
-- The search of the bundler
-- ---------------------------------------------------------------------------

variable {sources : Sources}

/-- A store keeps the module of a path under a number. -/
def Store.Names (s : Store) (id : Nat) (p : Path) : Prop :=
  ∃ m, s.modules[id]? = some m ∧ m.path.same p = true

namespace Store

variable {s t : Store} {i : Nat} {p : Path}

theorem Names.mono (h : s.Names i p) (ht : s.Extends t) : t.Names i p := by
  obtain ⟨m, hm, hp⟩ := h
  exact ⟨m, ht hm, hp⟩

theorem Names.lt_size (h : s.Names i p) : i < s.modules.size := by
  obtain ⟨m, hm, -⟩ := h
  exact (Array.getElem?_eq_some_iff.1 hm).1

/-- The module of a number that a path names is the module of the path. -/
theorem Names.module (laws : sources.Lawful) (hs : s.Coherent sources) (h : s.Names i p) :
    ∃ m n, s.modules[i]? = some m ∧ m.path.same p = true ∧ sources.moduleOf p = .ok n ∧
      m.Alike n := by
  obtain ⟨m, hm, hp⟩ := h
  rcases laws.moduleOf_alike hp i 0 with ⟨m', n, hm', hn, ha⟩ | ⟨e, e', he, -⟩
  · obtain rfl : m = m' := Except.ok.inj ((hs.loaded hm).symm.trans hm')
    exact ⟨m, n, hm, hp, hn, ha⟩
  · have hl := hs.loaded hm
    rw [he] at hl
    cases hl

/-- A number is listed exactly if its path is. -/
theorem Names.mem_iff (hs : s.Coherent sources) {ids : List Nat} {paths : List Path}
    (hall : List.Forall₂ s.Names ids paths) (h : s.Names i p) : i ∈ ids ↔ Listed paths p := by
  obtain ⟨m, hm, hp⟩ := h
  induction hall with
  | nil => simp [Listed]
  | @cons j q ids paths hjq _ ih =>
    obtain ⟨n, hn, hq⟩ := hjq
    have hhead : i = j ↔ q.same p = true := by
      constructor
      · rintro rfl
        obtain rfl : m = n := Option.some.inj (hm.symm.trans hn)
        exact Path.same_trans (Path.same_symm hq) hp
      · intro hsame
        exact hs.distinct hm hn
          (Path.same_trans hp (Path.same_trans (Path.same_symm hsame) (Path.same_symm hq)))
    rw [List.mem_cons, hhead, ih]
    simp [Listed]

end Store

/-- What testing paths in order comes to: the first one that offers a name, or all of
them if there is none. -/
def StarSources.Tests (sources : Sources) (name : String) (paths : List Path) (s : Store) :
    StarSources → Prop
  | .found i => ∃ q, paths.find? (sources.offers name) = some q ∧ s.Names i q
  | .next ids => paths.find? (sources.offers name) = none ∧ List.Forall₂ s.Names ids paths

/-- The bundler tests the sources of a module in order, however its path is spelled. -/
theorem searchSources_follows (laws : sources.Lawful) (name : String) {importer p : Path}
    (hp : importer.same p = true) {list : List String} {s : Store} (hs : s.Coherent sources)
    (hload : ∀ source ∈ list, ∃ m, sources.moduleOf (sources.resolve p source) = .ok m) :
    ∃ found t, searchSources sources importer name list s = .ok found t ∧ s.Later sources t ∧
      found.Tests sources name (list.map (sources.resolve p)) t := by
  induction list generalizing s with
  | nil => exact ⟨.next [], s, rfl, hs.later, rfl, .nil⟩
  | cons source rest ih =>
    obtain ⟨n, hn⟩ := hload source List.mem_cons_self
    have hsame := laws.resolve_same hp source
    obtain ⟨m, hm⟩ : ∃ m, sources.moduleOf (sources.resolve importer source) = .ok m := by
      rcases laws.moduleOf_alike hsame 0 0 with ⟨m, -, hm, -⟩ | ⟨-, e, -, he⟩
      · exact ⟨m, hm⟩
      · rw [hn] at he
        cases he
    obtain ⟨i, u, k, hfetch, hu, -, hk, hpath, ha⟩ := hs.fetch_ok laws hm
    have hnames : u.Names i (sources.resolve p source) := ⟨k, hk, Path.same_trans hpath hsame⟩
    have hoffers : sources.offers name (sources.resolve p source) = k.exports.contains name := by
      rw [← laws.offers_eq hsame, Sources.offers_of_moduleOf hm,
        congrArg Bindings.exports ha.bindings]
    have hstep : fetchFrom sources importer source s = .ok i u := hfetch
    have hat : moduleAt i u = .ok k u := moduleAt_eq_ok.2 ⟨hk, rfl⟩
    unfold searchSources
    by_cases hc : k.exports.contains name = true
    · refine ⟨.found i, u, ?_, hu, _, ?_, hnames⟩
      · refine Bundling.bind_eq_ok.2 ⟨i, u, hstep, Bundling.bind_eq_ok.2 ⟨k, u, hat, ?_⟩⟩
        rw [if_pos hc]
        rfl
      · rw [List.map_cons, List.find?_cons_of_pos (hoffers.trans hc)]
    · have hfind : ((source :: rest).map (sources.resolve p)).find? (sources.offers name) =
          (rest.map (sources.resolve p)).find? (sources.offers name) := by
        rw [List.map_cons, List.find?_cons_of_neg (by rw [hoffers]; exact hc)]
      obtain ⟨found, t, hsearch, ht, htests⟩ :=
        ih hu.coherent fun source' h => hload source' (List.mem_cons_of_mem _ h)
      cases found with
      | found j =>
        refine ⟨.found j, t, ?_, hu.trans ht, ?_⟩
        · refine Bundling.bind_eq_ok.2 ⟨i, u, hstep, Bundling.bind_eq_ok.2 ⟨k, u, hat, ?_⟩⟩
          rw [if_neg hc]
          exact Bundling.bind_eq_ok.2 ⟨_, t, hsearch, rfl⟩
        · obtain ⟨q, hq, hj⟩ := htests
          exact ⟨q, hfind.trans hq, hj⟩
      | next ids =>
        refine ⟨.next (i :: ids), t, ?_, hu.trans ht, ?_⟩
        · refine Bundling.bind_eq_ok.2 ⟨i, u, hstep, Bundling.bind_eq_ok.2 ⟨k, u, hat, ?_⟩⟩
          rw [if_neg hc]
          exact Bundling.bind_eq_ok.2 ⟨_, t, hsearch, rfl⟩
        · obtain ⟨hnone, hids⟩ := htests
          exact ⟨hfind.trans hnone, .cons (hnames.mono ht.extends_) hids⟩

/-- A search of the bundler comes to what the search by recursion comes to. -/
structure Follows (sources : Sources) (name : String) (searched list : List Path) (s : Store)
    (x : EStateM.Result BuildError Store (Option Nat)) : Prop where
  ends : ∃ found t searched' path, x = .ok found t ∧ s.Later sources t ∧
    StarSearch sources name searched list searched' path ∧ Option.Rel t.Names found path

/-- If as many modules are visited as there are, then all of them are. -/
theorem mem_of_length_eq {visited : List Nat} {size i : Nat} (hnodup : visited.Nodup)
    (hlt : ∀ j ∈ visited, j < size) (hle : size ≤ visited.length) (hi : i < size) :
    i ∈ visited := by
  by_contra hnot
  have hsub : i :: visited ⊆ List.range size := by
    intro j hj
    rcases List.mem_cons.1 hj with rfl | hj
    · exact List.mem_range.2 hi
    · exact List.mem_range.2 (hlt j hj)
  have hlength := (List.subperm_of_subset (List.nodup_cons.2 ⟨hnot, hnodup⟩) hsub).length_le
  rw [List.length_cons, List.length_range] at hlength
  omega

/-- Where as many modules were searched as there can be, all that have numbers were. -/
theorem Store.Coherent.listed_of_full (laws : sources.Lawful) {visited stack : List Nat}
    {searched list : List Path} {s : Store} (hs : s.Coherent sources)
    (hvisited : List.Forall₂ s.Names visited searched) (hnodup : visited.Nodup)
    (hfull : visited.length = sources.capacity) (hstack : List.Forall₂ s.Names stack list) :
    ∀ p ∈ list, Listed searched p := by
  have hlt : ∀ j ∈ visited, j < s.modules.size := by
    intro j hj
    obtain ⟨k, hk, rfl⟩ := List.getElem_of_mem hj
    exact ((List.forall₂_iff_get.1 hvisited).2 k hk (hvisited.length_eq ▸ hk)).lt_size
  have hsize := laws.fits hs
  intro p hp
  obtain ⟨k, hk, rfl⟩ := List.getElem_of_mem hp
  have hnames := (List.forall₂_iff_get.1 hstack).2 k (hstack.length_eq ▸ hk) hk
  exact (hnames.mem_iff hs hvisited).1 (mem_of_length_eq hnodup hlt (by omega) hnames.lt_size)

/-- The stack of the bundler holds what the recursion is still to search. Since no
module is searched twice, there are always rounds enough for it. -/
theorem searchStars_follows (laws : sources.Lawful) (name : String) {rounds : Nat}
    {visited stack : List Nat} {searched list : List Path} {s : Store} (hs : s.Coherent sources)
    (hvisited : List.Forall₂ s.Names visited searched) (hnodup : visited.Nodup)
    (hrounds : visited.length + rounds = sources.capacity)
    (hstack : List.Forall₂ s.Names stack list) (hload : ∀ p ∈ list, sources.Fetchable p) :
    Follows sources name searched list s (searchStars sources name rounds visited stack s) := by
  induction rounds generalizing s visited searched stack list with
  | zero =>
    have hlisted := hs.listed_of_full laws hvisited hnodup (by omega) hstack
    rw [searchStars]
    exact ⟨none, s, searched, none, rfl, hs.later, .of_listed hlisted, .none⟩
  | succ n ih =>
    induction hstack with
    | nil =>
      rw [searchStars]
      · exact ⟨none, s, searched, none, rfl, hs.later, .done, .none⟩
      · exact Nat.succ_ne_zero n
    | @cons i p rest rest' hi hrest ihrest =>
      have hp := hload p List.mem_cons_self
      have hloadrest : ∀ q ∈ rest', sources.Fetchable q := fun q hq =>
        hload q (List.mem_cons_of_mem _ hq)
      rw [searchStars]
      by_cases hmem : i ∈ visited
      · rw [if_pos hmem]
        obtain ⟨found, t, searched', path, hx, ht, hsearch, hfound⟩ := (ihrest hloadrest).ends
        exact ⟨found, t, searched', path, hx, ht,
          .skip ((hi.mem_iff hs hvisited).1 hmem) hsearch, hfound⟩
      · rw [if_neg hmem]
        have hnot : ¬ Listed searched p := mt (hi.mem_iff hs hvisited).2 hmem
        obtain ⟨m, k, hm, hpath, hk, ha⟩ := hi.module laws hs
        have hstars : sources.starSources p = m.starExports.map (sources.resolve p) := by
          rw [Sources.starSources_of_moduleOf hk, ← congrArg Bindings.starExports ha.bindings]
        have hat : moduleAt i s = .ok m s := moduleAt_eq_ok.2 ⟨hm, rfl⟩
        obtain ⟨answer, u, hsources, hu, htests⟩ := searchSources_follows laws name hpath
          hs fun source hsource => (hp.source (by
            rw [hstars]
            exact List.mem_map.2 ⟨source, hsource, rfl⟩)).moduleOf
        rw [← hstars] at htests
        cases answer with
        | found target =>
          obtain ⟨q, hq, htarget⟩ := htests
          refine ⟨some target, u, p :: searched, some q, ?_, hu, .found hnot hq, .some htarget⟩
          exact Bundling.bind_eq_ok.2 ⟨m, s, hat, Bundling.bind_eq_ok.2 ⟨_, u, hsources, rfl⟩⟩
        | next ids =>
          obtain ⟨hnone, hids⟩ := htests
          have hmono : ∀ {a b}, s.Names a b → u.Names a b := fun h => h.mono hu.extends_
          have hrounds' : (i :: visited).length + n = sources.capacity := by
            rw [List.length_cons]
            omega
          have hload' : ∀ q ∈ sources.starSources p ++ rest', sources.Fetchable q := by
            intro q hq
            rcases List.mem_append.1 hq with hq | hq
            · exact hp.source hq
            · exact hloadrest q hq
          obtain ⟨found, t, searched', path, hx, ht, hsearch, hfound⟩ :=
            (ih hu.coherent (.cons (hmono hi) (hvisited.imp fun _ _ => hmono))
              (List.nodup_cons.2 ⟨hmem, hnodup⟩) hrounds'
              (List.rel_append hids (hrest.imp fun _ _ => hmono)) hload').ends
          refine ⟨found, t, searched', path, ?_, hu.trans ht, ?_, hfound⟩
          · exact Bundling.bind_eq_ok.2 ⟨m, s, hat, Bundling.bind_eq_ok.2 ⟨_, u, hsources, hx⟩⟩
          · rcases hsearch.split with ⟨q, rfl, h⟩ | ⟨between, h, h'⟩
            · exact .inside hnot hnone h
            · exact .after hnot hnone h h'

/-- A name that a module does not export itself, other than `default`, is searched
through its star exports, in any graph where all that they lead to can be fetched. The
search ends, and finds a module exactly if one or more star exports lead to one that
offers the name. It leads to such a module: to the first direct star source that offers
the name if there is one, and otherwise to the one that the depth-first search comes
to, which has one end only. -/
theorem findStarExport_depthFirst (laws : sources.Lawful) {s : Store} (hs : s.Coherent sources)
    {id : Nat} {m : Module} (hm : s.modules[id]? = some m) {name : String}
    (hdefault : name ≠ "default")
    (hload : ∀ q, sources.StarReaches m.path q → ∃ n, sources.moduleOf q = .ok n) :
    ∃ found t, findStarExport sources id name s = .ok found t ∧ s.Later sources t ∧
      (found.isSome = true ↔
        ∃ q, sources.StarReaches m.path q ∧ sources.offers name q = true) ∧
      (∀ target, found = some target → ∃ n q, t.modules[target]? = some n ∧
        n.exports.contains name = true ∧ n.path.same q = true ∧ sources.StarReaches m.path q) ∧
      (∀ q, (sources.starSources m.path).find? (sources.offers name) = some q →
        ∃ target, found = some target ∧ t.Names target q) ∧
      ∃ path, (∀ other, (∃ searched, StarSearch sources name [] [m.path] searched other) ↔
        other = path) ∧ Option.Rel t.Names found path := by
  have hnames : s.Names id m.path := ⟨m, hm, Path.same_refl _⟩
  have hfetchable : sources.Fetchable m.path := by
    intro q hq
    rcases hq with rfl | hq
    · obtain ⟨-, n, -, -, hn, -⟩ := hnames.module laws hs
      exact ⟨n, hn⟩
    · exact hload q hq
  obtain ⟨found, t, searched, path, hx, ht, hsearch, hfound⟩ :=
    (searchStars_follows laws name hs .nil List.nodup_nil (Nat.zero_add _)
      (.cons hnames .nil) fun p hp => List.mem_singleton.1 hp ▸ hfetchable).ends
  refine ⟨found, t, ?_, ht, ?_, ?_, ?_, path, ?_, hfound⟩
  · rw [findStarExport_eq (laws.within hs), if_neg hdefault]
    exact hx
  · rw [← hsearch.isSome_iff laws]
    cases hfound <;> rfl
  · rintro target rfl
    cases hfound with
    | some htarget =>
      obtain ⟨n, k, hn, hsame, hk, ha⟩ := htarget.module laws ht.coherent
      obtain ⟨hoffers, p, hp, hreach⟩ := hsearch.reaches
      obtain rfl := List.mem_singleton.1 hp
      rw [Sources.offers_of_moduleOf hk, ← congrArg Bindings.exports ha.bindings] at hoffers
      exact ⟨n, _, hn, hoffers, hsame, hreach⟩
  · intro q hq
    obtain rfl := hsearch.eq_of_direct hq
    cases hfound with
    | some htarget => exact ⟨_, rfl, htarget⟩
  · intro other
    constructor
    · rintro ⟨searched', h⟩
      exact (h.unique hsearch).2
    · rintro rfl
      exact ⟨searched, hsearch⟩

/-- Files whose star exports lead back to where they started, and to one file on two
ways. -/
def starCycle : FileTable :=
  ⟨[(.ofText "a.js", .holds "export * from './b.js';\nexport * from './c.js';\n"),
    (.ofText "b.js", .holds "export * from './a.js';\nexport * from './c.js';\n"),
    (.ofText "c.js", .holds "export * from './d.js';\n"),
    (.ofText "d.js", .holds "export const x = 1;\n")]⟩

/-- The first of the modules. -/
def starCycleModule : Module :=
  (starCycle.sources.moduleOf (.ofText "a.js")).toOption.getD default

/-- The store where the first of the files is fetched. -/
def starCycleStore : Store := (Store.empty.logRead (.ofText "a.js")).add starCycleModule

/-- Paths are told by their texts. -/
theorem Path.eq_map_ofText {paths : List Path} {texts : List String}
    (h : paths.map Path.text = texts) : paths = texts.map .ofText := by
  subst h
  rw [List.map_map]
  exact (List.map_id'' Path.ofText_text paths).symm

theorem findStarExport_starCycle :
    starCycle.sources.Lawful ∧ starCycleStore.Coherent starCycle.sources ∧
      starCycleStore.modules[0]? = some starCycleModule ∧ "x" ≠ "default" ∧
      (∀ q, starCycle.sources.StarReaches starCycleModule.path q →
        ∃ n, starCycle.sources.moduleOf q = .ok n) ∧
      ∃ target t, findStarExport starCycle.sources 0 "x" starCycleStore = .ok (some target) t ∧
        t.Names target (.ofText "d.js") := by
  have hmodule : starCycle.sources.moduleOf (.ofText "a.js") = .ok starCycleModule :=
    eq_ok_of_isOk (by decide +kernel)
  have hpath : starCycleModule.path = .ofText "a.js" := by
    have htext : starCycleModule.path.text = "a.js" := by decide +kernel
    rw [← Path.ofText_text starCycleModule.path, htext]
  have hs : starCycleStore.Coherent starCycle.sources := by
    have hempty := Store.Coherent.empty starCycle.sources
    have hlog : (Store.empty.logRead (.ofText "a.js")).Coherent starCycle.sources :=
      ⟨hempty.loaded, hempty.distinct⟩
    refine hlog.add ?_ ?_
    · rw [hpath]
      exact hmodule
    · simp [Store.find?, Store.logRead, Store.empty]
  have hm : starCycleStore.modules[0]? = some starCycleModule := by
    simp [starCycleStore, Store.add, Store.logRead, Store.empty]
  have ha : starCycle.sources.starSources (.ofText "a.js") = ["b.js", "c.js"].map .ofText :=
    Path.eq_map_ofText (by decide +kernel)
  have hb : starCycle.sources.starSources (.ofText "b.js") = ["a.js", "c.js"].map .ofText :=
    Path.eq_map_ofText (by decide +kernel)
  have hc : starCycle.sources.starSources (.ofText "c.js") = ["d.js"].map .ofText :=
    Path.eq_map_ofText (by decide +kernel)
  have hd : starCycle.sources.starSources (.ofText "d.js") = [].map .ofText :=
    Path.eq_map_ofText (by decide +kernel)
  -- star exports lead to the four files only, and these can be read
  have hfiles : ∀ q, starCycle.sources.StarReaches (.ofText "a.js") q →
      ∃ text ∈ ["a.js", "b.js", "c.js", "d.js"], q = .ofText text := by
    intro q hq
    have hstep : ∀ text ∈ ["a.js", "b.js", "c.js", "d.js"],
        ∀ q ∈ starCycle.sources.starSources (.ofText text),
          ∃ text ∈ ["a.js", "b.js", "c.js", "d.js"], q = .ofText text := by
      simp [ha, hb, hc, hd]
    induction hq with
    | single hq => exact hstep "a.js" (by decide) _ hq
    | tail _ hq ih =>
      obtain ⟨text, htext, rfl⟩ := ih
      exact hstep text htext _ hq
  have hload : ∀ q, starCycle.sources.StarReaches starCycleModule.path q →
      ∃ n, starCycle.sources.moduleOf q = .ok n := by
    intro q hq
    have hreads : ∀ text ∈ ["a.js", "b.js", "c.js", "d.js"],
        (starCycle.sources.moduleOf (.ofText text)).isOk = true := by decide +kernel
    obtain ⟨text, htext, rfl⟩ := hfiles q (hpath ▸ hq)
    exact ⟨_, eq_ok_of_isOk (hreads text htext)⟩
  have hsearch : StarSearch starCycle.sources "x" [] [.ofText "a.js"]
      ([.ofText "c.js", .ofText "b.js", .ofText "a.js"]) (some (.ofText "d.js")) := by
    have hnone : ∀ text ∈ ["a.js", "b.js"],
        ((starCycle.sources.starSources (.ofText text)).find?
          (starCycle.sources.offers "x")).isNone = true := by decide +kernel
    have hfind : (starCycle.sources.starSources (.ofText "c.js")).find?
        (starCycle.sources.offers "x") = some (.ofText "d.js") := by
      rw [hc]
      exact List.find?_cons_of_pos (by decide +kernel)
    have hnotb : ¬ Listed [.ofText "a.js"] (.ofText "b.js") := by
      simp only [Listed, List.mem_singleton, exists_eq_left]
      decide
    have hnotc : ¬ Listed [.ofText "b.js", .ofText "a.js"] (.ofText "c.js") := by
      simp only [Listed, List.mem_cons, List.not_mem_nil, or_false, exists_eq_or_imp,
        exists_eq_left]
      decide
    refine .inside (by simp [Listed]) (Option.isNone_iff_eq_none.1 (hnone "a.js" (by decide))) ?_
    rw [ha]
    refine .inside hnotb (Option.isNone_iff_eq_none.1 (hnone "b.js" (by decide))) ?_
    rw [hb]
    exact .skip ⟨.ofText "a.js", by simp, Path.same_refl _⟩ (.found hnotc hfind)
  have hdefault : "x" ≠ "default" := by decide
  obtain ⟨found, t, hx, -, -, -, -, path, hpaths, hfound⟩ :=
    findStarExport_depthFirst starCycle.lawful_sources hs hm hdefault hload
  obtain rfl := (hpaths _).1 ⟨_, hpath ▸ hsearch⟩
  cases hfound with
  | @some target _ htarget =>
    exact ⟨starCycle.lawful_sources, hs, hm, hdefault, hload, target, t, hx, htarget⟩

end ModuleBundler

import ModuleBundler.Proofs.Coherence
import ModuleBundler.Proofs.Hops
import ModuleBundler.Proofs.Tables

/-!
# ModuleBundler — the same answer in every store

What a name stands for does not depend on what was fetched before: the search for
it takes the same turns in all coherent stores, although the stores may number
the modules differently. Only that one store may run out of room before the other
one does.

* `Store.Twin` — numbers of the same module in two stores.
* `Match` — two steps that both succeed, in values that correspond, or both fail, unless
  one of them finds no room for a module.
* `resolveName_match` — a name of the same module stands for the same statement in two
  coherent stores, unless there is no room.
* `Agree`, `resolveName_agree` — the same with room for all modules.
* `resolveName_stable` — an answer stays right when more modules are fetched.
-/

namespace ModuleBundler

variable {sources : Sources} {α β γ δ : Type}

-- ---------------------------------------------------------------------------
-- The same module in two stores
-- ---------------------------------------------------------------------------

namespace Store

variable {s t s' t' : Store} {i j i' j' : Nat}

/-- A later store of a bundler: it holds more modules, and is coherent. -/
structure Later (sources : Sources) (s s' : Store) : Prop where
  extends_ : s.Extends s'
  coherent : s'.Coherent sources

theorem Later.trans {u : Store} (h : s.Later sources s') (k : s'.Later sources u) :
    s.Later sources u :=
  ⟨h.extends_.trans k.extends_, k.coherent⟩

theorem Coherent.later (h : s.Coherent sources) : s.Later sources s := ⟨.refl s, h⟩

theorem Onward.later (h : s.Onward sources s') : s.Later sources s' :=
  ⟨h.extends_, h.within.toCoherent⟩

/-- A path that has a module is fetched. -/
theorem Coherent.fetch_ok (hs : s.Coherent sources) (laws : sources.Lawful) {path : Path}
    {m : Module} (hm : sources.moduleOf path = .ok m) :
    ∃ i s' n, ModuleBundler.fetch sources path s = .ok i s' ∧ s.Later sources s' ∧
      s'.visits = s.visits ∧ s'.modules[i]? = some n ∧ n.path.same path = true ∧ n.Alike m := by
  have hf := hs.fetch laws path
  rw [hm] at hf
  obtain ⟨i, s', n, hf, hext, hs', hn, hp⟩ := hf
  have hv := ((Bundling.OnlyFetches.fetch sources path).grows_of_ok hf).visits_eq
  have ho := laws.sameOutcome_moduleOf hp i 0
  rw [hs'.loaded hn, hm] at ho
  exact ⟨i, s', n, hf, ⟨hext, hs'⟩, hv, hn, hp, ho.2.2⟩

/-- The module of one number in one store is that of another number in another
store. -/
def Twin (s t : Store) (i j : Nat) : Prop :=
  ∃ m n : Module, s.modules[i]? = some m ∧ t.modules[j]? = some n ∧ m.path.same n.path = true

theorem Twin.mono (h : s.Twin t i j) (hs : s.Extends s') (ht : t.Extends t') :
    s'.Twin t' i j := by
  obtain ⟨m, n, hm, hn, hp⟩ := h
  exact ⟨m, n, hs hm, ht hn, hp⟩

/-- In coherent stores the modules of twins are equal up to spelling. -/
theorem Twin.alike (laws : sources.Uniform) (hs : s.Coherent sources) (ht : t.Coherent sources)
    (h : s.Twin t i j) :
    ∃ m n : Module, s.modules[i]? = some m ∧ t.modules[j]? = some n ∧ m.Alike n := by
  obtain ⟨m, n, hm, hn, hp⟩ := h
  have ho := laws.sameOutcome_moduleOf hp i j
  rw [hs.loaded hm, ht.loaded hn] at ho
  exact ⟨m, n, hm, hn, ho.2.2⟩

theorem Twin.eq_iff (hs : s.Coherent sources) (ht : t.Coherent sources) (h : s.Twin t i j)
    (h' : s.Twin t i' j') : i = i' ↔ j = j' := by
  obtain ⟨m, n, hm, hn, hp⟩ := h
  obtain ⟨m', n', hm', hn', hp'⟩ := h'
  constructor
  · rintro rfl
    have : m = m' := Option.some.inj (hm.symm.trans hm')
    subst this
    exact ht.distinct hn hn' (Path.same_trans (Path.same_symm hp) hp')
  · rintro rfl
    have : n = n' := Option.some.inj (hn.symm.trans hn')
    subst this
    exact hs.distinct hm hm' (Path.same_trans hp (Path.same_symm hp'))

/-- The store holds the statement. -/
def Holds (s : Store) (ref : StatementRef) (st : Statement) : Prop :=
  ∃ m : Module, s.modules[ref.moduleId]? = some m ∧ m.statement? ref.index = some st

theorem Holds.mono {ref : StatementRef} {st : Statement} (h : s.Holds ref st)
    (hs : s.Extends s') : s'.Holds ref st := by
  obtain ⟨m, hm, hi⟩ := h
  exact ⟨m, hs hm, hi⟩

theorem Holds.unique {ref : StatementRef} {st st' : Statement} (h : s.Holds ref st)
    (h' : s.Holds ref st') : st = st' := by
  obtain ⟨m, hm, hi⟩ := h
  obtain ⟨m', hm', hi'⟩ := h'
  rw [hm, Option.some.injEq] at hm'
  rw [← hm', hi, Option.some.injEq] at hi'
  exact hi'

/-- The definitions of a kept module are statements that the store holds. -/
theorem Coherent.holds_definition (hs : s.Coherent sources) {m : Module}
    (hm : s.modules[i]? = some m) {name : String} {index : Nat}
    (hd : m.definitions.find? name = some index) : ∃ st, s.Holds ⟨i, index⟩ st := by
  have hl := hs.loaded hm
  rw [Sources.moduleOf] at hl
  cases hr : sources.read m.path with
  | error e => rw [hr] at hl; cases hl
  | ok text =>
    rw [hr] at hl
    exact ⟨_, m, hm, Array.getElem?_eq_getElem (Module.definition_lt hl hd)⟩

end Store

-- ---------------------------------------------------------------------------
-- Steps that match
-- ---------------------------------------------------------------------------

/-- Two steps, each on a store, that both succeed in values that correspond, or both
fail in errors that are alike. If there are more modules than there is room for, one
of them may instead find no room. Both stores stay coherent and within the capacity. -/
inductive Match (sources : Sources) (r : Store → Store → α → β → Prop) (s t : Store) :
    EStateM.Result BuildError Store α → EStateM.Result BuildError Store β → Prop
  | ok {s' t' : Store} {a : α} {b : β} (hs : s.Onward sources s') (ht : t.Onward sources t')
    (h : r s' t' a b) : Match sources r s t (.ok a s') (.ok b t')
  | error {s' t' : Store} {e e' : BuildError} (hs : s.Onward sources s')
    (ht : t.Onward sources t') (h : e.Alike e') : Match sources r s t (.error e s') (.error e' t')
  | crowdedLeft {path : Path} {s' : Store} {y : EStateM.Result BuildError Store β}
    (h : sources.Crowded) : Match sources r s t (.error (.tooManyModules path) s') y
  | crowdedRight {path : Path} {t' : Store} {x : EStateM.Result BuildError Store α}
    (h : sources.Crowded) : Match sources r s t x (.error (.tooManyModules path) t')

namespace Match

variable {s t : Store} {r : Store → Store → α → β → Prop} {r' : Store → Store → γ → δ → Prop}

theorem onward {s' t' : Store} (hs : s.Onward sources s') (ht : t.Onward sources t')
    {x : EStateM.Result BuildError Store α} {y : EStateM.Result BuildError Store β}
    (h : Match sources r s' t' x y) : Match sources r s t x y := by
  cases h with
  | ok hs' ht' hr => exact .ok (hs.trans hs') (ht.trans ht') hr
  | error hs' ht' he => exact .error (hs.trans hs') (ht.trans ht') he
  | crowdedLeft h => exact .crowdedLeft h
  | crowdedRight h => exact .crowdedRight h

theorem bind {x : Bundling α} {y : Bundling β} {f : α → Bundling γ} {g : β → Bundling δ}
    (h : Match sources r s t (x s) (y t))
    (hf : ∀ {s' t' a b}, s.Onward sources s' → t.Onward sources t' → r s' t' a b →
      Match sources r' s' t' (f a s') (g b t')) :
    Match sources r' s t ((x >>= f) s) ((y >>= g) t) := by
  simp only [Bind.bind, EStateM.bind]
  generalize x s = v at h
  generalize y t = w at h
  cases h with
  | ok hs ht hr => exact (hf hs ht hr).onward hs ht
  | error hs ht he => exact .error hs ht he
  | crowdedLeft h => exact .crowdedLeft h
  | crowdedRight h => exact .crowdedRight h

theorem pure (hs : s.Within sources) (ht : t.Within sources) {a : α} {b : β}
    (h : r s t a b) : Match sources r s t ((pure a : Bundling α) s) ((pure b : Bundling β) t) :=
  .ok hs.onward ht.onward h

theorem throw (hs : s.Within sources) (ht : t.Within sources) {e e' : BuildError}
    (h : e.Alike e') :
    Match sources r s t ((throw e : Bundling α) s) ((throw e' : Bundling β) t) :=
  .error hs.onward ht.onward h

end Match

-- ---------------------------------------------------------------------------
-- Fetching
-- ---------------------------------------------------------------------------

variable {s t : Store} {i j : Nat}

theorem moduleAt_match (laws : sources.Uniform) (hs : s.Within sources) (ht : t.Within sources)
    (h : s.Twin t i j) :
    Match sources (fun s' t' (m n : Module) =>
        s'.modules[i]? = some m ∧ t'.modules[j]? = some n ∧ m.Alike n)
      s t (moduleAt i s) (moduleAt j t) := by
  obtain ⟨m, n, hm, hn, ha⟩ := h.alike laws hs.toCoherent ht.toCoherent
  rw [moduleAt_eq_ok.2 ⟨hm, rfl⟩, moduleAt_eq_ok.2 ⟨hn, rfl⟩]
  exact .ok hs.onward ht.onward ⟨hm, hn, ha⟩

theorem fetch_match (laws : sources.Uniform) (hs : s.Within sources) (ht : t.Within sources)
    {p q : Path} (h : p.same q = true) :
    Match sources Store.Twin s t (fetch sources p s) (fetch sources q t) := by
  have hp := hs.fetch laws p
  have hq := ht.fetch laws q
  have ho := laws.sameOutcome_moduleOf h 0 0
  cases hmp : sources.moduleOf p with
  | error e =>
    cases hmq : sources.moduleOf q with
    | error e' =>
      rw [hmp] at hp ho
      rw [hmq] at hq ho
      obtain ⟨s', hp, hs'⟩ := hp
      obtain ⟨t', hq, ht'⟩ := hq
      rw [hp, hq]
      exact .error hs' ht' ho
    | ok n =>
      rw [hmp, hmq] at ho
      exact ho.elim
  | ok m =>
    cases hmq : sources.moduleOf q with
    | error e =>
      rw [hmp, hmq] at ho
      exact ho.elim
    | ok n =>
      rw [hmp] at hp
      rw [hmq] at hq
      obtain ⟨i, s', m', hp, hs', hm, hmp⟩ | ⟨s', hp, hcrowded⟩ := hp
      · obtain ⟨j, t', n', hq, ht', hn, hnq⟩ | ⟨t', hq, hcrowded⟩ := hq
        · rw [hp, hq]
          exact .ok hs' ht'
            ⟨m', n', hm, hn, Path.same_trans hmp (Path.same_trans h (Path.same_symm hnq))⟩
        · rw [hq]
          exact .crowdedRight hcrowded
      · rw [hp]
        exact .crowdedLeft hcrowded

theorem fetchFrom_match (laws : sources.Uniform) (hs : s.Within sources)
    (ht : t.Within sources) {p q : Path} (h : p.same q = true) (importee : String) :
    Match sources Store.Twin s t (fetchFrom sources p importee s)
      (fetchFrom sources q importee t) :=
  fetch_match laws hs ht (laws.resolve_same h importee)

-- ---------------------------------------------------------------------------
-- Star exports
-- ---------------------------------------------------------------------------

/-- Lists of numbers of the same modules. -/
abbrev Store.Twins (s t : Store) : List Nat → List Nat → Prop := List.Forall₂ (s.Twin t)

theorem Store.Twins.mono {s' t' : Store} {is js : List Nat} (h : s.Twins t is js)
    (hs : s.Extends s') (ht : t.Extends t') : s'.Twins t' is js :=
  List.Forall₂.imp (fun _ _ hij => hij.mono hs ht) h

theorem Store.Twins.mem_iff {is js : List Nat} (hs : s.Coherent sources)
    (ht : t.Coherent sources) (h : s.Twins t is js) (hij : s.Twin t i j) : i ∈ is ↔ j ∈ js := by
  induction h with
  | nil => simp
  | cons hab _ ih => rw [List.mem_cons, List.mem_cons, ih, hij.eq_iff hs ht hab]

/-- What the sources of the same module yield in two stores. -/
inductive StarSources.Twin (s t : Store) : StarSources → StarSources → Prop
  | found {i j : Nat} (h : s.Twin t i j) : StarSources.Twin s t (.found i) (.found j)
  | next {is js : List Nat} (h : s.Twins t is js) : StarSources.Twin s t (.next is) (.next js)

theorem searchSources_match (laws : sources.Uniform) (hs : s.Within sources)
    (ht : t.Within sources) {p q : Path} (h : p.same q = true) (name : String)
    (list : List String) :
    Match sources StarSources.Twin s t (searchSources sources p name list s)
      (searchSources sources q name list t) := by
  induction list generalizing s t with
  | nil => exact .pure hs ht (.next .nil)
  | cons source rest ih =>
    refine (fetchFrom_match laws hs ht h source).bind fun {s₁ t₁ i j} hs₁ ht₁ hij => ?_
    refine (moduleAt_match laws hs₁.within ht₁.within hij).bind
      fun {s₂ t₂ m n} hs₂ ht₂ ⟨_, _, ha⟩ => ?_
    have hij₂ := hij.mono hs₂.extends_ ht₂.extends_
    rw [show m.exports = n.exports from congrArg Bindings.exports ha.bindings]
    split
    · exact .pure hs₂.within ht₂.within (.found hij₂)
    · refine (ih hs₂.within ht₂.within).bind fun {s₃ t₃ a b} hs₃ ht₃ hab => ?_
      cases hab with
      | found hk => exact .pure hs₃.within ht₃.within (.found hk)
      | next hk =>
        exact .pure hs₃.within ht₃.within (.next (.cons (hij₂.mono hs₃.extends_ ht₃.extends_) hk))

/-- Modules of the same path or none in both stores. -/
inductive Store.TwinOption (s t : Store) : Option Nat → Option Nat → Prop
  | none : Store.TwinOption s t none none
  | some {i j : Nat} (h : s.Twin t i j) : Store.TwinOption s t (some i) (some j)

theorem searchStars_match (laws : sources.Uniform) (hs : s.Within sources)
    (ht : t.Within sources) (name : String) (rounds : Nat) {visited visited' : List Nat}
    (hv : s.Twins t visited visited') {stack stack' : List Nat} (hst : s.Twins t stack stack') :
    Match sources Store.TwinOption s t (searchStars sources name rounds visited stack s)
      (searchStars sources name rounds visited' stack' t) := by
  induction rounds generalizing s t visited visited' stack stack' with
  | zero =>
    rw [searchStars, searchStars]
    exact .pure hs ht .none
  | succ n ih =>
    induction hst with
    | nil =>
      rw [searchStars, searchStars]
      exact .pure hs ht .none
      all_goals exact Nat.succ_ne_zero n
    | @cons i j rest rest' hij hrest ihrest =>
      rw [searchStars, searchStars]
      by_cases hmem : i ∈ visited
      · rw [if_pos hmem, if_pos ((hv.mem_iff hs.toCoherent ht.toCoherent hij).1 hmem)]
        exact ihrest
      · rw [if_neg hmem, if_neg (mt (hv.mem_iff hs.toCoherent ht.toCoherent hij).2 hmem)]
        refine (moduleAt_match laws hs ht hij).bind fun {s₁ t₁ m m'} hs₁ ht₁ hm => ?_
        obtain ⟨-, -, ha⟩ := hm
        rw [show m.starExports = m'.starExports from congrArg Bindings.starExports ha.bindings]
        refine (searchSources_match laws hs₁.within ht₁.within ha.path name _).bind
          fun {s₂ t₂ a b} hs₂ ht₂ hab => ?_
        have hse := hs₁.extends_.trans hs₂.extends_
        have hte := ht₁.extends_.trans ht₂.extends_
        cases hab with
        | found hk => exact .pure hs₂.within ht₂.within (.some hk)
        | next hk =>
          exact ih hs₂.within ht₂.within (.cons (hij.mono hse hte) (hv.mono hse hte))
            (List.rel_append hk (Store.Twins.mono hrest hse hte))

/-- In a store within the capacity a search through star exports has as many rounds as
there is room for modules. -/
theorem findStarExport_eq (hs : s.Within sources) (id : Nat) (name : String) :
    findStarExport sources id name s =
      if name = "default" then .ok none s
      else searchStars sources name sources.capacity [] [id] s := by
  rw [findStarExport, Nat.max_eq_right hs.size_le]

theorem findStarExport_match (laws : sources.Uniform) (hs : s.Within sources)
    (ht : t.Within sources) (h : s.Twin t i j) (name : String) :
    Match sources Store.TwinOption s t (findStarExport sources i name s)
      (findStarExport sources j name t) := by
  rw [findStarExport_eq hs, findStarExport_eq ht]
  split
  · exact .ok hs.onward ht.onward .none
  · exact searchStars_match laws hs ht name _ .nil (.cons h .nil)

-- ---------------------------------------------------------------------------
-- Hops
-- ---------------------------------------------------------------------------

/-- The same statement in two stores. -/
structure Store.TwinRef (s t : Store) (ref ref' : StatementRef) : Prop where
  moduleId : s.Twin t ref.moduleId ref'.moduleId
  index : ref.index = ref'.index
  holds : ∃ st, s.Holds ref st

/-- The same lookup in two stores. -/
inductive Lookup.Twin (s t : Store) : Lookup → Lookup → Prop
  | inScope {i j : Nat} (h : s.Twin t i j) (name : String) :
    Lookup.Twin s t (.inScope i name) (.inScope j name)
  | exported {i j : Nat} (h : s.Twin t i j) (name : String) :
    Lookup.Twin s t (.exported i name) (.exported j name)

/-- The same answer in two stores. -/
inductive Hop.Twin (s t : Store) : Hop → Hop → Prop
  | defined {ref ref' : StatementRef} (h : s.TwinRef t ref ref') :
    Hop.Twin s t (.defined ref) (.defined ref')
  | external : Hop.Twin s t .external .external
  | onward {l l' : Lookup} (h : Lookup.Twin s t l l') : Hop.Twin s t (.onward l) (.onward l')

namespace Lookup.Twin

variable {l l' k k' : Lookup}

theorem mono {s' t' : Store} (h : Lookup.Twin s t l l') (hs : s.Extends s') (ht : t.Extends t') :
    Lookup.Twin s' t' l l' := by
  cases h with
  | inScope h name => exact .inScope (h.mono hs ht) name
  | exported h name => exact .exported (h.mono hs ht) name

theorem moduleId (h : Lookup.Twin s t l l') : s.Twin t l.moduleId l'.moduleId := by
  cases h <;> assumption

theorem name (h : Lookup.Twin s t l l') : l.name = l'.name := by
  cases h <;> rfl

theorem eq_iff (hs : s.Coherent sources) (ht : t.Coherent sources) (h : Lookup.Twin s t l l')
    (h' : Lookup.Twin s t k k') : l = k ↔ l' = k' := by
  cases h <;> cases h' <;>
    simp only [Lookup.inScope.injEq, Lookup.exported.injEq, reduceCtorEq]
  all_goals rename_i hij _ _ _ hij' _
  all_goals rw [hij.eq_iff hs ht hij']

theorem mem_iff {seen seen' : List Lookup} (hs : s.Coherent sources) (ht : t.Coherent sources)
    (h : List.Forall₂ (Lookup.Twin s t) seen seen') (hl : Lookup.Twin s t l l') :
    l ∈ seen ↔ l' ∈ seen' := by
  induction h with
  | nil => simp
  | cons hab _ ih => rw [List.mem_cons, List.mem_cons, ih, hl.eq_iff hs ht hab]

end Lookup.Twin

theorem hopInScope_match (laws : sources.Uniform) (hs : s.Within sources)
    (ht : t.Within sources) (h : s.Twin t i j) (name : String) :
    Match sources Hop.Twin s t (hopInScope sources i name s) (hopInScope sources j name t) := by
  refine (moduleAt_match laws hs ht h).bind fun {s₁ t₁ m n} hs₁ ht₁ ⟨hm, hn, ha⟩ => ?_
  have hs := hs₁.within
  have ht := ht₁.within
  rw [show n.definitions = m.definitions from congrArg Bindings.definitions ha.bindings.symm,
    show n.imports = m.imports from congrArg Bindings.imports ha.bindings.symm]
  cases hd : m.definitions.find? name with
  | some index =>
    have htwin := h.mono hs₁.extends_ ht₁.extends_
    exact .pure hs ht (.defined ⟨htwin, rfl, hs.toCoherent.holds_definition hm hd⟩)
  | none =>
    cases m.imports.find? name with
    | none => exact .pure hs ht .external
    | some binding =>
      by_cases hstar : binding.name = "*"
      · simp only [hstar, ↓reduceIte]
        exact .throw hs ht (.unsupportedNamespace ha.path name)
      · simp only [hstar, ↓reduceIte]
        exact (fetchFrom_match laws hs ht ha.path binding.source).bind
          fun hs₂ ht₂ hij => .pure hs₂.within ht₂.within (.onward (.exported hij _))

theorem hopExported_match (laws : sources.Uniform) (hs : s.Within sources)
    (ht : t.Within sources) (h : s.Twin t i j) (name : String) :
    Match sources Hop.Twin s t (hopExported sources i name s) (hopExported sources j name t) := by
  refine (moduleAt_match laws hs ht h).bind fun {s₁ t₁ m n} hs₁ ht₁ ⟨hm, hn, ha⟩ => ?_
  have hs := hs₁.within
  have ht := ht₁.within
  have htwin := h.mono hs₁.extends_ ht₁.extends_
  rw [show n.exports = m.exports from congrArg Bindings.exports ha.bindings.symm]
  rcases m.exports.find? name with _ | ⟨localName, target⟩
  · refine (findStarExport_match laws hs ht htwin name).bind fun {s₂ t₂ a b} hs₂ ht₂ hab => ?_
    cases hab with
    | none => exact .throw hs₂.within ht₂.within (.exportNotFound ha.path name)
    | some hk => exact .pure hs₂.within ht₂.within (.onward (.exported hk name))
  · cases target with
    | here statement => exact .pure hs ht (.onward (.inScope htwin _))
    | reexport source exported =>
      exact (fetchFrom_match laws hs ht ha.path _).bind
        fun hs₂ ht₂ hij => .pure hs₂.within ht₂.within (.onward (.exported hij _))
    | wholeModule source => exact .throw hs ht (.unsupportedNamespace ha.path name)

theorem hop_match (laws : sources.Uniform) (hs : s.Within sources) (ht : t.Within sources)
    {l l' : Lookup} (h : Lookup.Twin s t l l') :
    Match sources Hop.Twin s t (hop sources l s) (hop sources l' t) := by
  cases h with
  | inScope h name => exact hopInScope_match laws hs ht h name
  | exported h name => exact hopExported_match laws hs ht h name

-- ---------------------------------------------------------------------------
-- Resolution
-- ---------------------------------------------------------------------------

theorem circular_match (laws : sources.Uniform) (hs : s.Within sources)
    (ht : t.Within sources) {r : Store → Store → α → β → Prop} {l l' : Lookup}
    (h : Lookup.Twin s t l l') :
    Match sources r s t ((circular l : Bundling α) s) ((circular l' : Bundling β) t) :=
  (moduleAt_match laws hs ht h.moduleId).bind fun hs₁ ht₁ ⟨_, _, ha⟩ =>
    h.name ▸ .throw hs₁.within ht₁.within (.circularReexport ha.path l.name)

/-- The same statement or none in two stores. -/
inductive Store.TwinAnswer (s t : Store) : Option StatementRef → Option StatementRef → Prop
  | none : Store.TwinAnswer s t none none
  | some {ref ref' : StatementRef} (h : s.TwinRef t ref ref') :
    Store.TwinAnswer s t (some ref) (some ref')

theorem follow_match (laws : sources.Uniform) (hs : s.Within sources) (ht : t.Within sources)
    (n : Nat) {seen seen' : List Lookup} (hseen : List.Forall₂ (Lookup.Twin s t) seen seen')
    {l l' : Lookup} (h : Lookup.Twin s t l l') :
    Match sources Store.TwinAnswer s t (follow sources n seen l s)
      (follow sources n seen' l' t) := by
  induction n generalizing s t seen seen' l l' with
  | zero => exact circular_match laws hs ht h
  | succ n ih =>
    unfold follow
    by_cases hmem : l ∈ seen
    · rw [if_pos hmem, if_pos ((Lookup.Twin.mem_iff hs.toCoherent ht.toCoherent hseen h).1 hmem)]
      exact circular_match laws hs ht h
    · rw [if_neg hmem, if_neg (mt (Lookup.Twin.mem_iff hs.toCoherent ht.toCoherent hseen h).2 hmem)]
      refine (hop_match laws hs ht h).bind fun {s₁ t₁ a b} hs₁ ht₁ hab => ?_
      cases hab with
      | defined hr => exact .pure hs₁.within ht₁.within (.some hr)
      | external => exact .pure hs₁.within ht₁.within .none
      | onward hk =>
        have hseen' : List.Forall₂ (Lookup.Twin s₁ t₁) (l :: seen) (l' :: seen') :=
          .imp (fun _ _ hx => hx.mono hs₁.extends_ ht₁.extends_) (.cons h hseen)
        exact ih hs₁.within ht₁.within hseen' hk

/-- A name in the scope of the same module stands for the same statement in two
coherent stores, unless there is no room for a module. -/
theorem resolveName_match (laws : sources.Uniform) (hs : s.Within sources)
    (ht : t.Within sources) (h : s.Twin t i j) (name : String) :
    Match sources Store.TwinAnswer s t (resolveName sources i name s)
      (resolveName sources j name t) :=
  follow_match laws hs ht maxHops .nil (.inScope h name)

-- ---------------------------------------------------------------------------
-- Room for all modules
-- ---------------------------------------------------------------------------

/-- Two steps, each on a store, that both succeed in values that correspond, or
both fail in errors that are alike. Both stores stay coherent. -/
inductive Agree (sources : Sources) (r : Store → Store → α → β → Prop) (s t : Store) :
    EStateM.Result BuildError Store α → EStateM.Result BuildError Store β → Prop
  | ok {s' t' : Store} {a : α} {b : β} (hs : s.Later sources s') (ht : t.Later sources t')
    (h : r s' t' a b) : Agree sources r s t (.ok a s') (.ok b t')
  | error {s' t' : Store} {e e' : BuildError} (hs : s.Later sources s')
    (ht : t.Later sources t') (h : e.Alike e') : Agree sources r s t (.error e s') (.error e' t')

/-- Steps that match agree, or one of them finds no room for a module, of which there
are too many. -/
theorem Match.agree_or_crowded {r : Store → Store → α → β → Prop}
    {x : EStateM.Result BuildError Store α} {y : EStateM.Result BuildError Store β}
    (h : Match sources r s t x y) :
    Agree sources r s t x y ∨ sources.Crowded ∧
      ∃ path u, x = .error (.tooManyModules path) u ∨ y = .error (.tooManyModules path) u := by
  cases h with
  | ok hs ht hr => exact .inl (.ok hs.later ht.later hr)
  | error hs ht he => exact .inl (.error hs.later ht.later he)
  | crowdedLeft h => exact .inr ⟨h, _, _, .inl rfl⟩
  | crowdedRight h => exact .inr ⟨h, _, _, .inr rfl⟩

/-- A name in the scope of the same module stands for the same statement in two
coherent stores. -/
theorem resolveName_agree (laws : sources.Lawful) (hs : s.Coherent sources)
    (ht : t.Coherent sources) (h : s.Twin t i j) (name : String) :
    Agree sources Store.TwinAnswer s t (resolveName sources i name s)
      (resolveName sources j name t) :=
  (resolveName_match laws.uniform (laws.within hs) (laws.within ht) h name).agree_or_crowded
    |>.resolve_right fun hcrowded => laws.not_crowded hcrowded.1

/-- A name is looked up in a module that the store has. -/
theorem exists_module_of_resolveName {name : String} {o : Option StatementRef}
    (h : resolveName sources i name s = .ok o t) : ∃ m : Module, s.modules[i]? = some m := by
  cases hm : s.modules[i]? with
  | some m => exact ⟨m, rfl⟩
  | none =>
    have hr : resolveName sources i name s = .error (.noSuchModule i) s := by
      rw [resolveName, maxHops, follow, if_neg List.not_mem_nil]
      exact Bundling.bind_eq_error.2 (.inl (HopFails.unknown hm).hop_eq)
    rw [hr] at h
    cases h

/-- A name that a module defines stands for its definition. -/
theorem resolveName_of_definition {m : Module} (hm : s.modules[i]? = some m) {name : String}
    {index : Nat} (hd : m.definitions.find? name = some index) :
    resolveName sources i name s = .ok (some ⟨i, index⟩) s := by
  rw [resolveName, maxHops, follow, if_neg List.not_mem_nil]
  exact Bundling.bind_eq_ok.2 ⟨_, s, (Hops.defined hm hd).hop_eq, rfl⟩

/-- A name that a module neither defines nor imports comes from outside. -/
theorem resolveName_external {m : Module} (hm : s.modules[i]? = some m) {name : String}
    (hd : m.definitions.find? name = none) (himport : m.imports.find? name = none) :
    resolveName sources i name s = .ok none s := by
  rw [resolveName, maxHops, follow, if_neg List.not_mem_nil]
  exact Bundling.bind_eq_ok.2 ⟨_, s, (Hops.external hm hd himport).hop_eq, rfl⟩

theorem Store.twin_self {m : Module} (hm : s.modules[i]? = some m) : s.Twin s i i :=
  ⟨m, m, hm, hm, Path.same_refl _⟩

theorem Store.TwinAnswer.eq (hs : s.Coherent sources) {o o' : Option StatementRef}
    (h : s.TwinAnswer s o o') : o = o' := by
  cases h with
  | none => rfl
  | @some ref ref' h =>
    obtain ⟨m, n, hm, hn, hp⟩ := h.moduleId
    obtain ⟨id, index⟩ := ref
    obtain ⟨id', index'⟩ := ref'
    obtain rfl : id = id' := hs.distinct hm hn hp
    obtain rfl : index = index' := h.index
    rfl

/-- What the search for a name leaves behind. -/
theorem resolveName_later (laws : sources.Lawful) (hs : s.Coherent sources) {name : String}
    {o : Option StatementRef} (h : resolveName sources i name s = .ok o t) :
    s.Later sources t ∧ ∀ ref, o = some ref → ∃ st, t.Holds ref st := by
  obtain ⟨m, hm⟩ := exists_module_of_resolveName h
  have ha := resolveName_agree laws hs hs (Store.twin_self hm) name
  rw [h] at ha
  cases ha with
  | ok hs' _ hr =>
    refine ⟨hs', fun ref ho => ?_⟩
    subst ho
    cases hr with
    | some hr => exact hr.holds

/-- What a name was found to stand for it stands for in every later store. -/
theorem resolveName_stable (laws : sources.Lawful) (hs : s.Coherent sources) {u : Store}
    (hu : u.Coherent sources) {name : String} {o : Option StatementRef}
    (h : resolveName sources i name s = .ok o t) (htu : t.Extends u) :
    ∃ v, resolveName sources i name u = .ok o v ∧ u.Later sources v := by
  obtain ⟨m, hm⟩ := exists_module_of_resolveName h
  have hsu := (resolveName_later laws hs h).1.extends_.trans htu
  have ha := resolveName_agree laws hs hu ⟨m, m, hm, hsu hm, Path.same_refl _⟩ name
  rw [h] at ha
  generalize hv : resolveName sources i name u = x at ha
  cases ha with
  | @ok _ v _ o' hst huv hr =>
    -- both answers are statements of the last store
    have hr' : v.TwinAnswer v o o' := by
      cases hr with
      | none => exact .none
      | some hr =>
        obtain ⟨st, hst⟩ := hr.holds
        have htv := htu.trans huv.extends_
        exact .some ⟨hr.moduleId.mono htv (.refl v), hr.index, st, hst.mono htv⟩
    rw [hr'.eq huv.coherent]
    exact ⟨v, rfl, huv⟩

end ModuleBundler

import ModuleBundler.Bundle.Resolution

/-!
# ModuleBundler — what a hop does

A hop has a few ways to answer a lookup, and a few ways to fail. They are listed once here, with
all that the store and the modules have to say for each; what is proved of hops goes through
these cases.

* `Hops`, `hop_eq_ok` — the answers of a hop.
* `HopFails`, `hop_eq_error` — the failures of a hop.
* `Hops.exists_export` — where the scope of a module is entered from.
-/

namespace ModuleBundler

variable {sources : Sources} {lookup : Lookup} {answer : Hop} {e : BuildError} {s t : Store}

/-- What a hop that does not fail may do. -/
inductive Hops (sources : Sources) (s : Store) : Lookup → Hop → Store → Prop
  | defined {id : Nat} {name : String} {m : Module} {index : Nat} (hm : s.modules[id]? = some m)
    (hd : m.definitions.find? name = some index) :
    Hops sources s (.inScope id name) (.defined ⟨id, index⟩) s
  | external {id : Nat} {name : String} {m : Module} (hm : s.modules[id]? = some m)
    (hd : m.definitions.find? name = none) (hi : m.imports.find? name = none) :
    Hops sources s (.inScope id name) .external s
  | imported {id target : Nat} {name : String} {m : Module} {binding : ImportBinding} {t : Store}
    (hm : s.modules[id]? = some m) (hd : m.definitions.find? name = none)
    (hi : m.imports.find? name = some binding) (hne : binding.name ≠ "*")
    (hf : fetchFrom sources m.path binding.source s = .ok target t) :
    Hops sources s (.inScope id name) (.onward (.exported target binding.name)) t
  | here {id : Nat} {name localName : String} {m : Module} {statement : Option Nat}
    (hm : s.modules[id]? = some m)
    (he : m.exports.find? name = some ⟨localName, .here statement⟩) :
    Hops sources s (.exported id name) (.onward (.inScope id localName)) s
  | reexported {id target : Nat} {name localName source exported : String} {m : Module} {t : Store}
    (hm : s.modules[id]? = some m)
    (he : m.exports.find? name = some ⟨localName, .reexport source exported⟩)
    (hf : fetchFrom sources m.path source s = .ok target t) :
    Hops sources s (.exported id name) (.onward (.exported target exported)) t
  | starred {id target : Nat} {name : String} {m : Module} {t : Store}
    (hm : s.modules[id]? = some m) (he : m.exports.find? name = none)
    (hf : findStarExport sources id name s = .ok (some target) t) :
    Hops sources s (.exported id name) (.onward (.exported target name)) t

/-- How a hop may fail. -/
inductive HopFails (sources : Sources) (s : Store) : Lookup → BuildError → Store → Prop
  | unknown {lookup : Lookup} (hm : s.modules[lookup.moduleId]? = none) :
    HopFails sources s lookup (.noSuchModule lookup.moduleId) s
  /-- The name of an import is a star. -/
  | starImport {id : Nat} {name source : String} {m : Module} (hm : s.modules[id]? = some m)
    (hd : m.definitions.find? name = none) (hi : m.imports.find? name = some ⟨source, "*"⟩) :
    HopFails sources s (.inScope id name) (.unsupportedNamespace m.path name) s
  | imported {id : Nat} {name : String} {m : Module} {binding : ImportBinding} {e : BuildError}
    {t : Store} (hm : s.modules[id]? = some m) (hd : m.definitions.find? name = none)
    (hi : m.imports.find? name = some binding) (hne : binding.name ≠ "*")
    (hf : fetchFrom sources m.path binding.source s = .error e t) :
    HopFails sources s (.inScope id name) e t
  | wholeModule {id : Nat} {name localName source : String} {m : Module}
    (hm : s.modules[id]? = some m)
    (he : m.exports.find? name = some ⟨localName, .wholeModule source⟩) :
    HopFails sources s (.exported id name) (.unsupportedNamespace m.path name) s
  | reexported {id : Nat} {name localName source exported : String} {m : Module} {e : BuildError}
    {t : Store} (hm : s.modules[id]? = some m)
    (he : m.exports.find? name = some ⟨localName, .reexport source exported⟩)
    (hf : fetchFrom sources m.path source s = .error e t) :
    HopFails sources s (.exported id name) e t
  | starred {id : Nat} {name : String} {m : Module} {e : BuildError} {t : Store}
    (hm : s.modules[id]? = some m) (he : m.exports.find? name = none)
    (hf : findStarExport sources id name s = .error e t) :
    HopFails sources s (.exported id name) e t
  | notExported {id : Nat} {name : String} {m : Module} {t : Store} (hm : s.modules[id]? = some m)
    (he : m.exports.find? name = none) (hf : findStarExport sources id name s = .ok none t) :
    HopFails sources s (.exported id name) (.exportNotFound m.path name) t

theorem Hops.hop_eq (h : Hops sources s lookup answer t) : hop sources lookup s = .ok answer t := by
  cases h <;> refine Bundling.bind_eq_ok.2 ⟨_, s, moduleAt_eq_ok.2 ⟨‹_›, rfl⟩, ?_⟩
  case defined hm hd =>
    simp only [hd]
    rfl
  case external hm hd hi =>
    simp only [hd, hi]
    rfl
  case imported hm hd hi hne hf =>
    simp only [hd, hi, if_neg hne]
    exact Bundling.bind_eq_ok.2 ⟨_, t, hf, rfl⟩
  case here hm he =>
    simp only [he]
    rfl
  case reexported hm he hf =>
    simp only [he]
    exact Bundling.bind_eq_ok.2 ⟨_, t, hf, rfl⟩
  case starred hm he hf =>
    simp only [he]
    exact Bundling.bind_eq_ok.2 ⟨_, t, hf, rfl⟩

theorem HopFails.hop_eq (h : HopFails sources s lookup e t) :
    hop sources lookup s = .error e t := by
  cases h
  case unknown hm =>
    have hat := moduleAt_eq_error.2 ⟨hm, rfl, rfl⟩
    cases lookup <;> exact Bundling.bind_eq_error.2 (.inl hat)
  all_goals refine Bundling.bind_eq_error.2 (.inr ⟨_, s, moduleAt_eq_ok.2 ⟨‹_›, rfl⟩, ?_⟩)
  case starImport hm hd hi =>
    simp only [hd, hi]
    rfl
  case imported hm hd hi hne hf =>
    simp only [hd, hi, if_neg hne]
    exact Bundling.bind_eq_error.2 (.inl hf)
  case wholeModule hm he =>
    simp only [he]
    rfl
  case reexported hm he hf =>
    simp only [he]
    exact Bundling.bind_eq_error.2 (.inl hf)
  case starred hm he hf =>
    simp only [he]
    exact Bundling.bind_eq_error.2 (.inl hf)
  case notExported hm he hf =>
    simp only [he]
    exact Bundling.bind_eq_error.2 (.inr ⟨none, t, hf, rfl⟩)

/-- The cases of a hop in the scope of a module follow its definitions and imports. -/
theorem hopInScope_cases (sources : Sources) (id : Nat) (name : String) (s : Store) :
    (∃ answer t, Hops sources s (.inScope id name) answer t) ∨
      ∃ e t, HopFails sources s (.inScope id name) e t := by
  cases hm : s.modules[id]? with
  | none => exact .inr ⟨_, _, .unknown hm⟩
  | some m =>
    cases hd : m.definitions.find? name with
    | some index => exact .inl ⟨_, _, .defined hm hd⟩
    | none =>
      cases hi : m.imports.find? name with
      | none => exact .inl ⟨_, _, .external hm hd hi⟩
      | some binding =>
        by_cases hstar : binding.name = "*"
        · obtain ⟨source, imported⟩ := binding
          obtain rfl : imported = "*" := hstar
          exact .inr ⟨_, _, .starImport hm hd hi⟩
        · cases hf : fetchFrom sources m.path binding.source s with
          | ok target t => exact .inl ⟨_, _, .imported hm hd hi hstar hf⟩
          | error e t => exact .inr ⟨_, _, .imported hm hd hi hstar hf⟩

/-- The cases of a hop from an exported name follow the exports. -/
theorem hopExported_cases (sources : Sources) (id : Nat) (name : String) (s : Store) :
    (∃ answer t, Hops sources s (.exported id name) answer t) ∨
      ∃ e t, HopFails sources s (.exported id name) e t := by
  cases hm : s.modules[id]? with
  | none => exact .inr ⟨_, _, .unknown hm⟩
  | some m =>
    cases he : m.exports.find? name with
    | none =>
      cases hf : findStarExport sources id name s with
      | error e t => exact .inr ⟨_, _, .starred hm he hf⟩
      | ok found t =>
        cases found with
        | some target => exact .inl ⟨_, _, .starred hm he hf⟩
        | none => exact .inr ⟨_, _, .notExported hm he hf⟩
    | some binding =>
      obtain ⟨localName, target⟩ := binding
      cases target with
      | here statement => exact .inl ⟨_, _, .here hm he⟩
      | wholeModule source => exact .inr ⟨_, _, .wholeModule hm he⟩
      | reexport source exported =>
        cases hf : fetchFrom sources m.path source s with
        | ok target t => exact .inl ⟨_, _, .reexported hm he hf⟩
        | error e t => exact .inr ⟨_, _, .reexported hm he hf⟩

/-- In each store a hop does one of what it may do. -/
theorem hop_cases (sources : Sources) (lookup : Lookup) (s : Store) :
    (∃ answer t, Hops sources s lookup answer t) ∨ ∃ e t, HopFails sources s lookup e t := by
  cases lookup with
  | inScope id name => exact hopInScope_cases sources id name s
  | exported id name => exact hopExported_cases sources id name s

theorem hop_eq_ok : hop sources lookup s = .ok answer t ↔ Hops sources s lookup answer t := by
  refine ⟨fun h => ?_, Hops.hop_eq⟩
  rcases hop_cases sources lookup s with ⟨answer', t', hops⟩ | ⟨e, t', hfails⟩
  · rw [hops.hop_eq] at h
    cases h
    exact hops
  · rw [hfails.hop_eq] at h
    cases h

theorem hop_eq_error : hop sources lookup s = .error e t ↔ HopFails sources s lookup e t := by
  refine ⟨fun h => ?_, HopFails.hop_eq⟩
  rcases hop_cases sources lookup s with ⟨answer, t', hops⟩ | ⟨e', t', hfails⟩
  · rw [hops.hop_eq] at h
    cases h
  · rw [hfails.hop_eq] at h
    cases h
    exact hfails

/-- To a name in the scope of a module hops lead only through an export of the module. -/
theorem Hops.exists_export {id : Nat} {name : String}
    (h : Hops sources s lookup (.onward (.inScope id name)) t) :
    ∃ exported m statement, lookup = .exported id exported ∧ t = s ∧ s.modules[id]? = some m ∧
      m.exports.find? exported = some ⟨name, .here statement⟩ := by
  cases h with
  | here hm he => exact ⟨_, _, _, rfl, rfl, hm, he⟩

end ModuleBundler

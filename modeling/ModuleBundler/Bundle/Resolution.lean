import ModuleBundler.Bundle.Store

/-!
# ModuleBundler — what a name stands for

A name is followed hop by hop through imports and exports to the statement that
defines it. A hop either ends the search, or leads to another lookup: of a name
in the scope of a module, or of a name that a module exports.

* `hop` — one hop.
* `findStarExport` — the module that `export *` leads to: depth first, in source
  order, where the own exports of a source are looked at as soon as it is
  fetched.
* `resolveName` — hops until the search ends. It fails when it meets a lookup
  for a second time, and after `maxHops` lookups.
* `Bundling.Keeps.resolveName` — what fetching keeps, every search keeps.
-/

namespace ModuleBundler

-- ---------------------------------------------------------------------------
-- Star exports
-- ---------------------------------------------------------------------------

/-- What the sources of one module yield: a module that exports the name itself,
or else the modules to search next. -/
inductive StarSources where
  | found (moduleId : Nat)
  | next (moduleIds : List Nat)
  deriving DecidableEq, Repr

/-- Fetches sources in order, up to the first one that exports a name itself. -/
def searchSources (sources : Sources) (importer : Path) (name : String) :
    List String → Bundling StarSources
  | [] => return .next []
  | source :: rest => do
    let id ← fetchFrom sources importer source
    let m ← moduleAt id
    if m.exports.contains name then
      return .found id
    else
      match ← searchSources sources importer name rest with
      | .found other => return .found other
      | .next ids => return .next (id :: ids)

/-- Searches the modules on a stack, less the visited ones, and all that their
star exports lead to. Searches at most the given number of modules. -/
def searchStars (sources : Sources) (name : String) (rounds : Nat) (visited : List Nat)
    (stack : List Nat) : Bundling (Option Nat) :=
  match rounds, stack with
  | 0, _ => return none
  | _, [] => return none
  | n + 1, id :: rest =>
    if id ∈ visited then searchStars sources name (n + 1) visited rest
    else do
      let m ← moduleAt id
      match ← searchSources sources m.path name m.starExports with
      | .found target => return some target
      | .next ids => searchStars sources name n (id :: visited) (ids ++ rest)
termination_by (rounds, stack.length)

/-- The module reached through the star exports of a module that exports a name
itself. The name `default` is not passed on by star exports. No module is
searched twice, so there are no more rounds than modules. -/
def findStarExport (sources : Sources) (id : Nat) (name : String) : Bundling (Option Nat) := fun s =>
  if name = "default" then .ok none s
  else searchStars sources name (max s.modules.size sources.capacity) [] [id] s

-- ---------------------------------------------------------------------------
-- Hops
-- ---------------------------------------------------------------------------

/-- A question on the way from a name to its definition. -/
inductive Lookup where
  /-- A name in the scope of a module. -/
  | inScope (moduleId : Nat) (name : String)
  /-- A name that a module exports. -/
  | exported (moduleId : Nat) (name : String)
  deriving DecidableEq, Repr, Inhabited

/-- The module that is asked. -/
def Lookup.moduleId : Lookup → Nat
  | inScope id _ | exported id _ => id

/-- The name that is asked for. -/
def Lookup.name : Lookup → String
  | inScope _ name | exported _ name => name

/-- The answer to a lookup. -/
inductive Hop where
  | defined (statement : StatementRef)
  /-- The name is neither defined nor imported. -/
  | external
  | onward (lookup : Lookup)
  deriving DecidableEq, Repr

/-- The hop from a name in the scope of a module: to its definition, or through
its import. -/
def hopInScope (sources : Sources) (id : Nat) (name : String) : Bundling Hop := do
  let m ← moduleAt id
  match m.definitions.find? name with
  | some index => return .defined ⟨id, index⟩
  | none =>
    match m.imports.find? name with
    | none => return .external
    | some binding =>
      if binding.name = "*" then
        throw (.unsupportedNamespace m.path name)
      else do
        let target ← fetchFrom sources m.path binding.source
        return .onward (.exported target binding.name)

/-- The hop from an exported name: to the name it has in the module, to where it
is exported from, or through a star export. -/
def hopExported (sources : Sources) (id : Nat) (name : String) : Bundling Hop := do
  let m ← moduleAt id
  match m.exports.find? name with
  | some ⟨localName, .here _⟩ => return .onward (.inScope id localName)
  | some ⟨_, .reexport source exported⟩ => do
    let target ← fetchFrom sources m.path source
    return .onward (.exported target exported)
  | some ⟨_, .wholeModule _⟩ => throw (.unsupportedNamespace m.path name)
  | none => do
    match ← findStarExport sources id name with
    | some target => return .onward (.exported target name)
    | none => throw (.exportNotFound m.path name)

/-- The answer to a lookup, for which modules may have to be fetched. -/
def hop (sources : Sources) : Lookup → Bundling Hop
  | .inScope id name => hopInScope sources id name
  | .exported id name => hopExported sources id name

-- ---------------------------------------------------------------------------
-- Resolution
-- ---------------------------------------------------------------------------

/-- The number of lookups after which a search is given up. -/
def maxHops : Nat := 10000

/-- The failure of a search that comes to no end at a lookup. -/
def circular (lookup : Lookup) : Bundling α := do
  let m ← moduleAt lookup.moduleId
  throw (.circularReexport m.path lookup.name)

/-- Hops on from a lookup for at most the given number of lookups, and never to
one that was seen. -/
def follow (sources : Sources) : Nat → List Lookup → Lookup → Bundling (Option StatementRef)
  | 0, _, lookup => circular lookup
  | n + 1, seen, lookup =>
    if lookup ∈ seen then circular lookup
    else do
      match ← hop sources lookup with
      | .defined statement => return some statement
      | .external => return none
      | .onward next => follow sources n (lookup :: seen) next

/-- The statement that defines a name in the scope of a module; none, if the name
comes from outside of all modules. -/
def resolveName (sources : Sources) (id : Nat) (name : String) : Bundling (Option StatementRef) :=
  follow sources maxHops [] (.inScope id name)

-- ---------------------------------------------------------------------------
-- What searches do to a store
-- ---------------------------------------------------------------------------

namespace Bundling.Keeps

variable {sources : Sources} {inv : Store → Prop} {α : Type}

theorem circular (lookup : Lookup) :
    Keeps inv (ModuleBundler.circular lookup : Bundling α) :=
  (moduleAt _).bind fun _ => throw _

variable (hfetch : ∀ importer importee, Keeps inv (fetchFrom sources importer importee))

include hfetch

theorem searchSources (importer : Path) (name : String) (list : List String) :
    Keeps inv (ModuleBundler.searchSources sources importer name list) := by
  induction list with
  | nil => exact pure _
  | cons source rest ih =>
    refine (hfetch ..).bind fun id => (moduleAt id).bind fun m => ?_
    split
    · exact pure _
    · refine ih.bind fun found => ?_
      split <;> exact pure _

theorem searchStars (name : String) (rounds : Nat) (visited stack : List Nat) :
    Keeps inv (ModuleBundler.searchStars sources name rounds visited stack) := by
  fun_induction ModuleBundler.searchStars sources name rounds visited stack with
  | case1 => exact pure _
  | case2 => exact pure _
  | case3 visited n id rest hmem ih => exact ih
  | case4 visited n id rest hmem ih =>
    refine (moduleAt id).bind fun m => (searchSources hfetch ..).bind fun found => ?_
    split
    · exact pure _
    · exact ih _

theorem findStarExport (id : Nat) (name : String) :
    Keeps inv (ModuleBundler.findStarExport sources id name) := by
  refine ⟨fun s hs => ?_⟩
  by_cases h : name = "default"
  · simpa [Bundling.storeAfter, ModuleBundler.findStarExport, h] using hs
  · simpa [Bundling.storeAfter, ModuleBundler.findStarExport, h] using
      (searchStars hfetch name _ [] [id]).storeAfter s hs

theorem hop (lookup : Lookup) : Keeps inv (ModuleBundler.hop sources lookup) := by
  cases lookup with
  | inScope id name =>
    refine (moduleAt id).bind fun m => ?_
    split
    · exact pure _
    · split
      · exact pure _
      · split
        · exact throw _
        · exact (hfetch ..).bind fun _ => pure _
  | exported id name =>
    refine (moduleAt id).bind fun m => ?_
    split
    · exact pure _
    · exact (hfetch ..).bind fun _ => pure _
    · exact throw _
    · refine (findStarExport hfetch ..).bind fun found => ?_
      split
      · exact pure _
      · exact throw _

theorem follow (n : Nat) (seen : List Lookup) (lookup : Lookup) :
    Keeps inv (ModuleBundler.follow sources n seen lookup) := by
  induction n generalizing seen lookup with
  | zero => exact circular lookup
  | succ n ih =>
    unfold ModuleBundler.follow
    split
    · exact circular lookup
    · refine (hop hfetch _).bind fun answer => ?_
      split
      · exact pure _
      · exact pure _
      · exact ih _ _

/-- What fetching an import keeps the search for a name keeps. -/
theorem resolveName (id : Nat) (name : String) :
    Keeps inv (ModuleBundler.resolveName sources id name) :=
  follow hfetch ..

end Bundling.Keeps

namespace Bundling.OnlyFetches

/-- What is made of fetching only fetches. -/
theorem of_fetchFrom {sources : Sources} {α : Type} {x : Bundling α}
    (h : ∀ {inv : Store → Prop},
      (∀ importer importee, Keeps inv (ModuleBundler.fetchFrom sources importer importee)) →
        Keeps inv x) : OnlyFetches sources.capacity x :=
  of_keeps fun s => h fun importer importee => (fetchFrom sources importer importee).keeps s

theorem findStarExport (sources : Sources) (id : Nat) (name : String) :
    OnlyFetches sources.capacity (ModuleBundler.findStarExport sources id name) :=
  of_fetchFrom fun h => .findStarExport h id name

theorem resolveName (sources : Sources) (id : Nat) (name : String) :
    OnlyFetches sources.capacity (ModuleBundler.resolveName sources id name) :=
  of_fetchFrom fun h => .resolveName h id name

end Bundling.OnlyFetches

end ModuleBundler

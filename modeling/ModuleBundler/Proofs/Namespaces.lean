import ModuleBundler.Proofs.DanglingExports
import ModuleBundler.Proofs.Specifiers

/-!
# ModuleBundler — names that stand for whole modules

A name that stands for a whole module cannot be bundled. There are two kinds of them:
local names that `import * as` binds, and names that `export * as` exports. The search
finds the first kind by the name `*` in the table of imports. A string may also be that
name, and then the name of a single export is taken for a whole module.

* `Module.Names` — lookups of names that stand for whole modules.
* `Module.Mistakes` — lookups of names that are taken for such ones.
* `unsupportedNamespace_iff` — when a search ends at a namespace.
-/

namespace ModuleBundler

variable {sources : Sources} {s t : Store}

-- ---------------------------------------------------------------------------
-- Namespaces
-- ---------------------------------------------------------------------------

/-- A lookup in a module comes to a name that stands for a whole module: a local name that
`import * as` binds, or a name that `export * as` exports, if no later export has it. -/
inductive Module.Names (m : Module) (text : String) : Lookup → Prop
  | imported {id : Nat} {name : String} {st : Statement} {specifiers : List ImportSpecifier}
    {source : String} {i : ImportSpecifier} (hst : st ∈ m.statements.toList)
    (hform : st.node.form = .importDeclaration specifiers source) (hi : i ∈ specifiers)
    (hname : i.localName = name) (hnamespace : i.IsNamespace text)
    (hfree : ∀ st ∈ m.statements.toList, ¬ st.Introduces name) : Names m text (.inScope id name)
  | exported {id : Nat} {st : Statement} {name source : String} (hst : st ∈ m.statements.toList)
    (hform : st.node.form = .exportAll (some name) source)
    (hheld : m.exports.find? name = some ⟨name, .wholeModule source⟩) :
    Names m text (.exported id name)

/-- A lookup in a module comes to a name that is taken for one that stands for a whole
module: a local name for which a list imports the name `"*"`, which is written as a string,
or this name itself, where a list passes it on from another module. -/
inductive Module.Mistakes (m : Module) (text : String) : Lookup → Prop
  | imported {id : Nat} {name : String} {st : Statement} {specifiers : List ImportSpecifier}
    {source : String} {i : ImportSpecifier} (hst : st ∈ m.statements.toList)
    (hform : st.node.form = .importDeclaration specifiers source) (hi : i ∈ specifiers)
    (hname : i.localName = name) (hstar : i.imported = "*")
    (hquoted : BeginsQuoted text i.span)
    (hfree : ∀ st ∈ m.statements.toList, ¬ st.Introduces name) : Mistakes m text (.inScope id name)
  | passed {id : Nat} {st : Statement} {specifiers : List ExportSpecifier} {source : String}
    {e : ExportSpecifier} (hst : st ∈ m.statements.toList)
    (hform : st.node.form = .exportNamed none specifiers (some source)) (he : e ∈ specifiers)
    (hstar : e.localName = "*") (hquoted : BeginsQuoted text e.span)
    (hfree : ∀ st ∈ m.statements.toList, ¬ st.Introduces "*") :
    Mistakes m text (.inScope id "*")

-- ---------------------------------------------------------------------------
-- Tables
-- ---------------------------------------------------------------------------

namespace Statement

variable {st : Statement}

theorem exists_specifier_of_explicitImport {name imported source : String}
    (h : (name, ⟨source, imported⟩) ∈ st.explicitImports) :
    ∃ specifiers, st.node.form = .importDeclaration specifiers source ∧
      ∃ i ∈ specifiers, i.localName = name ∧ i.imported = imported := by
  cases hform : st.node.form with
  | importDeclaration specifiers other =>
    simp only [explicitImports, hform, List.mem_map] at h
    obtain ⟨i, hi, hentry⟩ := h
    cases hentry
    exact ⟨specifiers, rfl, i, hi, rfl, rfl⟩
  | _ => simp [explicitImports, hform] at h

theorem exists_specifier_of_passedImport {name imported source : String}
    (h : (name, ⟨source, imported⟩) ∈ st.passedImports) :
    imported = name ∧ ∃ specifiers, st.node.form = .exportNamed none specifiers (some source) ∧
      ∃ e ∈ specifiers, e.localName = name := by
  cases hform : st.node.form with
  | exportNamed declaration specifiers other =>
    cases declaration with
    | some _ => simp [passedImports, hform] at h
    | none =>
      cases other with
      | none => simp [passedImports, hform] at h
      | some other =>
        simp only [passedImports, hform, List.mem_map] at h
        obtain ⟨e, he, hentry⟩ := h
        cases hentry
        exact ⟨rfl, specifiers, rfl, e, he, rfl⟩
  | _ => simp [passedImports, hform] at h

theorem exportAll_of_exportEntry {name localName source : String}
    (h : (name, ⟨localName, .wholeModule source⟩) ∈ st.exportEntries) :
    localName = name ∧ st.node.form = .exportAll (some name) source := by
  cases hform : st.node.form with
  | exportNamed declaration specifiers other =>
    cases declaration with
    | some declaration => simp [exportEntries, hform] at h
    | none =>
      cases other <;> simp [exportEntries, hform, ExportSpecifier.entry] at h
  | exportDefault declaration => simp [exportEntries, hform] at h
  | exportAll exported other =>
    cases exported with
    | none => simp [exportEntries, hform] at h
    | some exported =>
      simp only [exportEntries, hform, List.mem_singleton] at h
      cases h
      exact ⟨rfl, rfl⟩
  | _ => simp [exportEntries, hform] at h

end Statement

namespace Module

variable {path : Path} {text : String} {m : Module} {moduleId id : Nat} {name : String}

theorem explicitImports_nodup (h : Module.read path text moduleId = .ok m) :
    (((statementsOf text moduleId).flatMap Statement.explicitImports).map Prod.fst).Nodup := by
  obtain ⟨program, hparse, hb, -⟩ := Module.read_eq_ok h
  rw [statementsOf, hparse]
  exact (Bindings.ofStatements_eq_ok.1 hb).1

theorem mem_statements_iff (h : Module.read path text moduleId = .ok m) {st : Statement} :
    st ∈ m.statements.toList ↔ st ∈ statementsOf text moduleId := by
  rw [(Module.holdsTables h).statements_eq]

/-- The name of an import declaration is found. -/
theorem import_of_specifier (h : Module.read path text moduleId = .ok m) {st : Statement}
    (hst : st ∈ m.statements.toList) {specifiers : List ImportSpecifier} {source : String}
    (hform : st.node.form = .importDeclaration specifiers source) {i : ImportSpecifier}
    (hi : i ∈ specifiers) : m.imports.find? i.localName = some ⟨source, i.imported⟩ := by
  have hmem : (i.localName, ⟨source, i.imported⟩) ∈
      (statementsOf text moduleId).flatMap Statement.explicitImports := by
    refine List.mem_flatMap.2 ⟨st, (mem_statements_iff h).1 hst, ?_⟩
    rw [Statement.explicitImports, hform]
    exact List.mem_map.2 ⟨i, hi, rfl⟩
  rw [(Module.holdsTables h).imports, NameTable.lookup_of_mem (explicitImports_nodup h) hmem]
  rfl

/-- No import declaration binds the name `*`, so a list may pass it on. -/
theorem import_star_of_passed (h : Module.read path text moduleId = .ok m) {st : Statement}
    (hst : st ∈ m.statements.toList) {specifiers : List ExportSpecifier} {source : String}
    (hform : st.node.form = .exportNamed none specifiers (some source)) {e : ExportSpecifier}
    (he : e ∈ specifiers) (hstar : e.localName = "*") :
    ∃ source, m.imports.find? "*" = some ⟨source, "*"⟩ := by
  have hexplicit :
      ((statementsOf text moduleId).flatMap Statement.explicitImports).lookup "*" = none := by
    refine NameTable.lookup_eq_none fun binding hmem => ?_
    obtain ⟨st, hst, hmem⟩ := List.mem_flatMap.1 hmem
    obtain ⟨specifiers, hform, i, hi, hlocal, -⟩ :=
      Statement.exists_specifier_of_explicitImport hmem
    have hwritten := Statement.written_of_mem hst
    rw [Node.Written, hform] at hwritten
    exact (hwritten i hi).localName_ne hlocal
  have hmem : ("*", ⟨source, "*"⟩) ∈
      (statementsOf text moduleId).flatMap Statement.passedImports := by
    refine List.mem_flatMap.2 ⟨st, (mem_statements_iff h).1 hst, ?_⟩
    rw [Statement.passedImports, hform]
    exact List.mem_map.2 ⟨e, he, by rw [hstar]⟩
  obtain ⟨binding, hlookup⟩ := Option.isSome_iff_exists.1
    (List.lookup_isSome_iff.2 ⟨_, hmem, beq_self_eq_true _⟩)
  obtain ⟨st, -, hentry⟩ := List.mem_flatMap.1 (NameTable.mem_of_lookup hlookup)
  obtain ⟨source, imported⟩ := binding
  obtain ⟨rfl, -⟩ := Statement.exists_specifier_of_passedImport hentry
  refine ⟨source, ?_⟩
  rw [(Module.holdsTables h).imports, hexplicit, Option.none_or, hlookup]

/-- A local name that is not defined in its module and for which the table of imports has
the name `*` is the name of a namespace, or taken for one. -/
theorem namespace_inScope_iff (h : Module.read path text moduleId = .ok m) :
    (m.Names text (.inScope id name) ∨ m.Mistakes text (.inScope id name)) ↔
      m.definitions.find? name = none ∧ ∃ source, m.imports.find? name = some ⟨source, "*"⟩ := by
  constructor
  · rintro (hnames | hmistakes)
    · cases hnames with
      | @imported _ _ st specifiers source i hst hform hi hname hnamespace hfree =>
        have hwritten := Statement.written_of_mem ((mem_statements_iff h).1 hst)
        rw [Node.Written, hform] at hwritten
        refine ⟨(definition_eq_none_iff h).2 hfree, source, ?_⟩
        rw [← hname, import_of_specifier h hst hform hi,
          (hwritten i hi).imported_of_isNamespace hnamespace]
    · cases hmistakes with
      | @imported _ _ st specifiers source i hst hform hi hname hstar _ hfree =>
        refine ⟨(definition_eq_none_iff h).2 hfree, source, ?_⟩
        rw [← hname, import_of_specifier h hst hform hi, hstar]
      | passed hst hform he hstar _ hfree =>
        exact ⟨(definition_eq_none_iff h).2 hfree, import_star_of_passed h hst hform he hstar⟩
  · rintro ⟨hd, source, himport⟩
    have hfree := (definition_eq_none_iff h).1 hd
    rw [(Module.holdsTables h).imports, Option.or_eq_some_iff] at himport
    rcases himport with hlookup | ⟨-, hlookup⟩
    · obtain ⟨st, hst, hentry⟩ := List.mem_flatMap.1 (NameTable.mem_of_lookup hlookup)
      obtain ⟨specifiers, hform, i, hi, hname, hstar⟩ :=
        Statement.exists_specifier_of_explicitImport hentry
      have hwritten := Statement.written_of_mem hst
      rw [Node.Written, hform] at hwritten
      have hst := (mem_statements_iff h).2 hst
      rcases (hwritten i hi).of_imported hstar with hnamespace | hquoted
      · exact .inl (.imported hst hform hi hname hnamespace hfree)
      · exact .inr (.imported hst hform hi hname hstar hquoted hfree)
    · obtain ⟨st, hst, hentry⟩ := List.mem_flatMap.1 (NameTable.mem_of_lookup hlookup)
      obtain ⟨rfl, specifiers, hform, e, he, hstar⟩ :=
        Statement.exists_specifier_of_passedImport hentry
      have hwritten := Statement.written_of_mem hst
      rw [Node.Written, hform] at hwritten
      exact .inr (.passed ((mem_statements_iff h).2 hst) hform he hstar (hwritten e he hstar) hfree)

/-- An exported name that stands for a whole module is one of an `export * as`. -/
theorem namespace_exported_iff (h : Module.read path text moduleId = .ok m) :
    (m.Names text (.exported id name) ∨ m.Mistakes text (.exported id name)) ↔
      ∃ localName source, m.exports.find? name = some ⟨localName, .wholeModule source⟩ := by
  constructor
  · rintro (hnames | hmistakes)
    · cases hnames with
      | exported _ _ hheld => exact ⟨_, _, hheld⟩
    · cases hmistakes
  · rintro ⟨localName, source, hheld⟩
    have hlookup := hheld
    rw [(Module.holdsTables h).exports] at hlookup
    obtain ⟨st, hst, hentry⟩ :=
      List.mem_flatMap.1 (List.mem_reverse.1 (NameTable.mem_of_lookup hlookup))
    obtain ⟨rfl, hform⟩ := Statement.exportAll_of_exportEntry hentry
    exact .inl (.exported ((mem_statements_iff h).2 hst) hform hheld)

end Module

-- ---------------------------------------------------------------------------
-- Hops
-- ---------------------------------------------------------------------------

/-- A hop from a namespace, or from what is taken for one, fails. -/
theorem hop_of_namespace {lookup : Lookup} {path : Path} {text : String} {m : Module}
    {moduleId : Nat} (hread : Module.read path text moduleId = .ok m)
    (hm : s.modules[lookup.moduleId]? = some m)
    (h : m.Names text lookup ∨ m.Mistakes text lookup) :
    hop sources lookup s = .error (.unsupportedNamespace m.path lookup.name) s := by
  cases lookup with
  | inScope id name =>
    obtain ⟨hd, source, hi⟩ := (Module.namespace_inScope_iff hread).1 h
    exact (HopFails.starImport hm hd hi).hop_eq
  | exported id name =>
    obtain ⟨localName, source, he⟩ := (Module.namespace_exported_iff hread).1 h
    exact (HopFails.wholeModule hm he).hop_eq

/-- The errors that fetching may have: none about a namespace, unless that is how a file
reads. -/
def Sources.MayRead (sources : Sources) (e : BuildError) : Prop :=
  (∀ path name, e ≠ .unsupportedNamespace path name) ∨ ∃ file, sources.read file = .error e

theorem Sources.fetchingMay_read (sources : Sources) : sources.FetchingMay sources.MayRead := by
  refine fetchingMay_of (fun e h => .inl ?_) fun path e h => .inr ⟨path, h⟩
  rintro path name rfl
  cases h

/-- A hop that fails for a namespace comes from one, or from what is taken for one, unless
that is how a file reads. -/
theorem namespace_of_hop {lookup : Lookup} {path : Path} {name : String}
    (hs : s.Recorded sources)
    (h : hop sources lookup s = .error (.unsupportedNamespace path name) t) :
    (∃ file, sources.read file = .error (.unsupportedNamespace path name)) ∨
      s = t ∧ lookup.name = name ∧ ∃ m text, s.modules[lookup.moduleId]? = some m ∧
        m.path = path ∧ sources.read path = .ok text ∧
        Module.read path text lookup.moduleId = .ok m ∧
        (m.Names text lookup ∨ m.Mistakes text lookup) := by
  have hloaded : ∀ {id : Nat} {m : Module}, s.modules[id]? = some m →
      ∃ text, sources.read m.path = .ok text ∧ Module.read m.path text id = .ok m :=
    fun hm => Except.bind_eq_ok.1 (hs.loaded hm)
  have hfetch : ∀ {file : Path} {v : Store},
      fetch sources file v = .error (.unsupportedNamespace path name) t →
      ∃ file, sources.read file = .error (.unsupportedNamespace path name) := fun h =>
    ((@Ensures.fetch _ (fun _ => True) _ sources.fetchingMay_read _).of_error trivial
      h).resolve_left fun hne => hne path name rfl
  cases hop_eq_error.1 h with
  | starImport hm hd hi =>
    obtain ⟨text, hfile, hread⟩ := hloaded hm
    exact .inr ⟨rfl, rfl, _, text, hm, rfl, hfile, hread,
      (Module.namespace_inScope_iff hread).2 ⟨hd, _, hi⟩⟩
  | wholeModule hm he =>
    obtain ⟨text, hfile, hread⟩ := hloaded hm
    exact .inr ⟨rfl, rfl, _, text, hm, rfl, hfile, hread,
      (Module.namespace_exported_iff hread).2 ⟨_, _, he⟩⟩
  | imported hm hd hi hne hf => exact .inl (hfetch hf)
  | reexported hm he hf => exact .inl (hfetch hf)
  | starred hm he hf =>
    exact .inl (((@Ensures.findStarExport _ (fun _ => True) _ sources.fetchingMay_read _ _).of_error
      trivial hf).resolve_left fun hne => hne path name rfl)

-- ---------------------------------------------------------------------------
-- Searches
-- ---------------------------------------------------------------------------

/-- The search for a name, after any requests. It fails for a namespace if and only if it
comes, in time, to a lookup in a module that names a whole module there, or to one that is
taken for such a lookup because the name of an import is a string with a star in it. The
error is about that name and that module. Else the reader of files itself fails so. -/
theorem unsupportedNamespace_iff (sources : Sources) (requests : List Request) :
    let s := (serve sources requests .empty).2
    ∀ (id : Nat) (name : String) (path : Path) (refused : String) (t : Store),
      resolveName sources id name s = .error (.unsupportedNamespace path refused) t ↔
        ∃ seen lookup u, Leads sources (.inScope id name) s seen lookup u ∧
          seen.length < maxHops ∧
          ((u = t ∧ lookup.name = refused ∧ ∃ m text, u.modules[lookup.moduleId]? = some m ∧
              m.path = path ∧ sources.read path = .ok text ∧
              Module.read path text lookup.moduleId = .ok m ∧
              (m.Names text lookup ∨ m.Mistakes text lookup)) ∨
            (hop sources lookup u = .error (.unsupportedNamespace path refused) t ∧
              ∃ file, sources.read file = .error (.unsupportedNamespace path refused))) := by
  intro s id name path refused t
  have hs : s.Recorded sources := recorded_serve (.empty sources) requests
  constructor
  · intro h
    obtain ⟨lookups, hle, seen, lookup, u, hleads, rfl, hc⟩ := finishes_of_resolveName h nofun
    cases hc with | fails hlast =>
    have hop := hlast.hop_eq
    refine ⟨seen, lookup, u, hleads, hle, ?_⟩
    exact (namespace_of_hop (hleads.recorded hs) hop).symm.imp_right fun hfile => ⟨hop, hfile⟩
  · rintro ⟨seen, lookup, u, hleads, hlt, hlast⟩
    have hop : hop sources lookup u = .error (.unsupportedNamespace path refused) t := by
      rcases hlast with ⟨rfl, rfl, m, text, hm, rfl, -, hread, hnames⟩ | ⟨hop, -⟩
      · exact hop_of_namespace hread hm hnames
      · exact hop
    have hfinishes : Finishes sources (.inScope id name) s (seen.length + 1)
        (.error (.unsupportedNamespace path refused) t) :=
      ⟨seen, lookup, u, hleads, rfl, .fails (hop_eq_error.1 hop)⟩
    exact hfinishes.follow_eq hlt

/-- The file that imports the name `"*"` from another one. -/
def starImportText : String := "import \x7b \"*\" as x \x7d from './b.js';\nx;\n"

/-- A file that imports the name of a constant that another file exports as `"*"`. -/
def quotedStar : FileTable :=
  ⟨[(.ofText "a.js", .holds starImportText),
    (.ofText "b.js", .holds "const y = 1;\nexport \x7b y as \"*\" \x7d;\n")]⟩

/-- The module that imports the name. -/
def starImporter : Module :=
  (quotedStar.sources.moduleOf (.ofText "a.js")).toOption.getD default

/-- The module that exports it. -/
def starExporter : Module :=
  (quotedStar.sources.moduleOf (.ofText "b.js") 1).toOption.getD default

/-- The specifiers of an import declaration. -/
def Node.importSpecifiers (n : Node) : List ImportSpecifier :=
  match n.form with
  | .importDeclaration specifiers _ => specifiers
  | _ => []

/-- The import names a constant. It is taken for a namespace. -/
theorem unsupportedNamespace_quotedStar :
    let s := (serve quotedStar.sources [.fetch "a.js" none, .fetch "b.js" none] .empty).2
    s.modules = #[starImporter, starExporter] ∧
      starExporter.exports.find? "*" = some ⟨"y", .here none⟩ ∧
      starExporter.definitions.find? "y" = some 0 ∧
      ¬ starImporter.Names starImportText (.inScope 0 "x") ∧
      starImporter.Mistakes starImportText (.inScope 0 "x") ∧
      resolveName quotedStar.sources 0 "x" s =
        .error (.unsupportedNamespace starImporter.path "x") s := by
  intro s
  have ha : quotedStar.sources.moduleOf (.ofText "a.js") = .ok starImporter :=
    eq_ok_of_isOk (by decide +kernel)
  have hb : quotedStar.sources.moduleOf (.ofText "b.js") 1 = .ok starExporter :=
    eq_ok_of_isOk (by decide +kernel)
  have hmodules : s.modules = #[starImporter, starExporter] :=
    modules_serve_fetch ha hb (by decide +kernel) (by decide)
  have hm : s.modules[0]? = some starImporter := by simp [hmodules]
  obtain ⟨text, htext, hread⟩ := Except.bind_eq_ok.1 ha
  have hfile : quotedStar.sources.read (.ofText "a.js") = .ok starImportText := rfl
  obtain rfl : starImportText = text := Except.ok.inj (hfile.symm.trans htext)
  have hpath : starImporter.path = .ofText "a.js" := Module.path_of_read hread
  have hplain : ∀ st ∈ starImporter.statements.toList, ∀ i ∈ st.node.importSpecifiers,
      ¬ i.IsNamespace starImportText := by decide +kernel
  have hnames : ¬ starImporter.Names starImportText (.inScope 0 "x") := by
    intro h
    cases h with
    | @imported _ _ st specifiers source i hst hform hi hname hnamespace _ =>
      refine hplain st hst i ?_ hnamespace
      rw [Node.importSpecifiers, hform]
      exact hi
  have hmistakes : starImporter.Mistakes starImportText (.inScope 0 "x") :=
    ((Module.namespace_inScope_iff hread).2
      ⟨by decide +kernel, "./b.js", by decide +kernel⟩).resolve_left hnames
  refine ⟨hmodules, by decide +kernel, by decide +kernel, hnames, hmistakes, ?_⟩
  refine (unsupportedNamespace_iff quotedStar.sources _ 0 "x" _ _ s).2 ?_
  exact ⟨[], .inScope 0 "x", s, .start, maxHops_pos, .inl ⟨rfl, rfl, starImporter,
    starImportText, hm, rfl, hpath ▸ hfile, hpath ▸ hread, .inr hmistakes⟩⟩

end ModuleBundler

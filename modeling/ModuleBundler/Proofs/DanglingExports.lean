import ModuleBundler.Proofs.DeclaredExports
import ModuleBundler.Proofs.Demand
import ModuleBundler.Proofs.Histories

/-!
# ModuleBundler — exports of nothing

A name that its module neither defines nor imports comes from outside of all modules,
and then there is nothing to find. A search may also come to such a name after it went
through imports: an export list may list any name at all, and no one checks that the
module has it. That is the only way. A search that went through an import ends with a
definition or an error, unless it comes to such an export.

* `Module.Dangles` — an export list exports a name that the module does not have.
* `Module.dangles_iff` — the same in terms of tables.
* `followed_name_external_iff` — when a search that goes through an import finds nothing.
-/

namespace ModuleBundler

variable {sources : Sources} {s t : Store}

-- ---------------------------------------------------------------------------
-- Dangling exports
-- ---------------------------------------------------------------------------

/-- A module exports a name that stands for nothing: a list without a source exports it for a
local name, no other export comes after that, and no statement defines or imports the local
name. -/
structure Module.Dangles (m : Module) (exported localName : String) : Prop where
  listed : ∃ st ∈ m.statements.toList, ∃ specifiers,
    st.node.form = .exportNamed none specifiers none ∧
      ∃ e ∈ specifiers, e.exported = exported ∧ e.localName = localName
  held : m.exports.find? exported = some ⟨localName, .here none⟩
  not_introduced : ∀ st ∈ m.statements.toList, ¬ st.Introduces localName
  not_imported : ∀ st ∈ m.statements.toList, localName ∉ st.importedNames

/-- An export that is no declaration and has no source is one of an export list. -/
theorem Statement.exists_specifier_of_exportEntry {st : Statement} {exported localName : String}
    (h : (exported, ⟨localName, .here none⟩) ∈ st.exportEntries) :
    ∃ specifiers, st.node.form = .exportNamed none specifiers none ∧
      ∃ e ∈ specifiers, e.exported = exported ∧ e.localName = localName := by
  cases hform : st.node.form with
  | exportNamed declaration specifiers source =>
    cases declaration with
    | some declaration => simp [exportEntries, hform] at h
    | none =>
      simp only [exportEntries, hform, List.mem_map] at h
      obtain ⟨e, he, hentry⟩ := h
      cases source with
      | none =>
        cases hentry
        exact ⟨specifiers, rfl, e, he, rfl, rfl⟩
      | some source => simp [ExportSpecifier.entry] at hentry
  | exportDefault declaration => simp [exportEntries, hform] at h
  | exportAll name source => cases name <;> simp [exportEntries, hform] at h
  | _ => simp [exportEntries, hform] at h

namespace Module

variable {path : Path} {text : String} {moduleId : Nat} {m : Module} {name : String}

theorem definition_eq_none_iff (h : Module.read path text moduleId = .ok m) :
    m.definitions.find? name = none ↔ ∀ st ∈ m.statements.toList, ¬ st.Introduces name := by
  have htables := Module.holdsTables h
  rw [htables.statements_eq]
  constructor
  · intro hnone st hst hintroduces
    obtain ⟨i, hi⟩ := List.mem_iff_getElem?.1 hst
    obtain ⟨j, hlast, -⟩ := exists_isLast (P := (·.Introduces name)) hi hintroduces
    rw [(htables.definitions name j).2 hlast] at hnone
    cases hnone
  · intro hall
    refine Option.eq_none_iff_forall_ne_some.2 fun i hi => ?_
    obtain ⟨⟨st, hat, hintroduces⟩, -⟩ := (htables.definitions name i).1 hi
    exact hall st (List.mem_of_getElem? hat) hintroduces

theorem import_eq_none_iff (h : Module.read path text moduleId = .ok m) :
    m.imports.find? name = none ↔ ∀ st ∈ m.statements.toList, name ∉ st.importedNames := by
  have htables := Module.holdsTables h
  constructor
  · intro hnone st hst hname
    rw [htables.imports, Option.or_eq_none_iff] at hnone
    rw [htables.statements_eq] at hst
    rw [st.importedNames_eq, List.map_append, List.mem_append] at hname
    have habsent : ∀ {entries : Statement → List (String × ImportBinding)},
        ((statementsOf text moduleId).flatMap entries).lookup name = none →
          name ∉ (entries st).map Prod.fst := by
      intro entries hlookup hmem
      obtain ⟨e, he, rfl⟩ := List.mem_map.1 hmem
      have hne := List.lookup_eq_none_iff.1 hlookup e (List.mem_flatMap.2 ⟨st, hst, he⟩)
      exact bne_iff_ne.1 hne rfl
    exact hname.elim (habsent hnone.1) (habsent hnone.2)
  · intro hall
    refine Option.eq_none_iff_forall_ne_some.2 fun binding hi => ?_
    obtain ⟨st, hst, hname⟩ := Module.exists_of_import h hi
    exact hall st hst hname

/-- A dangling export in terms of the tables of its module. -/
theorem dangles_iff (h : Module.read path text moduleId = .ok m) {exported localName : String} :
    m.Dangles exported localName ↔ m.exports.find? exported = some ⟨localName, .here none⟩ ∧
      m.definitions.find? localName = none ∧ m.imports.find? localName = none := by
  rw [definition_eq_none_iff h, import_eq_none_iff h]
  refine ⟨fun hd => ⟨hd.held, hd.not_introduced, hd.not_imported⟩,
    fun ⟨held, hintroduced, himported⟩ => ⟨?_, held, hintroduced, himported⟩⟩
  have htables := Module.holdsTables h
  rw [htables.exports] at held
  obtain ⟨st, hst, hentry⟩ :=
    List.mem_flatMap.1 (List.mem_reverse.1 (NameTable.mem_of_lookup held))
  refine ⟨st, ?_, Statement.exists_specifier_of_exportEntry hentry⟩
  rwa [htables.statements_eq]

end Module

-- ---------------------------------------------------------------------------
-- Searches
-- ---------------------------------------------------------------------------

/-- Hops keep the record. -/
theorem Leads.recorded {first lookup : Lookup} {seen : List Lookup}
    (h : Leads sources first s seen lookup t) (hs : s.Recorded sources) : t.Recorded sources := by
  induction h with
  | start => exact hs
  | @onward _ lookup _ _ _ _ hop ih =>
    have hkeeps := (Bundling.Keeps.hop
      (fun importer importee => Store.Recorded.fetch sources _) lookup).storeAfter _ ih
    rwa [Bundling.storeAfter_of_ok hop.hop_eq] at hkeeps

/-- A kept module was read from a text. -/
theorem Store.Recorded.exists_read (h : s.Recorded sources) {id : Nat} {m : Module}
    (hm : s.modules[id]? = some m) : ∃ text, Module.read m.path text id = .ok m := by
  obtain ⟨text, -, hread⟩ := Except.bind_eq_ok.1 (h.loaded hm)
  exact ⟨text, hread⟩

/-- Hops that went somewhere and then end outside of all modules came through a dangling
export. -/
theorem Leads.exists_dangling {first lookup : Lookup} {seen : List Lookup} {u : Store}
    (h : Leads sources first s seen lookup u) (hs : s.Recorded sources) (hne : seen ≠ [])
    (hlast : Hops sources u lookup .external t) :
    ∃ before other exported localName m, seen = .exported other exported :: before ∧
      lookup = .inScope other localName ∧ u = t ∧ t.modules[other]? = some m ∧
      m.Dangles exported localName := by
  cases hlast with
  | @external other localName m hm hd hi =>
    cases h with
    | start => exact absurd rfl hne
    | @onward before previous _ v _ h hprevious =>
      obtain ⟨exported, n, statement, rfl, rfl, hn, he⟩ := hprevious.exists_export
      obtain rfl : n = m := Option.some.inj (hn.symm.trans hm)
      obtain ⟨text, hread⟩ := (h.recorded hs).exists_read hm
      refine ⟨before, other, exported, localName, n, rfl, rfl, rfl, hm,
        (Module.dangles_iff hread).2 ⟨?_, hd, hi⟩⟩
      cases statement with
      | none => exact he
      | some i =>
        -- a declared export has a definition
        obtain ⟨-, j, hj, -⟩ := Module.exists_definition_of_export hread he
        rw [hd] at hj
        cases hj

/-- A search for a name that goes through an import, after any requests. It finds nothing if
and only if it comes to an export of its module that dangles; in all other cases it fails, or
ends with a statement that introduces the name that it came to. -/
theorem followed_name_external_iff (sources : Sources) (requests : List Request) :
    let s := (serve sources requests .empty).2
    ∀ (id : Nat) (name : String) (next : Lookup) (u : Store),
      hop sources (.inScope id name) s = .ok (.onward next) u →
      (∀ t, resolveName sources id name s = .ok none t ↔
        ∃ before other exported localName m,
          Leads sources (.inScope id name) s (.exported other exported :: before)
            (.inScope other localName) t ∧
          before.length + 2 ≤ maxHops ∧ t.modules[other]? = some m ∧
          m.Dangles exported localName) ∧
      ∀ ref t, resolveName sources id name s = .ok (some ref) t →
        ∃ seen localName m st,
          Leads sources (.inScope id name) s seen (.inScope ref.moduleId localName) t ∧
          t.modules[ref.moduleId]? = some m ∧ m.statement? ref.index = some st ∧
          st.Introduces localName := by
  intro s id name next u honward
  have hs : s.Recorded sources := recorded_serve (.empty sources) requests
  refine ⟨fun t => ⟨fun h => ?_, ?_⟩, fun ref t h => ?_⟩
  · obtain ⟨lookups, hle, seen, lookup, v, hleads, rfl, hc⟩ := finishes_of_resolveName h nofun
    cases hc with | external hlast =>
    have hne : seen ≠ [] := by
      rintro rfl
      cases hleads
      cases honward.symm.trans hlast.hop_eq
    obtain ⟨before, other, exported, localName, m, rfl, rfl, rfl, hm, hdangles⟩ :=
      hleads.exists_dangling hs hne hlast
    rw [List.length_cons] at hle
    exact ⟨before, other, exported, localName, m, hleads, by omega, hm, hdangles⟩
  · rintro ⟨before, other, exported, localName, m, hleads, hle, hm, hdangles⟩
    obtain ⟨text, hread⟩ := (hleads.recorded hs).exists_read hm
    obtain ⟨-, hd, hi⟩ := (Module.dangles_iff hread).1 hdangles
    have hfinishes : Finishes sources (.inScope id name) s (before.length + 2) (.ok none t) :=
      ⟨_, _, _, hleads, rfl, .external (.external hm hd hi)⟩
    exact hfinishes.follow_eq hle
  · obtain ⟨lookups, hle, seen, lookup, v, hleads, rfl, hc⟩ := finishes_of_resolveName h nofun
    cases hc with | defined hlast =>
    cases hlast with
    | @defined other localName m index hm hd =>
      obtain ⟨text, hread⟩ := (hleads.recorded hs).exists_read hm
      have htables := Module.holdsTables hread
      obtain ⟨⟨st, hat, hintroduces⟩, -⟩ := (htables.definitions localName index).1 hd
      refine ⟨seen, localName, m, st, hleads, hm, ?_, hintroduces⟩
      rw [Module.statement?, htables.statements_eq, List.getElem?_toArray, hat]

/-- A file that imports a name from another one, which exports it without having it. -/
def unboundExport : FileTable :=
  ⟨[(.ofText "a.js", .holds "import { x } from './b.js';\nx;\n"),
    (.ofText "b.js", .holds "export { x };\n")]⟩

/-- The module that imports the name. -/
def unboundImporter : Module :=
  (unboundExport.sources.moduleOf (.ofText "a.js")).toOption.getD default

/-- The module that exports it. -/
def unboundExporter : Module :=
  (unboundExport.sources.moduleOf (.ofText "b.js") 1).toOption.getD default

/-- The search goes from the first file to the second one, and finds nothing. -/
theorem followed_name_external_unbound :
    let s := (serve unboundExport.sources [.fetch "a.js" none, .fetch "b.js" none] .empty).2
    hop unboundExport.sources (.inScope 0 "x") s = .ok (.onward (.exported 1 "x")) s ∧
      unboundExporter.Dangles "x" "x" ∧
      resolveName unboundExport.sources 0 "x" s = .ok none s := by
  intro s
  have ha : unboundExport.sources.moduleOf (.ofText "a.js") = .ok unboundImporter :=
    eq_ok_of_isOk (by decide +kernel)
  have hb : unboundExport.sources.moduleOf (.ofText "b.js") 1 = .ok unboundExporter :=
    eq_ok_of_isOk (by decide +kernel)
  have hmodules : s.modules = #[unboundImporter, unboundExporter] :=
    modules_serve_fetch ha hb (by decide +kernel) (by decide)
  have hm : s.modules[0]? = some unboundImporter := by simp [hmodules]
  have hn : s.modules[1]? = some unboundExporter := by simp [hmodules]
  have hfind : s.find? (unboundExport.sources.resolve unboundImporter.path "./b.js") = some 1 := by
    rw [Store.find?, hmodules]
    decide +kernel
  have himport : unboundImporter.imports.find? "x" = some ⟨"./b.js", "x"⟩ := by decide +kernel
  have hfirst : Hops unboundExport.sources s (.inScope 0 "x") (.onward (.exported 1 "x")) s :=
    .imported hm (by decide +kernel) himport (by decide) (fetch_eq_ok.2 (.inl ⟨hfind, rfl⟩))
  have hheld : unboundExporter.exports.find? "x" = some ⟨"x", .here none⟩ := by decide +kernel
  have hsecond : Hops unboundExport.sources s (.exported 1 "x") (.onward (.inScope 1 "x")) s :=
    .here hn hheld
  have hdangles : unboundExporter.Dangles "x" "x" := by
    obtain ⟨text, -, hread⟩ := Except.bind_eq_ok.1 hb
    exact (Module.dangles_iff hread).2 ⟨hheld, by decide +kernel, by decide +kernel⟩
  refine ⟨hfirst.hop_eq, hdangles, ?_⟩
  refine ((followed_name_external_iff unboundExport.sources _ 0 "x" _ s hfirst.hop_eq).1 s).2 ?_
  exact ⟨[.inScope 0 "x"], 1, "x", "x", unboundExporter,
    (Leads.start.onward hfirst).onward hsecond, by decide, hn, hdangles⟩

end ModuleBundler

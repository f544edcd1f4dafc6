import ModuleBundler.Proofs.Chains
import ModuleBundler.Proofs.Collisions

/-!
# ModuleBundler — declared exports are defined

What a declaration exports is read off its syntax, name by name (`Node.declarationNames`).
What it defines is found by the traversal that hoists declarations through scopes, from what
its nodes declare there (`Node.declares`). The two agree (`Node.declarationNames_eq`): a
statement that exports a declaration defines the names that it exports, so an export
that is declared leads to a statement in two hops, within its own module.

* `Statement.introduces_of_exportEntry` — the statement of an export introduces its name.
* `Module.declared_export_defined` — a declared export has a definition, no earlier than
  the export itself.
-/

namespace ModuleBundler

namespace Node

/-- What a node declares leaves it. -/
theorem exists_outward_of_declares {n : Node} {name : String} (h : name ∈ n.declares.names) :
    ∃ d ∈ n.outward .hoisting, d.name = name := by
  refine ⟨⟨n.declares.isBlockScoped, name⟩, ?_, rfl⟩
  rw [outward_eq, declared_hoisting]
  exact List.mem_append_left _ (List.mem_map_of_mem h)

/-- What leaves a kid leaves a node that opens no scope. -/
theorem mem_outward_of_kid {n c : Node} (hn : n.opensScope? = none) (hc : c ∈ n.kids)
    {d : DeclaredName} (hd : d ∈ c.outward .hoisting) : d ∈ n.outward .hoisting := by
  rw [outward_eq, opening?_hoisting, hn]
  exact List.mem_append_right _ (List.mem_flatMap.2 ⟨c, hc, hd⟩)

/-- The name of a function or class is what it declares. -/
theorem names_declares_of_declaredName {n : Node} {name : String}
    (h : n.declaredName? = some name) : n.declares.names = [name] := by
  obtain ⟨span, form⟩ := n
  cases form with
  | functionDeclaration f => exact congrArg Option.toList h
  | classDeclaration c => exact congrArg Option.toList h
  | _ => cases h

end Node

namespace Statement

/-- An export statement defines what its declaration declares. -/
theorem mem_defines_of_declaration {text : String} {moduleId : Nat} {st : Statement}
    (hst : st ∈ statementsOf text moduleId) (himport : st.node.isImport = false)
    (hopen : st.node.opensScope? = none) {declaration : Node}
    (hkid : declaration ∈ st.node.kids) {name : String}
    (hname : name ∈ declaration.declares.names) : name ∈ st.defines := by
  obtain ⟨d, hd, rfl⟩ := Node.exists_outward_of_declares hname
  exact (mem_defines_iff hst _).2 ⟨himport, d, Node.mem_outward_of_kid hopen hkid hd, rfl⟩

/-- The statement of an export of its own introduces the local name. -/
theorem introduces_of_exportEntry {text : String} {moduleId : Nat} {st : Statement}
    (hst : st ∈ statementsOf text moduleId) {exported localName : String} {i : Nat}
    (h : (exported, ⟨localName, .here (some i)⟩) ∈ st.exportEntries) :
    st.index = i ∧ st.Introduces localName := by
  cases hform : st.node.form with
  | exportDefault declaration =>
    simp only [exportEntries, hform, List.mem_singleton, Prod.mk.injEq, ExportBinding.mk.injEq,
      ExportTarget.here.injEq, Option.some.injEq] at h
    obtain ⟨-, rfl, rfl⟩ := h
    refine ⟨rfl, ?_⟩
    cases hname : declaration.declaredName? with
    | none => exact .inr ⟨rfl, by simp [isUnnamedDefault, hform, hname]⟩
    | some name =>
      have hkid : declaration ∈ st.node.kids := by simp [Node.kids, hform, Form.children]
      refine .inl (mem_defines_of_declaration hst ?_ ?_ hkid ?_)
      · simp [Node.isImport, hform]
      · simp [Node.opensScope?, hform]
      · simp [Node.names_declares_of_declaredName hname]
  | exportNamed declaration specifiers source =>
    cases declaration with
    | some declaration =>
      simp only [exportEntries, hform, List.mem_map, Prod.mk.injEq, ExportBinding.mk.injEq,
        ExportTarget.here.injEq, Option.some.injEq] at h
      obtain ⟨name, hname, -, rfl, rfl⟩ := h
      have hkid : declaration ∈ st.node.kids := by simp [Node.kids, hform, Form.children]
      refine ⟨rfl, .inl (mem_defines_of_declaration hst ?_ ?_ hkid hname)⟩
      · simp [Node.isImport, hform]
      · simp [Node.opensScope?, hform]
    | none =>
      -- an export list names no statement
      simp only [exportEntries, hform, List.mem_map] at h
      obtain ⟨e, -, he⟩ := h
      cases source <;> simp [ExportSpecifier.entry] at he
  | exportAll exported source => cases exported <;> simp [exportEntries, hform] at h
  | _ => simp [exportEntries, hform] at h

end Statement

/-- The statement of an export of its own introduces the local name, and the definition of the
local name is no earlier than that. -/
theorem Module.exists_definition_of_export {path : Path} {text : String} {moduleId : Nat}
    {m : Module} (h : Module.read path text moduleId = .ok m)
    {exported localName : String} {i : Nat}
    (he : m.exports.find? exported = some ⟨localName, .here (some i)⟩) :
    (∃ s, m.statement? i = some s ∧ s.Introduces localName) ∧
      ∃ j, m.definitions.find? localName = some j ∧ i ≤ j ∧
        ∃ s, m.statement? j = some s ∧ s.Introduces localName := by
  have htables := Module.holdsTables h
  have hat : ∀ j, m.statement? j = (statementsOf text moduleId)[j]? := fun j => by
    rw [Module.statement?, htables.statements_eq, List.getElem?_toArray]
  rw [htables.exports] at he
  obtain ⟨s, hs, hentry⟩ :=
    List.mem_flatMap.1 (List.mem_reverse.1 (NameTable.mem_of_lookup he))
  obtain ⟨rfl, hintroduces⟩ := Statement.introduces_of_exportEntry hs hentry
  obtain ⟨i, hi⟩ := List.mem_iff_getElem?.1 hs
  rw [Statement.index_of_statementsOf hi]
  obtain ⟨j, hlast, hle⟩ := exists_isLast (P := (·.Introduces localName)) hi hintroduces
  obtain ⟨t, ht, htintroduces⟩ := hlast.1
  exact ⟨⟨s, (hat i).trans hi, hintroduces⟩, j, (htables.definitions _ _).2 hlast, hle, t,
    (hat j).trans ht, htintroduces⟩

/-- An export that is declared: its statement defines the local name, or is a default export
without a name. So does the statement that the local name leads to, which is the same one or
a later one, and the search for the export ends there without leaving the module. -/
theorem Module.declared_export_defined {path : Path} {text : String} {moduleId : Nat} {m : Module}
    (h : Module.read path text moduleId = .ok m) {exported localName : String} {i : Nat}
    (he : m.exports.find? exported = some ⟨localName, .here (some i)⟩) :
    (∃ s, m.statement? i = some s ∧
      (localName ∈ s.defines ∨ (localName = "default" ∧ s.isUnnamedDefault = true))) ∧
    ∃ j, m.definitions.find? localName = some j ∧ i ≤ j ∧
      (∃ s, m.statement? j = some s ∧
        (localName ∈ s.defines ∨ (localName = "default" ∧ s.isUnnamedDefault = true))) ∧
      ∀ (sources : Sources) (id : Nat) (s : Store), s.modules[id]? = some m →
        Finishes sources (.exported id exported) s 2 (.ok (some ⟨id, j⟩) s) ∧
        resolveName sources id localName s = .ok (some ⟨id, j⟩) s := by
  obtain ⟨hstatement, j, hj, hle, hdefinition⟩ := Module.exists_definition_of_export h he
  refine ⟨hstatement, j, hj, hle, hdefinition, fun sources id s hm => ?_⟩
  have hconcludes : Concludes sources s (.inScope id localName) (.ok (some ⟨id, j⟩) s) :=
    .defined (.defined hm hj)
  have hleads : Leads sources (.exported id exported) s [.exported id exported]
      (.inScope id localName) s := .onward .start (.here hm he)
  exact ⟨⟨_, _, _, hleads, rfl, hconcludes⟩, hconcludes.follow_eq List.not_mem_nil⟩

/-- A module that defines one of the names of an exported pattern again. -/
def redefinedText : String :=
  "export const { a: [b, ...c], d = b } = x; export default class {} function c() {}"

/-- The first statement exports `c`, and the search for it ends at the last one. -/
theorem Module.declared_export_defined_redefined : ∃ m,
    Module.read (.ofText "/m.js") redefinedText = .ok m ∧
    m.exports.find? "c" = some ⟨"c", .here (some 0)⟩ ∧
    ∀ (sources : Sources) (id : Nat) (s : Store), s.modules[id]? = some m →
      resolveName sources id "c" s = .ok (some ⟨id, 2⟩) s := by
  have htables : ∃ m ∈ (Module.read (.ofText "/m.js") redefinedText).toOption,
      m.exports.find? "c" = some ⟨"c", .here (some 0)⟩ ∧
        m.definitions.find? "c" = some 2 := by
    decide +kernel
  obtain ⟨m, hm, he, hd⟩ := htables
  have hread := eq_ok_of_mem_toOption hm
  obtain ⟨-, j, hj, -, -, hresolve⟩ := Module.declared_export_defined hread he
  obtain rfl : j = 2 := Option.some.inj (hj.symm.trans hd)
  exact ⟨m, hread, he, fun sources id s hs => (hresolve sources id s hs).2⟩

end ModuleBundler

import ModuleBundler.Proofs.BoundNames
import ModuleBundler.Proofs.FreeNames
import ModuleBundler.Proofs.Tables

/-!
# ModuleBundler — names that collide

A name may be imported, passed on, exported and defined by several statements of one
module, in any order. Four rules say what becomes of it: a name that is imported twice
is an error, a name that is passed on gives way to an import and to an earlier one, and
of the exports and of the definitions of a name the last one holds.

* `IsLast` — the last of the statements that introduce a name.
* `Module.HoldsTables` — the tables of a module in terms of its statements alone.
* `Module.read_collisions` — when the module of an accepted text is refused, and what
  its tables hold otherwise.
-/

namespace ModuleBundler

-- ---------------------------------------------------------------------------
-- The last one
-- ---------------------------------------------------------------------------

/-- The position of the last member of a list that has a property. -/
def IsLast {α : Type} (P : α → Prop) (l : List α) (i : Nat) : Prop :=
  (∃ a, l[i]? = some a ∧ P a) ∧ ∀ j a, l[j]? = some a → P a → j ≤ i

theorem isLast_append_singleton {α : Type} {P : α → Prop} {l : List α} {a : α} {i : Nat} :
    IsLast P (l ++ [a]) i ↔ (P a ∧ i = l.length) ∨ (¬ P a ∧ IsLast P l i) := by
  have hlast : (l ++ [a])[l.length]? = some a := by simp
  have hearlier : ∀ {j : Nat} {b : α}, (l ++ [a])[j]? = some b →
      (l[j]? = some b ∧ j < l.length) ∨ (b = a ∧ j = l.length) := by
    intro j b hj
    have hlt := (List.getElem?_eq_some_iff.1 hj).1
    rw [List.length_append, List.length_singleton] at hlt
    by_cases h : j < l.length
    · rw [List.getElem?_append_left h] at hj
      exact .inl ⟨hj, h⟩
    · obtain rfl : j = l.length := by omega
      rw [hlast] at hj
      exact .inr ⟨(Option.some.inj hj).symm, rfl⟩
  have hold : ∀ {j : Nat} {b : α}, l[j]? = some b → (l ++ [a])[j]? = some b := by
    intro j b hj
    rw [List.getElem?_append_left (List.getElem?_eq_some_iff.1 hj).1, hj]
  constructor
  · rintro ⟨⟨b, hb, hP⟩, hmax⟩
    by_cases ha : P a
    · have hle := hmax _ a hlast ha
      rcases hearlier hb with ⟨-, hlt⟩ | ⟨-, hi⟩
      · omega
      · exact .inl ⟨ha, hi⟩
    · rcases hearlier hb with ⟨hb, -⟩ | ⟨rfl, -⟩
      · exact .inr ⟨ha, ⟨b, hb, hP⟩, fun j c hc => hmax j c (hold hc)⟩
      · exact absurd hP ha
  · rintro (⟨ha, rfl⟩ | ⟨ha, ⟨b, hb, hP⟩, hmax⟩)
    · refine ⟨⟨a, hlast, ha⟩, fun j b hj _ => ?_⟩
      rcases hearlier hj with ⟨-, hlt⟩ | ⟨-, heq⟩ <;> omega
    · refine ⟨⟨b, hold hb, hP⟩, fun j c hj hc => ?_⟩
      rcases hearlier hj with ⟨hj, -⟩ | ⟨rfl, -⟩
      · exact hmax j c hj hc
      · exact absurd hc ha

/-- If there is one, there is a last one. -/
theorem exists_isLast {α : Type} {P : α → Prop} {l : List α} {i : Nat} {a : α}
    (ha : l[i]? = some a) (hP : P a) : ∃ j, IsLast P l j ∧ i ≤ j := by
  suffices h : ∃ j, IsLast P l j by
    obtain ⟨j, hj⟩ := h
    exact ⟨j, hj, hj.2 i a ha hP⟩
  have hmem : a ∈ l := List.mem_of_getElem? ha
  clear ha
  induction l using List.reverseRecOn with
  | nil => cases hmem
  | append_singleton l last ih =>
    by_cases hlast : P last
    · exact ⟨_, isLast_append_singleton.2 (.inl ⟨hlast, rfl⟩)⟩
    · have hbefore : a ∈ l := by
        rcases List.mem_append.1 hmem with h | h
        · exact h
        · exact absurd (List.mem_singleton.1 h ▸ hP) hlast
      obtain ⟨j, hj⟩ := ih hbefore
      exact ⟨j, isLast_append_singleton.2 (.inr ⟨hlast, hj⟩)⟩

/-- The last entry for a name is that of the last statement with one, if statements enter
their own positions. -/
theorem lookup_eq_some_iff_isLast {entries : Statement → List (String × Nat)} {name : String}
    {P : Statement → Prop} {statements : List Statement}
    (hmem : ∀ s ∈ statements, ∀ i, (name, i) ∈ entries s ↔ P s ∧ i = s.index)
    (hindex : ∀ {i : Nat} {s : Statement}, statements[i]? = some s → s.index = i) {i : Nat} :
    (statements.flatMap entries).reverse.lookup name = some i ↔ IsLast P statements i := by
  induction statements using List.reverseRecOn with
  | nil => simp [IsLast]
  | append_singleton l last ih =>
    have hindex' : last.index = l.length := hindex (by simp)
    have hlast := hmem last (by simp)
    have hearlier := ih (fun s hs => hmem s (List.mem_append_left _ hs)) fun h =>
      hindex (by rw [List.getElem?_append_left (List.getElem?_eq_some_iff.1 h).1, h])
    rw [isLast_append_singleton, ← hearlier, List.flatMap_append, List.flatMap_singleton,
      List.reverse_append, List.lookup_append]
    by_cases hP : P last
    · have hsome : (entries last).reverse.lookup name = some last.index := by
        have hin : (name, last.index) ∈ entries last := (hlast _).2 ⟨hP, rfl⟩
        obtain ⟨v, hv⟩ := Option.isSome_iff_exists.1 (List.lookup_isSome_iff.2
          ⟨_, List.mem_reverse.2 hin, beq_self_eq_true name⟩)
        rw [hv, ((hlast _).1 (List.mem_reverse.1 (NameTable.mem_of_lookup hv))).2]
      rw [hsome, Option.some_or, hindex']
      simp [hP, eq_comm]
    · have hnone : (entries last).reverse.lookup name = none :=
        NameTable.lookup_eq_none fun v hv => hP ((hlast v).1 (List.mem_reverse.1 hv)).1
      rw [hnone, Option.none_or]
      simp [hP]

-- ---------------------------------------------------------------------------
-- Statements of a text
-- ---------------------------------------------------------------------------

theorem Statement.index_of_statementsOf {text : String} {id i : Nat} {s : Statement}
    (h : (statementsOf text id)[i]? = some s) : s.index = i := by
  unfold statementsOf at h
  split at h
  · exact (Node.numbers_statements h).2
  · cases h

/-- Exports without a declaration declare nothing. -/
theorem Node.outward_of_isExportList {n : Node} (h : n.isExportList = true) :
    n.outward .hoisting = [] := by
  obtain ⟨span, form⟩ := n
  rw [outward_eq]
  cases form with
  | exportNamed declaration specifiers source =>
    cases declaration with
    | none => rfl
    | some _ => cases h
  | exportAll _ _ => rfl
  | _ => cases h

/-- Statements that carry no code define nothing. -/
theorem Statement.not_isDeclarationOnly_of_defines {text : String} {id : Nat} {st : Statement}
    (hst : st ∈ statementsOf text id) {name : String} (h : name ∈ st.defines) :
    st.isDeclarationOnly = false := by
  obtain ⟨himport, d, hd, -⟩ := (Statement.mem_defines_iff hst name).1 h
  have hlist : st.node.isExportList = false := by
    by_contra hlist
    rw [Node.outward_of_isExportList (Bool.eq_true_of_not_eq_false hlist)] at hd
    cases hd
  rw [Statement.isDeclarationOnly, himport, hlist]
  rfl

/-- A statement that introduces a name carries code. -/
theorem Statement.Introduces.not_isDeclarationOnly {text : String} {id : Nat} {st : Statement}
    (hst : st ∈ statementsOf text id) {name : String} (h : st.Introduces name) :
    st.isDeclarationOnly = false := by
  rcases h with h | ⟨-, h⟩
  · exact not_isDeclarationOnly_of_defines hst h
  · obtain ⟨moduleId, index, ⟨span, form⟩, view, analysis⟩ := st
    cases form with
    | exportDefault declaration => rfl
    | _ => cases h

/-- No statement of a text defines `default`. -/
theorem Statement.default_not_mem_defines {text : String} {id : Nat} {st : Statement}
    (hst : st ∈ statementsOf text id) : "default" ∉ st.defines := by
  intro h
  obtain ⟨-, d, hd, hname⟩ := (Statement.mem_defines_iff hst _).1 h
  obtain ⟨tree, body, hparse, hbody, view, i, node, hnode, rfl⟩ := exists_ofNode_of_mem hst
  have hkid : node ∈ tree.kids := by
    rw [Node.kids, hbody]
    simpa [Form.children] using hnode
  obtain ⟨m, hm, hident⟩ := (Node.exists_identifier_of_outward hd).of_kid hkid
  exact Node.identifierName_ne_reserved hparse hm hident (k := .defaultKw) rfl hname

-- ---------------------------------------------------------------------------
-- Tables
-- ---------------------------------------------------------------------------

/-- The last entry for a name among the definitions is the last statement that introduces it. -/
theorem Bindings.definitions_ofEntries {text : String} {id : Nat} {name : String} {i : Nat} :
    (ofEntries (statementsOf text id)).definitions.find? name = some i ↔
      IsLast (·.Introduces name) (statementsOf text id) i := by
  have hfind : (ofEntries (statementsOf text id)).definitions.find? name =
      (((statementsOf text id).flatMap Statement.definedEntries).reverse.lookup name).or
        (((statementsOf text id).flatMap Statement.defaultEntries).reverse.lookup name) := by
    rw [ofEntries, NameTable.find?_insertAll, NameTable.find?_insertAll, NameTable.find?_empty,
      Option.or_none]
  by_cases hname : name = "default"
  · have hnone : ((statementsOf text id).flatMap Statement.definedEntries).reverse.lookup name =
        none := by
      refine NameTable.lookup_eq_none fun v hv => ?_
      obtain ⟨s, hs, hmem⟩ := List.mem_flatMap.1 (List.mem_reverse.1 hv)
      have hdefines := (Statement.mem_definedEntries.1 hmem).1
      rw [hname] at hdefines
      exact Statement.default_not_mem_defines hs hdefines
    rw [hfind, hnone, Option.none_or]
    refine lookup_eq_some_iff_isLast (fun s hs j => ?_) Statement.index_of_statementsOf
    rw [Statement.mem_defaultEntries, Statement.Introduces, hname,
      or_iff_right (Statement.default_not_mem_defines hs)]
  · have hnone : ((statementsOf text id).flatMap Statement.defaultEntries).reverse.lookup name =
        none := by
      refine NameTable.lookup_eq_none fun v hv => ?_
      obtain ⟨s, -, hmem⟩ := List.mem_flatMap.1 (List.mem_reverse.1 hv)
      exact hname (Statement.mem_defaultEntries.1 hmem).1.1
    rw [hfind, hnone, Option.or_none]
    refine lookup_eq_some_iff_isLast (fun s _ j => ?_) Statement.index_of_statementsOf
    rw [Statement.mem_definedEntries, Statement.Introduces,
      or_iff_left fun h => hname h.1]

/-- The tables of a module in terms of its statements. -/
structure Module.HoldsTables (m : Module) (statements : List Statement) : Prop where
  statements_eq : m.statements = statements.toArray
  /-- An import declaration comes first, and then the first list that passes the name on. -/
  imports : ∀ name, m.imports.find? name =
    ((statements.flatMap Statement.explicitImports).lookup name).or
      ((statements.flatMap Statement.passedImports).lookup name)
  /-- The last export of a name holds. -/
  exports : ∀ name, m.exports.find? name =
    (statements.flatMap Statement.exportEntries).reverse.lookup name
  starExports : m.starExports = statements.filterMap Statement.starSource?
  /-- The last statement that introduces a name holds. -/
  definitions : ∀ name i,
    m.definitions.find? name = some i ↔ IsLast (·.Introduces name) statements i
  /-- A default export without a name shares its name with no other definition. -/
  default_not_mem : ∀ s ∈ statements, "default" ∉ s.defines
  /-- A definition is a statement of the module, and neither an import nor an export list. -/
  definition_hasCode : ∀ name i, m.definitions.find? name = some i →
    ∃ s, m.statement? i = some s ∧ s.isDeclarationOnly = false

theorem Module.holdsTables {path : Path} {text : String} {id : Nat} {m : Module}
    (h : Module.read path text id = .ok m) : m.HoldsTables (statementsOf text id) := by
  obtain ⟨program, hparse, hb, -, hs, -⟩ := Module.read_eq_ok h
  have hstatements : statementsOf text id = program.statements text id := by
    rw [statementsOf, hparse]
  rw [← hstatements] at hb hs
  obtain ⟨hnodup, htables⟩ := Bindings.ofStatements_eq_ok.1 hb
  have hdefinitions : ∀ name i, m.definitions.find? name = some i ↔
      IsLast (·.Introduces name) (statementsOf text id) i := by
    intro name i
    rw [htables]
    exact Bindings.definitions_ofEntries
  refine ⟨hs, fun name => ?_, fun name => ?_, ?_, hdefinitions,
    fun s hs => Statement.default_not_mem_defines hs, fun name i hi => ?_⟩
  · rw [htables, Bindings.ofEntries, NameTable.find?_insertAllIfNew, NameTable.find?_insertAll,
      NameTable.find?_empty, Option.or_none, NameTable.lookup_reverse hnodup]
  · rw [htables, Bindings.ofEntries, NameTable.find?_insertAll, NameTable.find?_empty,
      Option.or_none]
  · rw [htables, Bindings.ofEntries]
  · obtain ⟨⟨s, hat, hintroduces⟩, -⟩ := (hdefinitions name i).1 hi
    refine ⟨s, ?_, hintroduces.not_isDeclarationOnly (List.mem_of_getElem? hat)⟩
    rw [Module.statement?, hs, List.getElem?_toArray, hat]

/-- The module of an accepted text is refused if and only if import declarations bind a
name twice, with the first name that comes up again. Otherwise there is a module, and
the tables of the module follow the rules on names that collide. -/
theorem Module.read_collisions (path : Path) {text : String} (id : Nat) {program : Node}
    (h : Node.parse text = .ok program) :
    (∀ e, Module.read path text id = .error e ↔ ∃ name,
      FirstRepeated (Bindings.explicitNames (program.statements text id)) name ∧
        e = .duplicateBinding path name) ∧
    ((∃ name, FirstRepeated (Bindings.explicitNames (program.statements text id)) name) ↔
      ¬ (Bindings.explicitNames (program.statements text id)).Nodup) ∧
    ((Bindings.explicitNames (program.statements text id)).Nodup →
      ∃ m, Module.read path text id = .ok m ∧ m.path = path ∧
        m.HoldsTables (program.statements text id)) := by
  refine ⟨fun e => ?_, exists_firstRepeated_iff _, fun hnodup => ?_⟩
  · rw [← Bindings.ofStatements_eq_error, Module.read_of_parse path id h]
    cases Bindings.ofStatements path (program.statements text id) <;> simp [Except.map]
  · have hread : Module.read path text id = .ok ⟨Bindings.ofEntries (program.statements text id),
        id, path, (program.statements text id).toArray⟩ := by
      rw [Module.read_of_parse path id h, Bindings.ofStatements_of_nodup path hnodup]
      rfl
    have htables := Module.holdsTables hread
    rw [statementsOf, h] at htables
    exact ⟨_, hread, rfl, htables⟩

/-- A module in which an import follows a list that would claim its name. -/
def collidingText : String :=
  "export { a } from './x.js'; export default 1; import a from './y.js'; " ++
    "export default function f() {} var f; export default 2;"

/-- Two names are imported again, `b` before `a`. -/
def repeatingText : String :=
  "import a, { b } from './x.js'; import { c as b, d as a } from './y.js';"

/-- An import holds against a list in front of it, and the last one of some default exports
and definitions holds. Of names that are imported again, the first to come up is an error. -/
theorem Module.read_collisions_reordered :
    (∃ m, Module.read (.ofText "/m.js") collidingText = .ok m ∧
      m.imports.find? "a" = some ⟨"./y.js", "default"⟩ ∧
      m.exports.find? "default" = some ⟨"default", .here (some 5)⟩ ∧
      m.definitions.find? "default" = some 5) ∧
    Module.read (.ofText "/m.js") repeatingText =
      .error (.duplicateBinding (.ofText "/m.js") "b") := by
  have hcolliding : ∃ program ∈ (Node.parse collidingText).toOption,
      (Bindings.explicitNames (program.statements collidingText)).Nodup ∧
      (((program.statements collidingText).flatMap Statement.explicitImports).lookup "a").or
        (((program.statements collidingText).flatMap Statement.passedImports).lookup "a") =
          some ⟨"./y.js", "default"⟩ ∧
      ((program.statements collidingText).flatMap Statement.exportEntries).reverse.lookup
        "default" = some ⟨"default", .here (some 5)⟩ ∧
      (program.statements collidingText).length = 6 ∧
      ∃ s ∈ (program.statements collidingText)[5]?, s.isUnnamedDefault = true := by
    decide +kernel
  have hrepeating : ∃ program ∈ (Node.parse repeatingText).toOption,
      Bindings.explicitNames (program.statements repeatingText) = ["a", "b", "b", "a"] := by
    decide +kernel
  constructor
  · obtain ⟨program, hprogram, hnodup, himports, hexports, hlength, s, hs, hdefault⟩ := hcolliding
    have hparse := eq_ok_of_mem_toOption hprogram
    obtain ⟨m, hread, -, htables⟩ := (Module.read_collisions (.ofText "/m.js") 0 hparse).2.2 hnodup
    refine ⟨m, hread, (htables.imports "a").trans himports, (htables.exports _).trans hexports,
      (htables.definitions "default" 5).2 ⟨⟨s, hs, .inr ⟨rfl, hdefault⟩⟩, fun j _ hj _ => ?_⟩⟩
    have hlt := (List.getElem?_eq_some_iff.1 hj).1
    omega
  · obtain ⟨program, hprogram, hnames⟩ := hrepeating
    have hparse := eq_ok_of_mem_toOption hprogram
    refine ((Module.read_collisions (.ofText "/m.js") 0 hparse).1 _).2 ⟨"b", ?_, rfl⟩
    rw [hnames]
    exact ⟨["a", "b"], ["a"], rfl, by decide, by decide⟩

end ModuleBundler

import ModuleBundler.Proofs.Entries

/-!
# ModuleBundler — what the tables of a module hold

* `Module.definition_lt` — a definition is the position of a statement.
* `Module.exists_of_import` — an imported name is one that some statement imports.
-/

namespace ModuleBundler

/-- The names that a statement imports: those that an import declaration binds, of which
there may be none, or those that a list exports from another module. -/
def Statement.importedNames (s : Statement) : List String :=
  match s.node.form with
  | .importDeclaration specifiers _ => specifiers.map (·.localName)
  | .exportNamed none specifiers (some _) => specifiers.map (·.localName)
  | _ => []

theorem Statement.importedNames_eq (s : Statement) :
    s.importedNames = (s.explicitImports ++ s.passedImports).map Prod.fst := by
  obtain ⟨moduleId, index, ⟨span, form⟩, view, analysis⟩ := s
  cases form with
  | importDeclaration specifiers source =>
    show specifiers.map _ = (specifiers.map _ ++ []).map _
    rw [List.append_nil, List.map_map]
    rfl
  | exportNamed declaration specifiers source =>
    cases declaration with
    | some _ => rfl
    | none =>
      cases source with
      | none => rfl
      | some source =>
        show specifiers.map _ = (specifiers.map _).map _
        rw [List.map_map]
        rfl
  | _ => rfl

/-- An imported name is one that some statement imports. -/
theorem Bindings.exists_of_import {statements : List Statement} {name : String}
    {binding : ImportBinding} (h : (ofEntries statements).imports.find? name = some binding) :
    ∃ s ∈ statements, name ∈ s.importedNames := by
  have hentry : ∃ s ∈ statements, (name, binding) ∈ s.explicitImports ++ s.passedImports := by
    rcases NameTable.mem_of_find?_insertAllIfNew h with h | h
    · rcases NameTable.mem_of_find?_insertAll h with h | h
      · obtain ⟨s, hs, hmem⟩ := List.mem_flatMap.1 h
        exact ⟨s, hs, List.mem_append_left _ hmem⟩
      · cases h
    · obtain ⟨s, hs, hmem⟩ := List.mem_flatMap.1 h
      exact ⟨s, hs, List.mem_append_right _ hmem⟩
  obtain ⟨s, hs, hmem⟩ := hentry
  refine ⟨s, hs, ?_⟩
  rw [s.importedNames_eq]
  exact List.mem_map_of_mem hmem

-- ---------------------------------------------------------------------------
-- Modules
-- ---------------------------------------------------------------------------

/-- What is found by evaluation is what a computation yields. -/
theorem eq_ok_of_mem_toOption {ε α : Type} {x : Except ε α} {a : α} (h : a ∈ x.toOption) :
    x = .ok a := by
  cases x with
  | error e => cases h
  | ok b => rw [Option.some.inj h]

/-- A statement carries the number of its module, and is at its own position. -/
theorem Node.numbers_statements {program : Node} {text : String} {id i : Nat} {s : Statement}
    (h : (program.statements text id)[i]? = some s) : s.moduleId = id ∧ s.index = i := by
  rw [Node.statements] at h
  split at h
  · rw [List.getElem?_mapIdx] at h
    obtain ⟨node, -, rfl⟩ := Option.map_eq_some_iff.1 h
    exact ⟨rfl, rfl⟩
  · cases h

/-- The module of an accepted text is made of the tables of its statements. -/
theorem Module.read_of_parse (path : Path) {text : String} (id : Nat) {program : Node}
    (h : Node.parse text = .ok program) : Module.read path text id =
      (Bindings.ofStatements path (program.statements text id)).map
        (⟨·, id, path, (program.statements text id).toArray⟩) := by
  rw [Module.read, h]
  show Bindings.ofStatements path _ >>= _ = _
  cases Bindings.ofStatements path (program.statements text id) <;> rfl

/-- What a module that was read consists of. -/
theorem Module.read_eq_ok {path : Path} {text : String} {id : Nat} {m : Module}
    (h : Module.read path text id = .ok m) : ∃ program, Node.parse text = .ok program ∧
      Bindings.ofStatements path (program.statements text id) = .ok m.toBindings ∧
      m.path = path ∧ m.statements = (program.statements text id).toArray ∧ m.id = id := by
  cases hparse : Node.parse text with
  | error d =>
    rw [Module.read, hparse] at h
    cases h
  | ok program =>
    rw [Module.read_of_parse path id hparse] at h
    cases hb : Bindings.ofStatements path (program.statements text id) with
    | error e =>
      rw [hb] at h
      cases h
    | ok b =>
      rw [hb] at h
      cases h
      exact ⟨program, rfl, hb, rfl, rfl, rfl⟩

/-- The statement that defines a name is one of the module. -/
theorem Module.definition_lt {path : Path} {text : String} {id : Nat} {m : Module}
    (h : Module.read path text id = .ok m) {name : String} {i : Nat}
    (hi : m.definitions.find? name = some i) : i < m.statements.size := by
  obtain ⟨program, -, hb, -, hs, -⟩ := Module.read_eq_ok h
  rw [(Bindings.ofStatements_eq_ok.1 hb).2] at hi
  obtain ⟨s, hmem, -, rfl⟩ := Bindings.exists_of_definition hi
  obtain ⟨j, hj⟩ := List.mem_iff_getElem?.1 hmem
  rw [hs, List.size_toArray, (Node.numbers_statements hj).2]
  exact (List.getElem?_eq_some_iff.1 hj).1

/-- An imported name is one that some statement of the module imports. -/
theorem Module.exists_of_import {path : Path} {text : String} {id : Nat} {m : Module}
    (h : Module.read path text id = .ok m) {name : String} {binding : ImportBinding}
    (hi : m.imports.find? name = some binding) :
    ∃ s ∈ m.statements.toList, name ∈ s.importedNames := by
  obtain ⟨program, -, hb, -, hs, -⟩ := Module.read_eq_ok h
  rw [(Bindings.ofStatements_eq_ok.1 hb).2] at hi
  rw [hs]
  exact Bindings.exists_of_import hi

/-- A module that was read carries its number, and so do its statements, each of them with its
own position. -/
theorem Module.numbers_of_read {path : Path} {text : String} {id : Nat} {m : Module}
    (h : Module.read path text id = .ok m) :
    m.id = id ∧ ∀ {i : Nat} {st : Statement}, m.statement? i = some st →
      st.moduleId = id ∧ st.index = i := by
  obtain ⟨program, -, -, -, hs, hid⟩ := Module.read_eq_ok h
  refine ⟨hid, fun {i st} hst => ?_⟩
  rw [Module.statement?, hs, List.getElem?_toArray] at hst
  exact Node.numbers_statements hst

end ModuleBundler

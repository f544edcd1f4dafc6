import Mathlib.Data.List.Basic
import Mathlib.Data.List.Induction
import ModuleBundler.Module.Basic

/-!
# ModuleBundler — the tables of a module as lists of entries

The tables of a module are filled in three passes over its statements: imports, then
exports, then definitions. What a pass enters into a table can be listed statement by
statement, and then a table is known by two rules of lookup: of entries that replace
each other the last one holds, and of entries that give way the first one.

* `Statement.explicitImports`, `passedImports`, `exportEntries`, `starSource?`,
  `defaultEntries`, `definedEntries` — what a statement enters.
* `NameTable.find?_insertAll`, `NameTable.find?_insertAllIfNew` — the rules of lookup.
* `Bindings.foldlM_importEntry_eq_error` — a name that is imported again ends the first pass.
* `Bindings.ofStatements_eq_ok` — the tables by their entries, for distinct imports.
-/

namespace ModuleBundler

-- ---------------------------------------------------------------------------
-- Lookup
-- ---------------------------------------------------------------------------

namespace NameTable

variable {β : Type}

/-- Gives values to names, one after the other. -/
def insertAll (t : NameTable β) (entries : List (String × β)) : NameTable β :=
  entries.foldl (fun t e => t.insert e.1 e.2) t

/-- Gives values to names that have none, one after the other. -/
def insertAllIfNew (t : NameTable β) (entries : List (String × β)) : NameTable β :=
  entries.foldl (fun t e => t.insertIfNew e.1 e.2) t

theorem insertAll_append (t : NameTable β) (l m : List (String × β)) :
    t.insertAll (l ++ m) = (t.insertAll l).insertAll m := List.foldl_append

theorem insertAllIfNew_append (t : NameTable β) (l m : List (String × β)) :
    t.insertAllIfNew (l ++ m) = (t.insertAllIfNew l).insertAllIfNew m := List.foldl_append

/-- A name has the last value that it was given. -/
theorem find?_insertAll (t : NameTable β) (entries : List (String × β)) (name : String) :
    (t.insertAll entries).find? name = (entries.reverse.lookup name).or (t.find? name) := by
  induction entries generalizing t with
  | nil => rfl
  | cons e rest ih =>
    have hstep : (t.insertAll (e :: rest)).find? name =
        ((t.insert e.1 e.2).insertAll rest).find? name := rfl
    rw [hstep, ih, List.reverse_cons, List.lookup_append, Option.or_assoc, find?_insert,
      List.lookup_cons]
    congr 1
    by_cases h : name = e.1
    · simp [h]
    · have hne : (name == e.1) = false := beq_false_of_ne h
      rw [if_neg h, hne]
      rfl

theorem find?_insertIfNew (t : NameTable β) (name : String) (value : β) (other : String) :
    (t.insertIfNew name value).find? other =
      (t.find? other).or (if other = name then some value else none) := by
  unfold insertIfNew contains
  split
  · case isTrue h =>
    split
    · case isTrue hname =>
      rw [hname, Option.or_of_isSome h]
    · rw [Option.or_none]
  · case isFalse h =>
    rw [find?_insert]
    split
    · case isTrue hname =>
      rw [hname, Option.not_isSome_iff_eq_none.1 h, Option.none_or]
    · rw [Option.or_none]

/-- A name that has no value has the first one that it is given. -/
theorem find?_insertAllIfNew (t : NameTable β) (entries : List (String × β)) (name : String) :
    (t.insertAllIfNew entries).find? name = (t.find? name).or (entries.lookup name) := by
  induction entries generalizing t with
  | nil => exact Option.or_none.symm
  | cons e rest ih =>
    have hstep : (t.insertAllIfNew (e :: rest)).find? name =
        ((t.insertIfNew e.1 e.2).insertAllIfNew rest).find? name := rfl
    rw [hstep, ih, find?_insertIfNew, Option.or_assoc, List.lookup_cons]
    congr 1
    by_cases h : name = e.1
    · simp [h]
    · have hne : (name == e.1) = false := beq_false_of_ne h
      rw [if_neg h, hne, Option.none_or]

theorem mem_of_lookup {entries : List (String × β)} {name : String} {value : β}
    (h : entries.lookup name = some value) : (name, value) ∈ entries := by
  obtain ⟨before, after, rfl, -⟩ := List.lookup_eq_some_iff.1 h
  exact List.mem_append_right _ List.mem_cons_self

theorem lookup_eq_none {entries : List (String × β)} {name : String}
    (h : ∀ value, (name, value) ∉ entries) : entries.lookup name = none := by
  refine List.lookup_eq_none_iff.2 fun e he => bne_iff_ne.2 ?_
  rintro rfl
  exact h e.2 he

theorem mem_of_find?_insertAll {t : NameTable β} {entries : List (String × β)} {name : String}
    {value : β} (h : (t.insertAll entries).find? name = some value) :
    (name, value) ∈ entries ∨ t.find? name = some value := by
  rw [find?_insertAll, Option.or_eq_some_iff] at h
  exact h.imp (fun h => List.mem_reverse.1 (mem_of_lookup h)) And.right

theorem mem_of_find?_insertAllIfNew {t : NameTable β} {entries : List (String × β)}
    {name : String} {value : β} (h : (t.insertAllIfNew entries).find? name = some value) :
    t.find? name = some value ∨ (name, value) ∈ entries := by
  rw [find?_insertAllIfNew, Option.or_eq_some_iff] at h
  exact h.imp_right fun h => mem_of_lookup h.2

/-- Among entries with different names, each one is found. -/
theorem lookup_of_mem {entries : List (String × β)} (h : (entries.map Prod.fst).Nodup)
    {name : String} {value : β} (hmem : (name, value) ∈ entries) :
    entries.lookup name = some value := by
  induction entries with
  | nil => cases hmem
  | cons e rest ih =>
    rw [List.map_cons, List.nodup_cons] at h
    rw [List.lookup_cons]
    rcases List.mem_cons.1 hmem with rfl | hmem
    · simp
    · have hne : (name == e.1) = false :=
        beq_false_of_ne fun heq => h.1 (heq ▸ List.mem_map_of_mem hmem)
      rw [hne]
      exact ih h.2 hmem

/-- Among entries with different names, it does not matter which one is the last. -/
theorem lookup_reverse {entries : List (String × β)} (h : (entries.map Prod.fst).Nodup)
    (name : String) : entries.reverse.lookup name = entries.lookup name := by
  induction entries with
  | nil => rfl
  | cons e rest ih =>
    rw [List.map_cons, List.nodup_cons] at h
    rw [List.reverse_cons, List.lookup_append, ih h.2, List.lookup_cons, List.lookup_cons]
    by_cases hname : name = e.1
    · have hnone : rest.lookup name = none :=
        lookup_eq_none fun value hmem => h.1 (hname ▸ List.mem_map_of_mem hmem)
      rw [hnone, hname]
      simp
    · have hne : (name == e.1) = false := beq_false_of_ne hname
      simp [hne]

end NameTable

-- ---------------------------------------------------------------------------
-- Entries
-- ---------------------------------------------------------------------------

/-- What a name of an export list exports. -/
def ExportSpecifier.entry (source : Option String) (e : ExportSpecifier) :
    String × ExportBinding :=
  (e.exported, ⟨e.localName, source.elim (.here none) (.reexport · e.localName)⟩)

/-- What an export declares is what the scoping of its declaration says. -/
theorem Node.declarationNames_eq (n : Node) : n.declarationNames = n.declares.names := by
  obtain ⟨span, form⟩ := n
  cases form with
  | variableDeclaration kind ds =>
    show (ds.filterMap declaredPattern?).flatMap boundNames = ds.flatMap declaratorNames
    rw [List.filterMap_eq_flatMap_toList, List.flatMap_assoc]
    refine List.flatMap_congr fun d _ => ?_
    obtain ⟨span, form⟩ := d
    cases form with
    | variableDeclarator target value => exact List.flatMap_singleton boundNames target
    | _ => rfl
  | _ => rfl

namespace Statement

/-- The names that an import declaration binds, with where they come from. -/
def explicitImports (s : Statement) : List (String × ImportBinding) :=
  match s.node.form with
  | .importDeclaration specifiers source =>
    specifiers.map fun i => (i.localName, ⟨source, i.imported⟩)
  | _ => []

/-- The local names of a list that exports from another module. -/
def passedImports (s : Statement) : List (String × ImportBinding) :=
  match s.node.form with
  | .exportNamed none specifiers (some source) =>
    specifiers.map fun e => (e.localName, ⟨source, e.localName⟩)
  | _ => []

/-- The names that a statement exports, with what they stand for. -/
def exportEntries (s : Statement) : List (String × ExportBinding) :=
  match s.node.form with
  | .exportDefault declaration =>
    [("default", ⟨declaration.declaredName?.getD "default", .here (some s.index)⟩)]
  | .exportNamed (some declaration) _ _ =>
    declaration.declares.names.map fun name => (name, ⟨name, .here (some s.index)⟩)
  | .exportNamed none specifiers source => specifiers.map (ExportSpecifier.entry source)
  | .exportAll (some name) source => [(name, ⟨name, .wholeModule source⟩)]
  | _ => []

/-- The source of an `export *` without a name. -/
def starSource? (s : Statement) : Option String :=
  match s.node.form with
  | .exportAll none source => some source
  | _ => none

/-- Whether a statement is a default export of something that has no declared name. -/
def isUnnamedDefault (s : Statement) : Bool :=
  match s.node.form with
  | .exportDefault declaration => declaration.declaredName?.isNone
  | _ => false

/-- What a statement is the definition of, unless a later one is: the names it defines, and
`default` if it is a default export without a name. -/
def Introduces (s : Statement) (name : String) : Prop :=
  name ∈ s.defines ∨ (name = "default" ∧ s.isUnnamedDefault = true)

/-- The name `default` for the statement, if it is a default export without a name. -/
def defaultEntries (s : Statement) : List (String × Nat) :=
  if s.isUnnamedDefault then [("default", s.index)] else []

/-- The names that a statement defines, with the statement. -/
def definedEntries (s : Statement) : List (String × Nat) := s.defines.map (·, s.index)

theorem mem_defaultEntries {s : Statement} {name : String} {i : Nat} :
    (name, i) ∈ s.defaultEntries ↔
      (name = "default" ∧ s.isUnnamedDefault = true) ∧ i = s.index := by
  unfold defaultEntries
  split
  · simp [*]
  · simp [*]

theorem mem_definedEntries {s : Statement} {name : String} {i : Nat} :
    (name, i) ∈ s.definedEntries ↔ name ∈ s.defines ∧ i = s.index := by
  simp [definedEntries, eq_comm]

end Statement

-- ---------------------------------------------------------------------------
-- Imports
-- ---------------------------------------------------------------------------

namespace Bindings

/-- Adds an imported name with where it comes from. -/
def importEntry (path : Path) (b : Bindings) (e : String × ImportBinding) :
    Except BuildError Bindings :=
  if b.imports.contains e.1 then .error (.duplicateBinding path e.1)
  else .ok { b with imports := b.imports.insert e.1 e.2 }

theorem addImports_eq (path : Path) (b : Bindings) (s : Statement) :
    addImports path b s = s.explicitImports.foldlM (importEntry path) b := by
  obtain ⟨moduleId, index, ⟨span, form⟩, view, analysis⟩ := s
  cases form with
  | importDeclaration specifiers source =>
    show specifiers.foldlM _ b = (specifiers.map _).foldlM _ b
    rw [List.foldlM_map]
    rfl
  | _ => rfl

theorem foldlM_addImports_eq (path : Path) (b : Bindings) (statements : List Statement) :
    statements.foldlM (addImports path) b =
      (statements.flatMap Statement.explicitImports).foldlM (importEntry path) b := by
  induction statements generalizing b with
  | nil => rfl
  | cons s rest ih =>
    rw [List.foldlM_cons, List.flatMap_cons, List.foldlM_append, addImports_eq]
    exact congrArg _ (funext ih)

variable {path : Path} {b : Bindings} {entries : List (String × ImportBinding)}

/-- Names that are different from each other and not imported yet are all imported. -/
theorem foldlM_importEntry_eq_ok (hnodup : (entries.map Prod.fst).Nodup)
    (hnew : ∀ e ∈ entries, b.imports.find? e.1 = none) :
    entries.foldlM (importEntry path) b =
      .ok { b with imports := b.imports.insertAll entries } := by
  induction entries generalizing b with
  | nil => rfl
  | cons e rest ih =>
    obtain ⟨hnot, hnodup⟩ := List.nodup_cons.1 hnodup
    have hcontains : b.imports.contains e.1 = false := by
      rw [NameTable.contains, hnew e List.mem_cons_self]
      rfl
    have hstep : importEntry path b e = .ok { b with imports := b.imports.insert e.1 e.2 } := by
      rw [importEntry, hcontains]
      rfl
    rw [List.foldlM_cons, hstep]
    refine ih hnodup fun f hf => ?_
    rw [NameTable.find?_insert, if_neg, hnew f (List.mem_cons_of_mem e hf)]
    rintro heq
    exact hnot (heq ▸ List.mem_map_of_mem hf)

end Bindings

/-- The first name of a list that stands in it before. -/
def FirstRepeated (names : List String) (name : String) : Prop :=
  ∃ before after, names = before ++ name :: after ∧ before.Nodup ∧ name ∈ before

theorem exists_firstRepeated_iff (names : List String) :
    (∃ name, FirstRepeated names name) ↔ ¬ names.Nodup := by
  constructor
  · rintro ⟨name, before, after, rfl, -, hmem⟩ hnodup
    exact (List.nodup_append.1 hnodup).2.2 name hmem name List.mem_cons_self rfl
  · intro h
    induction names using List.reverseRecOn with
    | nil => exact absurd List.nodup_nil h
    | append_singleton l last ih =>
      by_cases hl : l.Nodup
      · refine ⟨last, l, [], rfl, hl, Classical.byContradiction fun hnot => h ?_⟩
        refine List.nodup_append.2 ⟨hl, by simp, fun a ha b hb hab => hnot ?_⟩
        rwa [← List.mem_singleton.1 hb, ← hab]
      · obtain ⟨name, before, after, rfl, hbefore⟩ := ih hl
        exact ⟨name, before, after ++ [last], by simp, hbefore⟩

namespace Bindings

variable {path : Path} {entries : List (String × ImportBinding)} {e : BuildError}

/-- The first name that is imported again is the one that the error is about. -/
theorem foldlM_importEntry_eq_error {name : String}
    (h : FirstRepeated (entries.map Prod.fst) name) :
    entries.foldlM (importEntry path) empty = .error (.duplicateBinding path name) := by
  obtain ⟨before, after, hnames, hnodup, hmem⟩ := h
  obtain ⟨first, rest, rfl, rfl, hrest⟩ := List.map_eq_append_iff.1 hnames
  obtain ⟨repeated, others, rfl, rfl, -⟩ := List.map_eq_cons_iff.1 hrest
  have hfirst : first.foldlM (importEntry path) empty =
      .ok { empty with imports := NameTable.empty.insertAll first } :=
    foldlM_importEntry_eq_ok hnodup fun _ _ => rfl
  have hcontains : (NameTable.empty.insertAll first).contains repeated.1 = true := by
    obtain ⟨f, hf, heq⟩ := List.mem_map.1 hmem
    rw [NameTable.contains, NameTable.find?_insertAll, NameTable.find?_empty, Option.or_none,
      List.lookup_isSome_iff]
    exact ⟨f, List.mem_reverse.2 hf, beq_iff_eq.2 heq.symm⟩
  rw [List.foldlM_append, hfirst]
  show (repeated :: others).foldlM (importEntry path) _ = _
  rw [List.foldlM_cons, importEntry, if_pos hcontains]
  rfl

-- ---------------------------------------------------------------------------
-- Exports and definitions
-- ---------------------------------------------------------------------------

theorem foldl_exportDeclared (i : Nat) (b : Bindings) (names : List String) :
    names.foldl (exportDeclared i) b =
      { b with
        exports :=
          b.exports.insertAll (names.map fun name => (name, ⟨name, .here (some i)⟩)) } := by
  induction names generalizing b with
  | nil => rfl
  | cons name rest ih => exact ih _

theorem foldl_exportListed (source : Option String) (b : Bindings) (l : List ExportSpecifier) :
    l.foldl (exportListed source) b =
      { b with
        imports := b.imports.insertAllIfNew
          (source.elim [] fun source => l.map fun e => (e.localName, ⟨source, e.localName⟩))
        exports := b.exports.insertAll (l.map (ExportSpecifier.entry source)) } := by
  induction l generalizing b with
  | nil => cases source <;> rfl
  | cons e rest ih =>
    rw [List.foldl_cons, ih]
    cases source <;> rfl

/-- What a statement exports goes into all four tables. -/
theorem addExports_eq (b : Bindings) (s : Statement) : b.addExports s =
    { imports := b.imports.insertAllIfNew s.passedImports
      exports := b.exports.insertAll s.exportEntries
      starExports := b.starExports ++ s.starSource?.toList
      definitions := b.definitions.insertAll s.defaultEntries } := by
  have hstars : b.starExports ++ [] = b.starExports := List.append_nil _
  obtain ⟨moduleId, index, ⟨span, form⟩, view, analysis⟩ := s
  cases form with
  | exportDefault declaration =>
    cases hname : declaration.declaredName? <;>
      simp only [addExports, Statement.passedImports, Statement.exportEntries,
        Statement.starSource?, Statement.defaultEntries, Statement.isUnnamedDefault, Node.form,
        hname, Option.toList_none, hstars] <;> rfl
  | exportNamed declaration specifiers source =>
    cases declaration with
    | some declaration =>
      show declaration.declarationNames.foldl (exportDeclared index) b = _
      rw [declaration.declarationNames_eq]
      refine (foldl_exportDeclared index b declaration.declares.names).trans ?_
      exact congrArg (Bindings.mk _ _ · _) hstars.symm
    | none =>
      refine (foldl_exportListed source b specifiers).trans ?_
      cases source <;> exact congrArg (Bindings.mk _ _ · _) hstars.symm
  | exportAll exported source =>
    cases exported with
    | none => rfl
    | some name => exact congrArg (Bindings.mk _ _ · _) hstars.symm
  | _ => exact congrArg (Bindings.mk _ _ · _) hstars.symm

theorem foldl_addExports (b : Bindings) (statements : List Statement) :
    statements.foldl addExports b =
      { imports := b.imports.insertAllIfNew (statements.flatMap Statement.passedImports)
        exports := b.exports.insertAll (statements.flatMap Statement.exportEntries)
        starExports := b.starExports ++ statements.filterMap Statement.starSource?
        definitions := b.definitions.insertAll (statements.flatMap Statement.defaultEntries) } := by
  induction statements generalizing b with
  | nil => exact congrArg (Bindings.mk _ _ · _) (List.append_nil _).symm
  | cons s rest ih =>
    have hstars : (s :: rest).filterMap Statement.starSource? =
        s.starSource?.toList ++ rest.filterMap Statement.starSource? := by
      rw [List.filterMap_cons]
      cases s.starSource? <;> rfl
    rw [List.foldl_cons, ih, addExports_eq, hstars]
    simp only [List.flatMap_cons, NameTable.insertAll_append, NameTable.insertAllIfNew_append,
      List.append_assoc]

theorem addDefinitions_eq (b : Bindings) (s : Statement) : b.addDefinitions s =
    { b with definitions := b.definitions.insertAll s.definedEntries } := by
  unfold addDefinitions Statement.definedEntries
  induction s.defines generalizing b with
  | nil => rfl
  | cons name rest ih => exact ih _

theorem foldl_addDefinitions (b : Bindings) (statements : List Statement) :
    statements.foldl addDefinitions b =
      { b with
        definitions := b.definitions.insertAll (statements.flatMap Statement.definedEntries) } := by
  induction statements generalizing b with
  | nil => rfl
  | cons s rest ih =>
    rw [List.foldl_cons, ih, addDefinitions_eq, List.flatMap_cons, NameTable.insertAll_append]

-- ---------------------------------------------------------------------------
-- All tables
-- ---------------------------------------------------------------------------

/-- The names that import declarations bind, in source order. -/
def explicitNames (statements : List Statement) : List String :=
  (statements.flatMap Statement.explicitImports).map Prod.fst

/-- The tables of statements whose import declarations bind distinct names. -/
def ofEntries (statements : List Statement) : Bindings where
  imports :=
    (NameTable.empty.insertAll (statements.flatMap Statement.explicitImports)).insertAllIfNew
      (statements.flatMap Statement.passedImports)
  exports := NameTable.empty.insertAll (statements.flatMap Statement.exportEntries)
  starExports := statements.filterMap Statement.starSource?
  definitions :=
    (NameTable.empty.insertAll (statements.flatMap Statement.defaultEntries)).insertAll
      (statements.flatMap Statement.definedEntries)

theorem ofStatements_of_nodup (path : Path) {statements : List Statement}
    (h : (explicitNames statements).Nodup) :
    ofStatements path statements = .ok (ofEntries statements) := by
  have himports : statements.foldlM (addImports path) empty = .ok
      { empty with
        imports := NameTable.empty.insertAll (statements.flatMap Statement.explicitImports) } := by
    rw [foldlM_addImports_eq]
    exact foldlM_importEntry_eq_ok h fun _ _ => rfl
  rw [ofStatements, himports]
  show Except.ok _ = _
  rw [foldl_addExports, foldl_addDefinitions]
  rfl

theorem ofStatements_of_repeated {path : Path} {statements : List Statement} {name : String}
    (h : FirstRepeated (explicitNames statements) name) :
    ofStatements path statements = .error (.duplicateBinding path name) := by
  rw [ofStatements, foldlM_addImports_eq, foldlM_importEntry_eq_error h]
  rfl

/-- There are tables if and only if the names of the import declarations are distinct. -/
theorem ofStatements_eq_ok {path : Path} {statements : List Statement} {b : Bindings} :
    ofStatements path statements = .ok b ↔
      (explicitNames statements).Nodup ∧ b = ofEntries statements := by
  by_cases h : (explicitNames statements).Nodup
  · rw [ofStatements_of_nodup path h, Except.ok.injEq]
    exact ⟨fun hb => ⟨h, hb.symm⟩, fun hb => hb.2.symm⟩
  · obtain ⟨name, hname⟩ := (exists_firstRepeated_iff _).2 h
    rw [ofStatements_of_repeated hname]
    exact ⟨nofun, fun hb => absurd hb.1 h⟩

/-- The only failure is a name that is imported again. -/
theorem ofStatements_eq_error {path : Path} {statements : List Statement} {e : BuildError} :
    ofStatements path statements = .error e ↔
      ∃ name, FirstRepeated (explicitNames statements) name ∧ e = .duplicateBinding path name := by
  constructor
  · intro h
    have hrepeated : ¬ (explicitNames statements).Nodup := by
      intro hnodup
      rw [ofStatements_of_nodup path hnodup] at h
      cases h
    obtain ⟨name, hname⟩ := (exists_firstRepeated_iff _).2 hrepeated
    rw [ofStatements_of_repeated hname] at h
    exact ⟨name, hname, (Except.error.inj h).symm⟩
  · rintro ⟨name, hname, rfl⟩
    exact ofStatements_of_repeated hname

/-- A definition is the position of a statement that introduces the name. -/
theorem exists_of_definition {statements : List Statement} {name : String} {i : Nat}
    (h : (ofEntries statements).definitions.find? name = some i) :
    ∃ s ∈ statements, s.Introduces name ∧ s.index = i := by
  rcases NameTable.mem_of_find?_insertAll h with h | h
  · obtain ⟨s, hs, hmem⟩ := List.mem_flatMap.1 h
    obtain ⟨hdefines, rfl⟩ := Statement.mem_definedEntries.1 hmem
    exact ⟨s, hs, .inl hdefines, rfl⟩
  · rcases NameTable.mem_of_find?_insertAll h with h | h
    · obtain ⟨s, hs, hmem⟩ := List.mem_flatMap.1 h
      obtain ⟨hdefault, rfl⟩ := Statement.mem_defaultEntries.1 hmem
      exact ⟨s, hs, .inr hdefault, rfl⟩
    · cases h

end Bindings

end ModuleBundler

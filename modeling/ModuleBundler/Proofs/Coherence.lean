import ModuleBundler.Bundle.Build
import ModuleBundler.Bundle.FileTable
import ModuleBundler.Proofs.Spelling
import Mathlib.Data.Fintype.Card

/-!
# ModuleBundler — what a store holds

A store is coherent when each kept module is what its file says, under the number of
its place, and no file is kept twice, under whatever spelling. Every store that a bundler reaches is
coherent, if its sources do not look at how a path is spelled and have room for
all the modules there are. Tables of files are such sources.

* `Module.numbered`, `Module.read_numbered` — a number changes nothing else.
* `Sources.moduleOf` — the module of a path, without a store.
* `Store.Coherent` — the invariant of stores.
* `Sources.Lawful` — what is asked of sources.
* `Sources.Uniform`, `Store.Within` — what is left of it when there may be more modules
  than there is room for, and the invariant then.
* `Store.Within.fetch` — fetching yields the module of the path, or fails as reading it
  fails or for want of room.
* `Store.Coherent.fetch` — the same with room for all modules.
* `FileTable.lawful_sources` — tables of files are lawful.
-/

namespace ModuleBundler

-- ---------------------------------------------------------------------------
-- Errors up to spelling
-- ---------------------------------------------------------------------------

/-- Errors that differ at most in how their path is spelled. -/
inductive BuildError.Alike : BuildError → BuildError → Prop
  | duplicateBinding {p q : Path} (h : p.same q = true) (name : String) :
    Alike (.duplicateBinding p name) (.duplicateBinding q name)
  | exportNotFound {p q : Path} (h : p.same q = true) (name : String) :
    Alike (.exportNotFound p name) (.exportNotFound q name)
  | unsupportedNamespace {p q : Path} (h : p.same q = true) (name : String) :
    Alike (.unsupportedNamespace p name) (.unsupportedNamespace q name)
  | circularReexport {p q : Path} (h : p.same q = true) (name : String) :
    Alike (.circularReexport p name) (.circularReexport q name)
  | notFound {p q : Path} (h : p.same q = true) : Alike (.notFound p) (.notFound q)
  | unreadable {p q : Path} (h : p.same q = true) (cause : String) :
    Alike (.unreadable p cause) (.unreadable q cause)
  | parse {p q : Path} (h : p.same q = true) (location : Text.Location) (message : String) :
    Alike (.parse p location message) (.parse q location message)

-- ---------------------------------------------------------------------------
-- The module of a text under two spellings
-- ---------------------------------------------------------------------------

/-- Two outcomes of which both are values or both are errors that are alike. -/
def SameOutcome {α : Type} (r : α → α → Prop) : Except BuildError α → Except BuildError α → Prop
  | .ok a, .ok b => r a b
  | .error e, .error e' => e.Alike e'
  | _, _ => False

namespace SameOutcome

variable {α β σ : Type}

theorem bind {r : α → α → Prop} {r' : β → β → Prop} {x y : Except BuildError α}
    {f g : α → Except BuildError β} (h : SameOutcome r x y)
    (hf : ∀ a b, r a b → SameOutcome r' (f a) (g b)) : SameOutcome r' (x >>= f) (y >>= g) := by
  cases x with
  | error e =>
    cases y with
    | error e' => exact h
    | ok b => exact h.elim
  | ok a =>
    cases y with
    | error e' => exact h.elim
    | ok b => exact hf a b h

theorem foldlM {f g : σ → α → Except BuildError σ}
    (h : ∀ b a, SameOutcome (· = ·) (f b a) (g b a)) (l : List α) (b : σ) :
    SameOutcome (· = ·) (l.foldlM f b) (l.foldlM g b) := by
  induction l generalizing b with
  | nil => exact rfl
  | cons a l ih =>
    rw [List.foldlM_cons, List.foldlM_cons]
    refine (h b a).bind fun c d hcd => ?_
    subst hcd
    exact ih c

end SameOutcome

namespace Bindings

variable {p q : Path}

theorem sameOutcome_addImport (h : p.same q = true) (source : String) (b : Bindings)
    (s : ImportSpecifier) :
    SameOutcome (· = ·) (addImport p source b s) (addImport q source b s) := by
  rw [addImport, addImport]
  split
  · exact .duplicateBinding h _
  · exact rfl

theorem sameOutcome_addImports (h : p.same q = true) (b : Bindings) (s : Statement) :
    SameOutcome (· = ·) (addImports p b s) (addImports q b s) := by
  rw [addImports, addImports]
  split
  · exact SameOutcome.foldlM (sameOutcome_addImport h _) _ b
  · exact rfl

/-- The tables of a module do not depend on the spelling of its path. -/
theorem sameOutcome_ofStatements (h : p.same q = true) (statements : List Statement) :
    SameOutcome (· = ·) (ofStatements p statements) (ofStatements q statements) := by
  refine (SameOutcome.foldlM (sameOutcome_addImports h) statements empty).bind fun b c hbc => ?_
  subst hbc
  exact rfl

end Bindings

-- ---------------------------------------------------------------------------
-- The module of a text under two numbers
-- ---------------------------------------------------------------------------

/-- A statement in the module of another number. -/
def Statement.numbered (moduleId : Nat) (s : Statement) : Statement := { s with moduleId }

/-- A module under another number. -/
def Module.numbered (id : Nat) (m : Module) : Module :=
  { m with id, statements := m.statements.map (Statement.numbered id) }

/-- The tables of a module do not depend on its number. -/
theorem Bindings.ofStatements_numbered (path : Path) (id : Nat) (statements : List Statement) :
    ofStatements path (statements.map (Statement.numbered id)) = ofStatements path statements := by
  rw [ofStatements, ofStatements, List.foldlM_map]
  refine congrArg (statements.foldlM (addImports path) empty >>= ·) (funext fun b => ?_)
  rw [List.foldl_map, List.foldl_map]
  rfl

theorem Node.statements_numbered (program : Node) (text : String) (i j : Nat) :
    (program.statements text i).map (Statement.numbered j) = program.statements text j := by
  rw [statements, statements]
  split
  · refine List.ext_getElem? fun k => ?_
    rw [List.getElem?_map, List.getElem?_mapIdx, List.getElem?_mapIdx, Option.map_map]
    rfl
  · rfl

/-- What is read does not depend on the number, but for the number itself. -/
theorem Module.read_numbered (path : Path) (text : String) (i j : Nat) :
    Module.read path text j = (Module.read path text i).map (Module.numbered j) := by
  rw [Module.read, Module.read]
  cases Node.parse text with
  | error d => rfl
  | ok program =>
    show Bindings.ofStatements path (program.statements text j) >>= _ =
      (Bindings.ofStatements path (program.statements text i) >>= _).map _
    rw [← program.statements_numbered text i j, Bindings.ofStatements_numbered]
    cases Bindings.ofStatements path (program.statements text i) with
    | error e => rfl
    | ok b =>
      show Except.ok _ = Except.ok (Module.numbered j _)
      rw [Module.numbered, List.map_toArray]

/-- Modules that differ at most in how their path is spelled and in their number. -/
structure Module.Alike (m n : Module) : Prop where
  path : m.path.same n.path = true
  bindings : m.toBindings = n.toBindings
  statements : m.statements.map (Statement.numbered 0) = n.statements.map (Statement.numbered 0)

/-- Reading a module depends on its path only for the path itself. -/
theorem Module.sameOutcome_read {p q : Path} (h : p.same q = true) (text : String) (i j : Nat) :
    SameOutcome (fun m n => m.path = p ∧ n.path = q ∧ m.Alike n)
      (Module.read p text i) (Module.read q text j) := by
  rw [Module.read, Module.read]
  cases Node.parse text with
  | error d => exact .parse h _ _
  | ok program =>
    have htables : Bindings.ofStatements q (program.statements text j) =
        Bindings.ofStatements q (program.statements text i) := by
      rw [← program.statements_numbered text i j, Bindings.ofStatements_numbered]
    show SameOutcome _ (Bindings.ofStatements p _ >>= _) (Bindings.ofStatements q _ >>= _)
    rw [htables]
    refine (Bindings.sameOutcome_ofStatements h _).bind fun b c hbc => ?_
    subst hbc
    refine ⟨rfl, rfl, h, rfl, ?_⟩
    simp only [List.map_toArray, Node.statements_numbered]

namespace Module.Alike

variable {m n : Module}

/-- Modules that are alike have the same statements, but for the number of their module. -/
theorem map_statement? (h : m.Alike n) (i : Nat) :
    (m.statement? i).map (Statement.numbered 0) = (n.statement? i).map (Statement.numbered 0) := by
  rw [statement?, statement?, ← Array.getElem?_map, ← Array.getElem?_map, h.statements]

/-- What does not depend on the number of its module holds of a statement in one module if it
does in the other. -/
theorem exists_statement_iff (h : m.Alike n) {P : Statement → Prop}
    (hP : ∀ st, P (st.numbered 0) ↔ P st) {i : Nat} :
    (∃ st, m.statement? i = some st ∧ P st) ↔ ∃ st, n.statement? i = some st ∧ P st := by
  have hmap : ∀ o : Option Statement, (∃ st, o = some st ∧ P st) ↔
      ∃ st, o.map (Statement.numbered 0) = some st ∧ P st := by
    intro o
    cases o <;> simp [hP]
  rw [hmap, h.map_statement?, ← hmap]

/-- The statements that carry code are at the same places. -/
theorem codeRefs_eq (h : m.Alike n) (id : Nat) : m.codeRefs id = n.codeRefs id := by
  have hmap : ∀ k : Module, k.codeRefs id =
      ((k.statements.map (Statement.numbered 0)).toList.filter (!·.isDeclarationOnly)).map
        (⟨id, ·.index⟩) := by
    intro k
    rw [Array.toList_map, List.filter_map, List.map_map]
    rfl
  rw [hmap, hmap, h.statements]

end Module.Alike

-- ---------------------------------------------------------------------------
-- Sources
-- ---------------------------------------------------------------------------

/-- The module of a path, read without regard to what is kept. -/
def Sources.moduleOf (sources : Sources) (path : Path) (id : Nat := 0) :
    Except BuildError Module := do
  Module.read path (← sources.read path) id

theorem Sources.moduleOf_numbered (sources : Sources) (path : Path) (i j : Nat) :
    sources.moduleOf path j = (sources.moduleOf path i).map (Module.numbered j) := by
  rw [moduleOf, moduleOf]
  cases sources.read path with
  | error e => rfl
  | ok text => exact Module.read_numbered path text i j

namespace Store

/-- What one store holds another one holds as well, under the same numbers. -/
def Extends (s t : Store) : Prop :=
  ∀ ⦃i : Nat⦄ ⦃m : Module⦄, s.modules[i]? = some m → t.modules[i]? = some m

/-- Each kept module is the one of its path, under the number of its place, and no path is
kept twice. -/
structure Coherent (sources : Sources) (s : Store) : Prop where
  loaded : ∀ ⦃i : Nat⦄ ⦃m : Module⦄, s.modules[i]? = some m → sources.moduleOf m.path i = .ok m
  distinct : ∀ ⦃i j : Nat⦄ ⦃m n : Module⦄, s.modules[i]? = some m → s.modules[j]? = some n →
    m.path.same n.path = true → i = j

end Store

/-- Sources that do not look at how a path is spelled, and have room for all the
modules there are. -/
structure Sources.Lawful (sources : Sources) : Prop where
  resolve_same : ∀ ⦃p q : Path⦄, p.same q = true → ∀ importee,
    (sources.resolve p importee).same (sources.resolve q importee) = true
  read_same : ∀ ⦃p q : Path⦄, p.same q = true →
    SameOutcome (· = ·) (sources.read p) (sources.read q)
  fits : ∀ ⦃s : Store⦄, s.Coherent sources → s.modules.size ≤ sources.capacity

/-- Sources that do not look at how a path is spelled. -/
structure Sources.Uniform (sources : Sources) : Prop where
  resolve_same : ∀ ⦃p q : Path⦄, p.same q = true → ∀ importee,
    (sources.resolve p importee).same (sources.resolve q importee) = true
  read_same : ∀ ⦃p q : Path⦄, p.same q = true →
    SameOutcome (· = ·) (sources.read p) (sources.read q)

theorem Sources.Lawful.uniform {sources : Sources} (h : sources.Lawful) : sources.Uniform :=
  ⟨h.resolve_same, h.read_same⟩

/-- The module of a path does not depend on how the path is spelled. -/
theorem Sources.Uniform.sameOutcome_moduleOf {sources : Sources} (h : sources.Uniform) {p q : Path}
    (hpq : p.same q = true) (i j : Nat) :
    SameOutcome (fun m n => m.path = p ∧ n.path = q ∧ m.Alike n)
      (sources.moduleOf p i) (sources.moduleOf q j) := by
  refine (h.read_same hpq).bind fun text text' ht => ?_
  subst ht
  exact Module.sameOutcome_read hpq text i j

theorem Sources.Lawful.sameOutcome_moduleOf {sources : Sources} (h : sources.Lawful) {p q : Path}
    (hpq : p.same q = true) (i j : Nat) :
    SameOutcome (fun m n => m.path = p ∧ n.path = q ∧ m.Alike n)
      (sources.moduleOf p i) (sources.moduleOf q j) :=
  h.uniform.sameOutcome_moduleOf hpq i j

namespace Store

theorem Extends.refl (s : Store) : s.Extends s := fun _ _ h => h

theorem Extends.trans {s t u : Store} (h : s.Extends t) (k : t.Extends u) : s.Extends u :=
  fun _ _ hm => k (h hm)

theorem Coherent.empty (sources : Sources) : Store.empty.Coherent sources :=
  ⟨fun i m h => by simp [Store.empty] at h, fun i j m n h => by simp [Store.empty] at h⟩

/-- A path is found exactly where a module of that path is kept. -/
theorem Coherent.find?_eq_some_iff {sources : Sources} {s : Store} (h : s.Coherent sources)
    {path : Path} {i : Nat} :
    s.find? path = some i ↔ ∃ m, s.modules[i]? = some m ∧ m.path.same path = true := by
  rw [find?, Array.findIdx?_eq_some_iff_getElem]
  constructor
  · rintro ⟨hi, hm, -⟩
    exact ⟨_, Array.getElem?_eq_getElem hi, hm⟩
  · rintro ⟨m, hm, hp⟩
    obtain ⟨hi, rfl⟩ := Array.getElem?_eq_some_iff.1 hm
    refine ⟨hi, hp, fun j hji hj => ?_⟩
    have := h.distinct (Array.getElem?_eq_getElem (Nat.lt_trans hji hi)) hm
      (Path.same_trans hj (Path.same_symm hp))
    omega

theorem find?_eq_none_iff {s : Store} {path : Path} :
    s.find? path = none ↔
      ∀ (i : Nat) (m : Module), s.modules[i]? = some m → m.path.same path = false := by
  rw [find?, Array.findIdx?_eq_none_iff]
  constructor
  · intro h i m hm
    exact h m (Array.mem_of_getElem? hm)
  · intro h m hm
    obtain ⟨i, hi⟩ := Array.mem_iff_getElem?.1 hm
    exact h i m hi

theorem extends_add (s : Store) (m : Module) : s.Extends (s.add m) := fun i n hn => by
  have hi := (Array.getElem?_eq_some_iff.1 hn).1
  rw [add, Array.getElem?_push, if_neg (by omega)]
  exact hn

/-- What a store holds after a module was added. -/
theorem getElem?_add {s : Store} {m n : Module} {i : Nat} (h : (s.add m).modules[i]? = some n) :
    s.modules[i]? = some n ∨ i = s.modules.size ∧ n = m := by
  rw [add, Array.getElem?_push] at h
  split at h
  · exact .inr ⟨‹_›, (Option.some.inj h).symm⟩
  · exact .inl h

/-- A module of a path that is not kept may be added. -/
theorem Coherent.add {sources : Sources} {s : Store} (h : s.Coherent sources) {m : Module}
    (hm : sources.moduleOf m.path s.modules.size = .ok m) (hf : s.find? m.path = none) :
    (s.add m).Coherent sources := by
  rw [find?_eq_none_iff] at hf
  constructor
  · intro i n hn
    rcases getElem?_add hn with hn | ⟨rfl, rfl⟩
    · exact h.loaded hn
    · exact hm
  · intro i j n n' hn hn' hp
    rcases getElem?_add hn with hs | ⟨rfl, rfl⟩ <;> rcases getElem?_add hn' with hs' | ⟨rfl, rfl⟩
    · exact h.distinct hs hs' hp
    · exact absurd hp (by simp [hf i n hs])
    · exact absurd (Path.same_symm hp) (by simp [hf j n' hs'])
    · rfl

end Store

-- ---------------------------------------------------------------------------
-- Fetching
-- ---------------------------------------------------------------------------

/-- A coherent store that has no more modules than there is room for. -/
structure Store.Within (sources : Sources) (s : Store) : Prop extends s.Coherent sources where
  size_le : s.modules.size ≤ sources.capacity

/-- There are more modules than there is room for. -/
def Sources.Crowded (sources : Sources) : Prop :=
  ∃ s : Store, s.Coherent sources ∧ sources.capacity < s.modules.size

namespace Sources.Lawful

variable {sources : Sources}

theorem within (laws : sources.Lawful) {s : Store} (h : s.Coherent sources) : s.Within sources :=
  ⟨h, laws.fits h⟩

theorem not_crowded (laws : sources.Lawful) : ¬ sources.Crowded := by
  rintro ⟨s, hs, hlt⟩
  have := laws.fits hs
  omega

end Sources.Lawful

namespace Store

variable {sources : Sources} {s t u : Store}

/-- A later store of a bundler: it holds more modules, and is coherent and within the
capacity. -/
structure Onward (sources : Sources) (s s' : Store) : Prop where
  extends_ : s.Extends s'
  within : s'.Within sources

theorem Within.onward (h : s.Within sources) : s.Onward sources s :=
  ⟨.refl s, h⟩

theorem Onward.trans (h : s.Onward sources t) (k : t.Onward sources u) : s.Onward sources u :=
  ⟨h.extends_.trans k.extends_, k.within⟩

/-- Fetching yields the module of the path or fails as reading it does, unless there
is no room for the module. -/
theorem Within.fetch (laws : sources.Uniform) (h : s.Within sources) (path : Path) :
    match sources.moduleOf path with
    | .ok _ => (∃ i s' m, ModuleBundler.fetch sources path s = .ok i s' ∧ s.Onward sources s' ∧
          s'.modules[i]? = some m ∧ m.path.same path = true) ∨
        ∃ s', ModuleBundler.fetch sources path s = .error (.tooManyModules path) s' ∧
          sources.Crowded
    | .error e => ∃ s', ModuleBundler.fetch sources path s = .error e s' ∧ s.Onward sources s' := by
  have hlog : (s.logRead path).Within sources := ⟨⟨h.loaded, h.distinct⟩, h.size_le⟩
  unfold ModuleBundler.fetch
  cases hf : s.find? path with
  | some i =>
    obtain ⟨m, hm, hp⟩ := h.find?_eq_some_iff.1 hf
    have ho := laws.sameOutcome_moduleOf hp i 0
    rw [h.loaded hm] at ho
    cases hq : sources.moduleOf path with
    | ok n => exact .inl ⟨i, s, m, rfl, h.onward, hm, hp⟩
    | error e => rw [hq] at ho; exact ho.elim
  | none =>
    cases ht : sources.read path with
    | error e =>
      have hm : sources.moduleOf path = .error e := by rw [Sources.moduleOf, ht]; rfl
      rw [hm]
      exact ⟨s.logRead path, rfl, fun i m hm => hm, hlog⟩
    | ok text =>
      have hm : ∀ i, sources.moduleOf path i = Module.read path text i := fun i => by
        rw [Sources.moduleOf, ht]
        rfl
      rw [hm, Module.read_numbered path text (s.logRead path).modules.size]
      cases hr : Module.read path text (s.logRead path).modules.size with
      | error e =>
        refine ⟨s.logRead path, ?_, fun i m hm => hm, hlog⟩
        simp only [hr]
      | ok m =>
        have ho := Module.sameOutcome_read (Path.same_refl path) text
          (s.logRead path).modules.size (s.logRead path).modules.size
        rw [hr] at ho
        have hpath : m.path = path := ho.1
        have hadd : ((s.logRead path).add m).Coherent sources := by
          refine hlog.add ?_ ?_
          · rw [hpath, hm, hr]
          · rw [hpath]
            exact hf
        have hsize : ((s.logRead path).add m).modules.size = (s.logRead path).modules.size + 1 :=
          Array.size_push m
        by_cases hlt : (s.logRead path).modules.size < sources.capacity
        · refine .inl ⟨(s.logRead path).modules.size, (s.logRead path).add m, m, ?_,
            ⟨extends_add (s.logRead path) m, hadd, by omega⟩, ?_, ?_⟩
          · simp only [hr, if_pos hlt]
          · simp [Store.add]
          · rw [hpath]
            exact Path.same_refl path
        · -- the store with the module in it has more modules than there is room for
          refine .inr ⟨s.logRead path, ?_, _, hadd, by omega⟩
          simp only [hr, if_neg hlt]

/-- Fetching in a coherent store yields the module of the path, or fails as
reading it does. -/
theorem Coherent.fetch (laws : sources.Lawful) (h : s.Coherent sources) (path : Path) :
    match sources.moduleOf path with
    | .ok _ => ∃ i s' m, ModuleBundler.fetch sources path s = .ok i s' ∧ s.Extends s' ∧
        s'.Coherent sources ∧ s'.modules[i]? = some m ∧ m.path.same path = true
    | .error e => ∃ s', ModuleBundler.fetch sources path s = .error e s' ∧ s.Extends s' ∧
        s'.Coherent sources := by
  have hf := (laws.within h).fetch laws.uniform path
  cases hm : sources.moduleOf path with
  | ok n =>
    rw [hm] at hf
    obtain ⟨i, s', m, hf, hs, hm, hp⟩ | ⟨s', -, hcrowded⟩ := hf
    · exact ⟨i, s', m, hf, hs.extends_, hs.within.toCoherent, hm, hp⟩
    · exact absurd hcrowded laws.not_crowded
  | error e =>
    rw [hm] at hf
    obtain ⟨s', hf, hs⟩ := hf
    exact ⟨s', hf, hs.extends_, hs.within.toCoherent⟩

end Store

-- ---------------------------------------------------------------------------
-- Tables of files
-- ---------------------------------------------------------------------------

theorem eq_ok_of_isOk {ε α : Type} [Inhabited α] {x : Except ε α} (h : x.isOk = true) :
    x = .ok (x.toOption.getD default) := by
  cases x with
  | ok a => rfl
  | error e => cases h

namespace FileTable

theorem find?_eq_of_same (t : FileTable) {p q : Path} (h : p.same q = true) :
    t.find? p = t.find? q := by
  have : (fun e : Path × FileState => e.1.same p) = fun e => e.1.same q := by
    funext e
    rw [Bool.eq_iff_iff, Path.same_iff, Path.same_iff, Path.same_iff.1 h]
  rw [find?, find?, this]

/-- A file that is read is one of the entries of the table. -/
theorem exists_entry_of_read {t : FileTable} {p : Path} {text : String}
    (h : t.read p = .ok text) : ∃ i : Fin t.entries.length, (t.entries[i]).1.same p = true := by
  rw [read, find?] at h
  cases hf : t.entries.reverse.find? fun e => e.1.same p with
  | none => simp [hf] at h
  | some e =>
    have hmem := List.mem_reverse.1 (List.mem_of_find?_eq_some hf)
    obtain ⟨i, hi, he⟩ := List.mem_iff_getElem.1 hmem
    refine ⟨⟨i, hi⟩, ?_⟩
    have hs := List.find?_some hf
    simpa [he] using hs

/-- Tables of files are lawful sources: paths are compared by their components,
and each kept module takes up a file of the table. -/
theorem lawful_sources (t : FileTable) : t.sources.Lawful := by
  refine ⟨fun p q h importee => ?_, fun p q h => ?_, fun s hs => ?_⟩
  · dsimp only [sources]
    rw [Path.resolve_eq_of_same h]
    exact Path.same_refl _
  · show SameOutcome _ (t.read p) (t.read q)
    rw [read, read, t.find?_eq_of_same h]
    split
    · exact rfl
    · exact .unreadable h _
    · exact .notFound h
  · have hread : ∀ i : Fin s.modules.size, ∃ e : Fin t.entries.length,
        (t.entries[e]).1.same s.modules[i].path = true := by
      intro i
      have hl := hs.loaded (Array.getElem?_eq_getElem i.2)
      cases hr : t.read s.modules[i].path with
      | ok text => exact exists_entry_of_read hr
      | error e =>
        have he : t.sources.moduleOf s.modules[i].path i = .error e := by
          have hread : t.sources.read s.modules[i].path = .error e := hr
          rw [Sources.moduleOf, hread]
          rfl
        exact absurd (he.symm.trans hl) (by simp)
    choose entry hentry using hread
    have hinj : Function.Injective entry := fun i j hij => by
      have hi := hentry i
      rw [hij] at hi
      exact Fin.ext (hs.distinct (Array.getElem?_eq_getElem i.2) (Array.getElem?_eq_getElem j.2)
        (Path.same_trans (Path.same_symm hi) (hentry j)))
    have := Fintype.card_le_of_injective entry hinj
    rwa [Fintype.card_fin, Fintype.card_fin] at this

end FileTable

end ModuleBundler

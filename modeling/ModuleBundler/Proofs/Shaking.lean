import ModuleBundler.Proofs.Order

/-!
# ModuleBundler — what a bundle holds

A bundle holds the statements that its entry needs and no others. What an entry
needs is said without regard to any bundler: a statement is known by its site,
and what it requires is what the names that it depends on stand for when they are
looked up afresh.

* `Requires`, `Needed` — what a statement requires, and what an entry needs.
* `DependsOn.requires`, `Requires.dependsOn` — the same in the terms of a store.
* `build_exact` — a bundle is exactly what its entry needs; there is none exactly
  if the entry cannot be fetched or a needed name cannot be resolved.
-/

namespace ModuleBundler

variable {sources : Sources}

-- ---------------------------------------------------------------------------
-- Sites
-- ---------------------------------------------------------------------------

/-- Where a statement stands: a file, and a position in it. -/
structure Site where
  path : Path
  index : Nat
  deriving Inhabited

/-- The statement at a site. -/
def Sources.statementAt (sources : Sources) (p : Site) : Option Statement :=
  match sources.moduleOf p.path with
  | .ok m => m.statement? p.index
  | .error _ => none

/-- What a name stands for in a file, for a bundler that knows nothing yet. -/
def resolveAfresh (sources : Sources) (path : Path) (name : String) :
    Bundling (Option StatementRef) := do
  let id ← fetch sources path
  resolveName sources id name

/-- A statement of a store stands at a site, however the path of its file is
spelled. -/
def Store.At (s : Store) (ref : StatementRef) (p : Site) : Prop :=
  ∃ m : Module, s.modules[ref.moduleId]? = some m ∧ m.path.same p.path = true ∧
    ref.index = p.index

/-- A statement requires another one: a name that it depends on stands for it. -/
def Requires (sources : Sources) (p q : Site) : Prop :=
  ∃ st, sources.statementAt p = some st ∧ ∃ name ∈ st.dependsOn,
    ∃ ref s, resolveAfresh sources p.path name .empty = .ok (some ref) s ∧ s.At ref q

/-- A statement of the entry that carries code. -/
def IsRoot (sources : Sources) (entry : Path) (p : Site) : Prop :=
  p.path.same entry = true ∧
    ∃ st, sources.statementAt p = some st ∧ st.isDeclarationOnly = false

/-- What an entry needs: its statements that carry code, and all that these
require, directly or not. -/
def Needed (sources : Sources) (entry : Path) (p : Site) : Prop :=
  ∃ root, IsRoot sources entry root ∧ Relation.ReflTransGen (Requires sources) root p

/-- A statement depends on a name that cannot be resolved. -/
def Unresolvable (sources : Sources) (p : Site) : Prop :=
  ∃ st, sources.statementAt p = some st ∧ ∃ name ∈ st.dependsOn,
    ∃ e s, resolveAfresh sources p.path name .empty = .error e s

-- ---------------------------------------------------------------------------
-- Sites and stores
-- ---------------------------------------------------------------------------

namespace Store

variable {s u : Store} {ref ref' : StatementRef} {p : Site}

theorem At.mono (h : s.At ref p) (hsu : s.Extends u) : u.At ref p := by
  obtain ⟨m, hm, hp, hi⟩ := h
  exact ⟨m, hsu hm, hp, hi⟩

/-- No two statements of a coherent store stand at one site. -/
theorem At.unique (hs : s.Coherent sources) (h : s.At ref p) (h' : s.At ref' p) : ref = ref' := by
  obtain ⟨m, hm, hp, hi⟩ := h
  obtain ⟨m', hm', hp', hi'⟩ := h'
  obtain ⟨id, index⟩ := ref
  obtain ⟨id', index'⟩ := ref'
  obtain rfl : id = id' := hs.distinct hm hm' (Path.same_trans hp (Path.same_symm hp'))
  obtain rfl : index = index' := hi.trans hi'.symm
  rfl

theorem Holds.at {st : Statement} (h : s.Holds ref st) : ∃ p, s.At ref p := by
  obtain ⟨m, hm, -⟩ := h
  exact ⟨⟨m.path, ref.index⟩, m, hm, Path.same_refl _, rfl⟩

/-- A later store does not know a statement that was there before by another
site. -/
theorem At.of_holds {st : Statement} (hst : s.Holds ref st) (hsu : s.Extends u)
    (h : u.At ref p) : s.At ref p := by
  obtain ⟨m, hm, -⟩ := hst
  obtain ⟨n, hn, hp, hi⟩ := h
  rw [hsu hm, Option.some.injEq] at hn
  exact ⟨m, hm, hn ▸ hp, hi⟩

theorem At.module (hs : s.Coherent sources) (laws : sources.Lawful) (h : s.At ref p) :
    ∃ m n : Module, s.modules[ref.moduleId]? = some m ∧ sources.moduleOf p.path = .ok n ∧
      m.Alike n := by
  obtain ⟨m, hm, hp, -⟩ := h
  have ho := laws.sameOutcome_moduleOf hp ref.moduleId 0
  rw [hs.loaded hm] at ho
  cases hn : sources.moduleOf p.path with
  | error e =>
    rw [hn] at ho
    exact ho.elim
  | ok n =>
    rw [hn] at ho
    exact ⟨m, n, hm, rfl, ho.2.2⟩

/-- A store holds the statement that stands at a site, but for the number of its module. -/
theorem At.exists_holds_iff (hs : s.Coherent sources) (laws : sources.Lawful) (h : s.At ref p)
    {P : Statement → Prop} (hP : ∀ st, P (st.numbered 0) ↔ P st) :
    (∃ st, s.Holds ref st ∧ P st) ↔ ∃ st, sources.statementAt p = some st ∧ P st := by
  obtain ⟨m, n, hm, hn, ha⟩ := h.module hs laws
  obtain ⟨-, -, -, hi⟩ := h
  rw [Sources.statementAt, hn]
  show _ ↔ ∃ st, n.statement? p.index = some st ∧ P st
  rw [← ha.exists_statement_iff hP, ← hi]
  refine exists_congr fun st => and_congr_left fun _ => ?_
  constructor
  · rintro ⟨m', hm', hst⟩
    rw [hm, Option.some.injEq] at hm'
    rw [hm']
    exact hst
  · intro hst
    exact ⟨m, hm, hst⟩

/-- To look a name up afresh comes to the same as to look it up in a store. -/
theorem At.resolve_agree (hs : s.Coherent sources) (laws : sources.Lawful) (h : s.At ref p)
    (name : String) : ∃ t, Agree sources Store.TwinAnswer s t
      (resolveName sources ref.moduleId name s) (resolveAfresh sources p.path name .empty) := by
  obtain ⟨m, n, hm, hn, ha⟩ := h.module hs laws
  have hf := (Coherent.empty sources).fetch laws p.path
  rw [hn] at hf
  obtain ⟨i, t, m', hf, -, ht, hm', hp⟩ := hf
  have hfresh : resolveAfresh sources p.path name .empty = resolveName sources i name t := by
    simp only [resolveAfresh, Bind.bind, EStateM.bind, hf]
  obtain ⟨k, hk, hkp, -⟩ := h
  rw [hfresh]
  exact ⟨t, resolveName_agree laws hs ht
    ⟨k, m', hk, hm', Path.same_trans hkp (Path.same_symm hp)⟩ name⟩

/-- Twins stand at the same sites. -/
theorem TwinRef.at_iff {t : Store} (h : s.TwinRef t ref ref') : s.At ref p ↔ t.At ref' p := by
  obtain ⟨m, n, hm, hn, hp⟩ := h.moduleId
  rw [Store.At, Store.At, hm, hn, h.index]
  constructor
  · rintro ⟨k, hk, hkp, hi⟩
    cases hk
    exact ⟨n, rfl, Path.same_trans (Path.same_symm hp) hkp, hi⟩
  · rintro ⟨k, hk, hkp, hi⟩
    cases hk
    exact ⟨m, rfl, Path.same_trans hp hkp, hi⟩

end Store

section

variable {u : Store} {ref other : StatementRef} {p q : Site}

theorem Store.Reads.statementAt (hu : u.Coherent sources) (laws : sources.Lawful)
    (hp : u.At ref p) {name : String} :
    u.Reads ref name ↔ ∃ st, sources.statementAt p = some st ∧ name ∈ st.dependsOn := by
  exact hp.exists_holds_iff hu laws fun _ => .rfl

/-- What depends on a statement in a store requires it. -/
theorem DependsOn.requires (h : DependsOn sources u ref other) (hu : u.Coherent sources)
    (laws : sources.Lawful) (hp : u.At ref p) (hq : u.At other q) : Requires sources p q := by
  obtain ⟨name, hn, v, hv⟩ := h
  obtain ⟨st, hst, hname⟩ := (Store.Reads.statementAt hu laws hp).1 hn
  obtain ⟨t, ha⟩ := hp.resolve_agree hu laws name
  rw [hv] at ha
  generalize hx : resolveAfresh sources p.path name .empty = x at ha
  cases ha with
  | @ok _ t' _ o hs _ hr =>
    cases hr with
    | @some _ ref' hr =>
      exact ⟨st, hst, name, hname, ref', t', hx, hr.at_iff.1 (hq.mono hs.extends_)⟩

/-- A store in which the names of a statement were looked up has what the
statement requires. -/
theorem Requires.dependsOn (h : Requires sources p q) (hu : u.Coherent sources)
    (laws : sources.Lawful) (hp : u.At ref p)
    (hdone : ∀ name, u.Reads ref name → ∃ o, StandsFor sources u ref.moduleId name o ∧
      ∀ other, o = some other → ∃ st, u.Holds other st) :
    ∃ other, DependsOn sources u ref other ∧ u.At other q := by
  obtain ⟨st, hst, name, hname, ref', s, hs, hq⟩ := h
  have hn := (Store.Reads.statementAt hu laws hp).2 ⟨st, hst, hname⟩
  obtain ⟨o, ⟨v, hv⟩, hheld⟩ := hdone name hn
  obtain ⟨t, ha⟩ := hp.resolve_agree hu laws name
  rw [hv, hs] at ha
  cases ha with
  | ok huv _ hr =>
    cases hr with
    | @some other _ hr =>
      obtain ⟨st', hst'⟩ := hheld other rfl
      exact ⟨other, ⟨name, hn, v, hv⟩, .of_holds hst' huv.extends_ (hr.at_iff.2 hq)⟩

/-- A name that is looked up in vain in a store cannot be resolved. -/
theorem unresolvable_of_error (hu : u.Coherent sources) (laws : sources.Lawful) (hp : u.At ref p)
    {name : String} (hn : u.Reads ref name) {e : BuildError} {v : Store}
    (hv : resolveName sources ref.moduleId name u = .error e v) : Unresolvable sources p := by
  obtain ⟨st, hst, hname⟩ := (Store.Reads.statementAt hu laws hp).1 hn
  obtain ⟨t, ha⟩ := hp.resolve_agree hu laws name
  rw [hv] at ha
  generalize hx : resolveAfresh sources p.path name .empty = x at ha
  cases ha with
  | @error _ t' _ e' _ _ _ => exact ⟨st, hst, name, hname, e', t', hx⟩

/-- A site with a name that cannot be resolved has a name that no store resolves. -/
theorem Unresolvable.not_standsFor (h : Unresolvable sources p) (hu : u.Coherent sources)
    (laws : sources.Lawful) (hp : u.At ref p) :
    ∃ name, u.Reads ref name ∧ ∀ o, ¬ StandsFor sources u ref.moduleId name o := by
  obtain ⟨st, hst, name, hname, e, s, hs⟩ := h
  refine ⟨name, (Store.Reads.statementAt hu laws hp).2 ⟨st, hst, hname⟩, fun o ⟨v, hv⟩ => ?_⟩
  obtain ⟨t, ha⟩ := hp.resolve_agree hu laws name
  rw [hv, hs] at ha
  cases ha

end

-- ---------------------------------------------------------------------------
-- The statements of an entry
-- ---------------------------------------------------------------------------

/-- The statements of the bundle of an entry, in order. -/
def entryRefs (sources : Sources) (entry : Path) : Bundling (Array StatementRef) := do
  let id ← fetch sources entry
  expandAll sources id

theorem build_eq (sources : Sources) (entry : Path) :
    build sources entry = entryRefs sources entry >>= fun refs => generate refs.toList := by
  rw [entryRefs, bind_assoc]
  rfl

/-- The statements of the entry that carry code are expanded one after the other. -/
theorem entryRefs_of_mapM {s t u : Store} {id : Nat} {m : Module}
    {parts : List (Array StatementRef)} (hf : fetch sources entry s = .ok id t)
    (hm : t.modules[id]? = some m) (h : (m.codeRefs id).mapM (expand sources) t = .ok parts u) :
    entryRefs sources entry s = .ok (parts.foldl (· ++ ·) #[]) u := by
  refine Bundling.bind_eq_ok.2 ⟨id, t, hf, Bundling.bind_eq_ok.2 ⟨m, t, ?_, ?_⟩⟩
  · exact moduleAt_eq_ok.2 ⟨hm, rfl⟩
  · exact Bundling.bind_eq_ok.2 ⟨parts, u, h, rfl⟩

/-- The statements of a kept module that carry code. -/
theorem Store.Coherent.mem_codeRefs {s : Store} (hs : s.Coherent sources) {id : Nat} {m : Module}
    (hm : s.modules[id]? = some m) {ref : StatementRef} :
    ref ∈ m.codeRefs id ↔ ref.moduleId = id ∧
      ∃ st, s.Holds ref st ∧ st.isDeclarationOnly = false := by
  have hindex : ∀ {i : Nat} {st : Statement}, m.statements[i]? = some st → st.index = i := by
    intro i st hst
    have hl := hs.loaded hm
    rw [Sources.moduleOf] at hl
    cases hr : sources.read m.path with
    | error e => rw [hr] at hl; cases hl
    | ok text =>
      rw [hr] at hl
      exact ((Module.numbers_of_read hl).2 hst).2
  rw [Module.codeRefs, List.mem_map]
  constructor
  · rintro ⟨st, hst, rfl⟩
    rw [List.mem_filter, Array.mem_toList_iff, Bool.not_eq_true'] at hst
    obtain ⟨i, hi⟩ := Array.mem_iff_getElem?.1 hst.1
    refine ⟨rfl, st, ⟨m, hm, ?_⟩, hst.2⟩
    rw [Module.statement?, hindex hi]
    exact hi
  · rintro ⟨rfl, st, ⟨m', hm', hst⟩, hcode⟩
    rw [hm, Option.some.injEq] at hm'
    subst hm'
    refine ⟨st, ?_, ?_⟩
    · rw [List.mem_filter, Array.mem_toList_iff, hcode]
      exact ⟨Array.mem_of_getElem? hst, rfl⟩
    · rw [hindex hst]

/-- To expand a statement that was not visited is to do its work. -/
theorem expand_eq {ref : StatementRef} {st : Statement} {s : Store} (hst : s.Holds ref st)
    (hv : s.isVisited ref = false) :
    expand sources ref s = run sources #[] (st.work ref) (s.visit ref .inProgress) := by
  have hstep : Step sources ⟨(#[] : Array StatementRef).toList, [.expand ref], s⟩
      ⟨(#[] : Array StatementRef).toList, st.work ref ++ [], s.visit ref .inProgress⟩ :=
    .enter hv hst
  rw [expand, hstep.run_eq, List.append_nil]

/-- A statement that depends on nothing is expanded to itself. -/
theorem expand_of_dependsOn_nil {ref : StatementRef} {st : Statement} {s : Store}
    (h : s.Holds ref st) (hv : s.isVisited ref = false) (hnone : st.dependsOn = []) :
    expand sources ref s = .ok #[ref] ((s.visit ref .inProgress).visit ref .emitted) := by
  have hwork : st.work ref = [.emit ref] := by
    rw [Statement.work, hnone]
    rfl
  have hsteps : Steps sources ⟨[], [.expand ref], s⟩
      ⟨[ref], [], (s.visit ref .inProgress).visit ref .emitted⟩ := by
    refine .head (.enter hv h) ?_
    rw [hwork]
    exact .head .emit .refl
  exact run_of_steps hsteps

/-- A statement that was expanded was visited. -/
theorem isVisited_of_expand {ref : StatementRef} {st : Statement} {s u : Store}
    {out : Array StatementRef} (hst : s.Holds ref st) (h : expand sources ref s = .ok out u) :
    u.isVisited ref = true := by
  cases hv : s.isVisited ref with
  | true => exact (steps_of_run h : Steps sources ⟨[], _, s⟩ _).isVisited hv
  | false =>
    rw [expand_eq hst hv] at h
    exact (steps_of_run h : Steps sources ⟨[], _, _⟩ _).isVisited (by simp)

section

variable {asked : WorkItem → Prop} {emitted refs : List StatementRef} {s u : Store}

/-- Statements that were expanded one after the other were all visited. -/
theorem isVisited_of_mapM (laws : sources.Lawful) (hs : s.Coherent sources)
    (hheld : ∀ ref ∈ refs, ∃ st, s.Holds ref st) {parts : List (Array StatementRef)}
    (hr : refs.mapM (expand sources) s = .ok parts u) :
    s.Later sources u ∧ ∀ ref, s.isVisited ref = true ∨ ref ∈ refs → u.isVisited ref = true := by
  induction refs generalizing s parts with
  | nil =>
    cases hr
    exact ⟨hs.later, fun _ hv => hv.resolve_right List.not_mem_nil⟩
  | cons ref refs ih =>
    rw [List.mapM_cons] at hr
    obtain ⟨out, t, hout, hr⟩ := Bundling.bind_eq_ok.1 hr
    obtain ⟨rest, v, hrest, hr⟩ := Bundling.bind_eq_ok.1 hr
    cases hr
    have hsteps : Steps sources ⟨[], [.expand ref], s⟩ ⟨[] ++ out.toList, [], t⟩ :=
      steps_of_run hout
    have hst := hsteps.later laws hs
    have hheld' : ∀ other ∈ refs, ∃ st, t.Holds other st := fun other hm => by
      obtain ⟨st, ho⟩ := hheld other (.tail _ hm)
      exact ⟨st, ho.mono hst.extends_⟩
    obtain ⟨htu, hvisited⟩ := ih hst.coherent hheld' hrest
    refine ⟨hst.trans htu, fun other hv => hvisited other ?_⟩
    rcases hv with hv | hmem
    · exact .inl (hsteps.isVisited hv)
    · rcases List.mem_cons.1 hmem with rfl | hmem
      · obtain ⟨st, ho⟩ := hheld other (.head _)
        exact .inl (isVisited_of_expand ho hout)
      · exact .inr hmem

/-- When the expansion of statements fails, it got stuck in a state of the bundler. -/
theorem History.stuck_of_mapM (h : History sources asked ⟨emitted, [], s⟩)
    (laws : sources.Lawful) (ha : ∀ ref ∈ refs, asked (.expand ref)) {e : BuildError}
    (hr : refs.mapM (expand sources) s = .error e u) :
    ∃ c, History sources asked c ∧ s.Extends c.store ∧ Stuck sources c e u := by
  induction refs generalizing emitted s with
  | nil => cases hr
  | cons ref refs ih =>
    have hask := h.ask (ha ref (.head _)) fun _ he => by cases he
    rw [List.mapM_cons] at hr
    rcases Bundling.bind_eq_error.1 hr with hr | ⟨out, t, hout, hr⟩
    · obtain ⟨c, hsteps, hstuck⟩ := @stuck_of_run sources emitted _ _ _ _ hr
      exact ⟨c, hask.steps hsteps, (hsteps.later laws (h.coherent laws)).extends_, hstuck⟩
    · have hsteps := @steps_of_run sources emitted _ _ _ _ hout
      rcases Bundling.bind_eq_error.1 hr with hr | ⟨rest, v, hrest, hr⟩
      · obtain ⟨c, hc, hext, hstuck⟩ :=
          ih (hask.steps hsteps) (fun r hm => ha r (.tail _ hm)) hr
        exact ⟨c, hc, (hsteps.later laws (h.coherent laws)).extends_.trans hext, hstuck⟩
      · cases hr

end

-- ---------------------------------------------------------------------------
-- What an entry needs, in the terms of a store
-- ---------------------------------------------------------------------------

section

variable {entry : Path} {u : Store} {id : Nat} {m : Module}

theorem isRoot_iff (hu : u.Coherent sources) (laws : sources.Lawful)
    (hm : u.modules[id]? = some m) (hentry : m.path.same entry = true) {ref : StatementRef}
    {p : Site} (hp : u.At ref p) : IsRoot sources entry p ↔ ref ∈ m.codeRefs id := by
  rw [hu.mem_codeRefs hm, IsRoot, ← hp.exists_holds_iff hu laws fun _ => .rfl]
  refine and_congr_left fun _ => ?_
  obtain ⟨n, hn, hnp, -⟩ := hp
  constructor
  · intro hpe
    exact hu.distinct hn hm (Path.same_trans hnp (Path.same_trans hpe (Path.same_symm hentry)))
  · rintro rfl
    rw [hm, Option.some.injEq] at hn
    subst hn
    exact Path.same_trans (Path.same_symm hnp) hentry

theorem IsRoot.exists_ref {p : Site} (h : IsRoot sources entry p)
    (hm : u.modules[id]? = some m) (hentry : m.path.same entry = true) : ∃ ref, u.At ref p :=
  ⟨⟨id, p.index⟩, m, hm, Path.same_trans hentry (Path.same_symm h.1), rfl⟩

/-- What the statements of an entry depend on is needed. -/
theorem needed_of_dependsOn (hu : u.Coherent sources) (laws : sources.Lawful)
    (hm : u.modules[id]? = some m) (hentry : m.path.same entry = true) {root ref : StatementRef}
    (hroot : root ∈ m.codeRefs id) (h : Relation.ReflTransGen (DependsOn sources u) root ref)
    {p : Site} (hp : u.At ref p) : Needed sources entry p := by
  induction h generalizing p with
  | refl => exact ⟨p, (isRoot_iff hu laws hm hentry hp).2 hroot, .refl⟩
  | @tail c ref _ hd ih =>
    obtain ⟨name, ⟨st, hst, hname⟩, hstands⟩ := hd
    obtain ⟨q, hq⟩ := hst.at
    obtain ⟨start, hstart, hchain⟩ := ih hq
    have hd : DependsOn sources u c ref := ⟨name, ⟨st, hst, hname⟩, hstands⟩
    exact ⟨start, hstart, hchain.tail (hd.requires hu laws hq hp)⟩

/-- A set of statements that has those of the entry and, along with a statement,
all that it depends on, has what is needed. -/
theorem Needed.exists_ref {p : Site} (h : Needed sources entry p) (hu : u.Coherent sources)
    (laws : sources.Lawful) (hm : u.modules[id]? = some m) (hentry : m.path.same entry = true)
    {refs : List StatementRef} (hroots : ∀ ref ∈ m.codeRefs id, ref ∈ refs)
    (hclosed : ∀ ref ∈ refs, ∀ name, u.Reads ref name →
      ∃ o, StandsFor sources u ref.moduleId name o ∧ ∀ other, o = some other → other ∈ refs)
    (hheld : ∀ ref ∈ refs, ∃ st, u.Holds ref st) : ∃ ref ∈ refs, u.At ref p := by
  obtain ⟨root, hroot, hchain⟩ := h
  induction hchain with
  | refl =>
    obtain ⟨ref, hp⟩ := hroot.exists_ref hm hentry
    exact ⟨ref, hroots ref ((isRoot_iff hu laws hm hentry hp).1 hroot), hp⟩
  | tail _ hreq ih =>
    obtain ⟨ref, hmem, hp⟩ := ih
    obtain ⟨other, ⟨name, hn, hstands⟩, hq⟩ := hreq.dependsOn hu laws hp fun name hn => by
      obtain ⟨o, ho, hin⟩ := hclosed ref hmem name hn
      exact ⟨o, ho, fun other he => hheld other (hin other he)⟩
    obtain ⟨o, ho, hin⟩ := hclosed ref hmem name hn
    exact ⟨other, hin other (ho.unique hstands), hq⟩

end

-- ---------------------------------------------------------------------------
-- The bundle
-- ---------------------------------------------------------------------------

/-- Statements of a store are what an entry needs: each once, none missing and no
others. -/
structure Exact (sources : Sources) (entry : Path) (u : Store) (refs : List StatementRef) :
    Prop where
  nodup : refs.Nodup
  mem_iff : ∀ ref, ref ∈ refs ↔ ∃ p, Needed sources entry p ∧ u.At ref p
  complete : ∀ p, Needed sources entry p → ∃ ref ∈ refs, u.At ref p

section

variable {entry : Path} {id : Nat} {s u : Store} {m : Module}

/-- The items that a bundler is asked for by an entry. -/
def EntryItem (m : Module) (id : Nat) (item : WorkItem) : Prop :=
  ∃ ref ∈ m.codeRefs id, item = .expand ref

theorem EntryItem.exists_ref (item : WorkItem) (h : EntryItem m id item) :
    ∃ ref, item = .expand ref := by
  obtain ⟨ref, -, he⟩ := h
  exact ⟨ref, he⟩

/-- A bundler that has done all that an entry asks for has emitted what the entry
needs, and has resolved the names in it. -/
theorem History.exact {emitted : List StatementRef}
    (h : History sources (EntryItem m id) ⟨emitted, [], u⟩) (laws : sources.Lawful)
    (hm : u.modules[id]? = some m) (hentry : m.path.same entry = true)
    (hroots : ∀ ref ∈ m.codeRefs id, u.isVisited ref = true) :
    Exact sources entry u emitted ∧ ∀ p, Needed sources entry p → ¬ Unresolvable sources p := by
  have hu : u.Coherent sources := h.coherent laws
  have hmem : ∀ {ref}, u.isVisited ref = true ↔ ref ∈ emitted := fun {ref} => by
    simpa using h.visited_iff ref
  have hheld : ∀ ref ∈ emitted, ∃ st, u.Holds ref st := fun ref hr =>
    (h.held laws ref).1 (hmem.2 hr)
  have hclosed : ∀ ref ∈ emitted, ∀ name, u.Reads ref name →
      ∃ o, StandsFor sources u ref.moduleId name o ∧ ∀ other, o = some other →
        other ∈ emitted := by
    intro ref hr name hn
    obtain ⟨before, after, he⟩ := List.append_of_mem hr
    obtain ⟨o, ho, hdone⟩ := h.done laws hu (.refl u) he hn
    exact ⟨o, ho, fun other hother => hmem.1 (hdone other hother).1⟩
  have hcomplete : ∀ p, Needed sources entry p → ∃ ref ∈ emitted, u.At ref p := fun p hp =>
    hp.exists_ref hu laws hm hentry (fun ref hr => hmem.1 (hroots ref hr)) hclosed hheld
  refine ⟨⟨by simpa [pending] using h.nodup, fun ref => ⟨fun hr => ?_, ?_⟩, hcomplete⟩, ?_⟩
  · obtain ⟨st, hst⟩ := hheld ref hr
    obtain ⟨p, hp⟩ := hst.at
    obtain ⟨root, ⟨ref', hroot, he⟩, hchain⟩ :=
      (h.justified laws EntryItem.exists_ref hu (.refl u)).2 ref hr
    obtain rfl := WorkItem.expand.inj he
    exact ⟨p, needed_of_dependsOn hu laws hm hentry hroot hchain hp, hp⟩
  · rintro ⟨p, hneeded, hp⟩
    obtain ⟨other, ho, hother⟩ := hcomplete p hneeded
    rw [hp.unique hu hother]
    exact ho
  · intro p hneeded hfails
    obtain ⟨ref, hr, hp⟩ := hcomplete p hneeded
    obtain ⟨name, hn, hnot⟩ := hfails.not_standsFor hu laws hp
    obtain ⟨o, ho, -⟩ := hclosed ref hr name hn
    exact hnot o ho

/-- A bundler that gets stuck on what an entry asks for does so at a name that is
needed and cannot be resolved. -/
theorem History.unresolvable {c : Progress} (h : History sources (EntryItem m id) c)
    (laws : sources.Lawful) (hm : c.store.modules[id]? = some m)
    (hentry : m.path.same entry = true) {e : BuildError} (hstuck : Stuck sources c e u) :
    ∃ p, Needed sources entry p ∧ Unresolvable sources p := by
  have hu := h.coherent laws
  cases hstuck with
  | @unresolved emitted k name rest s _ _ hr =>
    obtain ⟨root, ⟨ref, hroot, he⟩, hdue⟩ :=
      (h.justified laws EntryItem.exists_ref hu (.refl _)).1 _ (.head _)
    obtain rfl := WorkItem.expand.inj he
    cases hdue with
    | @define other _ hchain hn =>
      obtain ⟨st, hst, hname⟩ := hn
      obtain ⟨p, hp⟩ := hst.at
      exact ⟨p, needed_of_dependsOn hu laws hm hentry hroot hchain hp,
        unresolvable_of_error hu laws hp ⟨st, hst, hname⟩ hr⟩
  | @noModule emitted ref rest t _ hnone =>
    have hheld : ∃ st, u.Holds ref st := by
      rcases (h.held laws ref).2 (.head _) with ⟨other, hmem, he⟩ | hheld
      · obtain rfl := WorkItem.expand.inj he
        obtain ⟨-, st, hst, -⟩ := (hu.mem_codeRefs hm).1 hmem
        exact ⟨st, hst⟩
      · exact hheld
    obtain ⟨st, n, hn, -⟩ := hheld
    rw [hnone] at hn
    cases hn

end

-- ---------------------------------------------------------------------------
-- The text
-- ---------------------------------------------------------------------------

/-- The line of a statement is its text and a line break. -/
theorem lineAt_of_emittedText? {s : Store} {ref : StatementRef} {m : Module} {text : String}
    (hm : s.modules[ref.moduleId]? = some m) (ht : m.emittedText? ref.index = some text) :
    lineAt ref s = .ok (text ++ "\n") s := by
  refine Bundling.bind_eq_ok.2 ⟨m, s, moduleAt_eq_ok.2 ⟨hm, rfl⟩, ?_⟩
  rw [Module.line, ht]
  rfl

/-- The text of statements that the store holds can always be put together. -/
theorem generate_ok {u : Store} {refs : List StatementRef}
    (h : ∀ ref ∈ refs, ∃ st, u.Holds ref st) :
    ∃ sts, List.Forall₂ u.Holds refs sts ∧
      generate refs u = .ok (String.join (sts.map (·.emittedText ++ "\n"))) u := by
  have hlines : ∃ sts, List.Forall₂ u.Holds refs sts ∧
      refs.mapM lineAt u = .ok (sts.map (·.emittedText ++ "\n")) u := by
    induction refs with
    | nil => exact ⟨[], .nil, rfl⟩
    | cons ref refs ih =>
      obtain ⟨st, m, hm, hst⟩ := h ref (.head _)
      obtain ⟨sts, hsts, hlines⟩ := ih fun other hmem => h other (.tail _ hmem)
      refine ⟨st :: sts, .cons ⟨m, hm, hst⟩ hsts, ?_⟩
      have htext : m.emittedText? ref.index = some st.emittedText := by
        rw [Module.emittedText?, hst]
        rfl
      rw [List.mapM_cons, Bundling.bind_eq_ok]
      refine ⟨st.emittedText ++ "\n", u, lineAt_of_emittedText? hm htext, ?_⟩
      exact Bundling.bind_eq_ok.2 ⟨_, u, hlines, rfl⟩
  obtain ⟨sts, hsts, hlines⟩ := hlines
  refine ⟨sts, hsts, ?_⟩
  rw [generate, Bundling.bind_eq_ok]
  exact ⟨_, u, hlines, rfl⟩

/-- What becomes of the statements of an entry, with a bundler that knows nothing
yet. -/
theorem entryRefs_spec (laws : sources.Lawful) (entry : Path) :
    match entryRefs sources entry .empty with
    | .ok refs u => u.Coherent sources ∧ Exact sources entry u refs.toList ∧
        (∀ ref ∈ refs, ∃ st, u.Holds ref st) ∧ (∃ id s, fetch sources entry .empty = .ok id s) ∧
        ∀ p, Needed sources entry p → ¬ Unresolvable sources p
    | .error _ _ => (∃ e s, fetch sources entry .empty = .error e s) ∨
        ∃ p, Needed sources entry p ∧ Unresolvable sources p := by
  have hf := (Store.Coherent.empty sources).fetch laws entry
  have hgrows := (Bundling.OnlyFetches.fetch sources entry).grows .empty
  cases hm : sources.moduleOf entry with
  | error e =>
    rw [hm] at hf
    obtain ⟨s, hf, -⟩ := hf
    have hrefs : entryRefs sources entry .empty = .error e s := by
      rw [entryRefs, Bundling.bind_eq_error]
      exact .inl hf
    rw [hrefs]
    exact .inl ⟨e, s, hf⟩
  | ok n =>
    rw [hm] at hf
    obtain ⟨id, s, m, hf, hext, hs, hm, hentry⟩ := hf
    have hv : s.visits = Store.empty.visits := by
      have := hgrows.visits_eq
      rwa [Bundling.storeAfter, hf] at this
    have hstart : History sources (EntryItem m id) ⟨[], [], s⟩ :=
      History.start.fetched ⟨hext, hs⟩ hv
    have hasked : ∀ ref ∈ m.codeRefs id, EntryItem m id (.expand ref) :=
      fun ref hr => ⟨ref, hr, rfl⟩
    have hat : moduleAt id s = .ok m s := moduleAt_eq_ok.2 ⟨hm, rfl⟩
    have hrefs : entryRefs sources entry .empty =
        ((m.codeRefs id).mapM (expand sources) >>= fun parts =>
          pure (parts.foldl (· ++ ·) #[])) s := by
      simp only [entryRefs, expandAll, Bind.bind, EStateM.bind, hf, hat]
    cases hparts : (m.codeRefs id).mapM (expand sources) s with
    | error e u =>
      rw [hrefs.trans (Bundling.bind_eq_error.2 (.inl hparts))]
      obtain ⟨c, hc, hsc, hstuck⟩ := hstart.stuck_of_mapM laws hasked hparts
      exact .inr (hc.unresolvable laws (hsc hm) hentry hstuck)
    | ok parts u =>
      have hok : entryRefs sources entry .empty = .ok (parts.foldl (· ++ ·) #[]) u :=
        hrefs.trans (Bundling.bind_eq_ok.2 ⟨parts, u, hparts, rfl⟩)
      rw [hok]
      have hc := hstart.mapM hasked hparts
      rw [← toList_foldl_append parts #[]] at hc
      have hheld : ∀ ref ∈ m.codeRefs id, ∃ st, s.Holds ref st := fun ref hr => by
        obtain ⟨-, st, hst, -⟩ := (hs.mem_codeRefs hm).1 hr
        exact ⟨st, hst⟩
      obtain ⟨hsu, hvisited⟩ := isVisited_of_mapM laws hs hheld hparts
      obtain ⟨hexact, hresolvable⟩ := hc.exact laws (hsu.extends_ hm) hentry
        fun ref hr => hvisited ref (.inr hr)
      refine ⟨hc.coherent laws, hexact, fun ref hr => ?_, ⟨id, s, hf⟩, hresolvable⟩
      exact (hc.held laws ref).1 ((hc.visited_iff ref).2 (.inl (Array.mem_toList_iff.2 hr)))

/-- The statements of a bundle are there, so their text can be put together. -/
theorem exists_build (laws : sources.Lawful) {entry : Path} {refs : Array StatementRef} {u : Store}
    (h : entryRefs sources entry .empty = .ok refs u) :
    ∃ code, build sources entry .empty = .ok code u := by
  have hspec := entryRefs_spec laws entry
  rw [h] at hspec
  obtain ⟨-, -, hheld, -⟩ := hspec
  obtain ⟨sts, -, hok⟩ := generate_ok fun ref hr => hheld ref (Array.mem_toList_iff.1 hr)
  rw [build_eq]
  exact ⟨_, Bundling.bind_eq_ok.2 ⟨_, u, h, hok⟩⟩

/-- A bundle is exactly what its entry needs, statement by statement; and there is
no bundle exactly if the entry cannot be fetched, or some statement that is needed
depends on a name that cannot be resolved. -/
theorem build_exact (files : FileTable) (entry : Path) :
    (∀ code v, build files.sources entry .empty = .ok code v →
      ∃ refs u, entryRefs files.sources entry .empty = .ok refs u ∧
        generate refs.toList u = .ok code v ∧ Exact files.sources entry u refs.toList) ∧
    ((∃ e v, build files.sources entry .empty = .error e v) ↔
      (∃ e v, fetch files.sources entry .empty = .error e v) ∨
        ∃ p, Needed files.sources entry p ∧ Unresolvable files.sources p) := by
  have hspec := entryRefs_spec files.lawful_sources entry
  cases hrefs : entryRefs files.sources entry .empty with
  | error e u =>
    rw [hrefs] at hspec
    rw [build_eq]
    refine ⟨fun code v h => ?_, fun _ => hspec, fun _ => ⟨e, u, ?_⟩⟩
    · obtain ⟨refs, t, ht, -⟩ := Bundling.bind_eq_ok.1 h
      rw [hrefs] at ht
      cases ht
    · exact Bundling.bind_eq_error.2 (.inl hrefs)
  | ok refs u =>
    rw [hrefs] at hspec
    obtain ⟨-, hexact, -, ⟨id, s, hf⟩, hresolvable⟩ := hspec
    refine ⟨fun code v h => ?_, fun ⟨e, v, h⟩ => ?_, ?_⟩
    · rw [build_eq] at h
      obtain ⟨refs', t, ht, h⟩ := Bundling.bind_eq_ok.1 h
      rw [hrefs] at ht
      cases ht
      exact ⟨refs, u, rfl, h, hexact⟩
    · obtain ⟨code, hcode⟩ := exists_build files.lawful_sources hrefs
      rw [h] at hcode
      cases hcode
    · rintro (⟨e, v, h⟩ | ⟨p, hneeded, hfails⟩)
      · rw [hf] at h
        cases h
      · exact absurd hfails (hresolvable p hneeded)

end ModuleBundler

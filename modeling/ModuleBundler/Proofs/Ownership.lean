import ModuleBundler.Proofs.FreeNames
import ModuleBundler.Proofs.Positions
import ModuleBundler.Proofs.PropertyNames

/-!
# ModuleBundler — which scope owns a name

The rules of scoping, said of positions: a declared name belongs to the nearest
scope around it that keeps it, and to the statement if there is none. Which nodes
open scopes, and what a node declares, is written out in `Node.opening?` and
`Node.declared`. Nothing here goes through the tree in some order but for listing
positions, so a declaration counts wherever it stands.

* `Node.home` — the scope that a declaration belongs to.
* `Node.owned`, `Node.ownedByRoot` — the names that belong to a scope.
* `Node.freeReferences` — the references to names that no scope around them owns.
* `analysis_exact` — the analysis finds what the rules say.
-/

namespace ModuleBundler

open ScopingRules (hoisting)

namespace Node

-- ---------------------------------------------------------------------------
-- Names and their scopes
-- ---------------------------------------------------------------------------

/-- The scope that the node at a position opens. -/
def openingAt? (n : Node) (p : Position) : Option ScopeOpening :=
  (n.at? p).bind (opening? hoisting)

/-- What the node at a position declares. -/
def declaredAt (n : Node) (p : Position) : List DeclaredName :=
  (n.at? p).elim [] (declared hoisting)

/-- Whether the node at a position opens a scope that keeps a declaration: a let
or const is kept by each scope, another one by those that are no block scopes. -/
def keepsAt (n : Node) (p : Position) (d : DeclaredName) : Bool :=
  (n.openingAt? p).any fun o => o.keeps d

/-- The scope that a declaration at a position belongs to: the nearest one around
it that keeps it. There may be none, and then it is the root scope. -/
def home (n : Node) (p : Position) (d : DeclaredName) : Option Position :=
  (Position.around p).find? fun q => n.keepsAt q d

/-- The declarations that belong to a scope, in the order of a traversal. -/
def belonging (n : Node) (scope : Option Position) : List DeclaredName :=
  n.positions.flatMap fun p => (n.declaredAt p).filter fun d => n.home p d = scope

/-- The names that the root scope owns, in the order of a traversal. -/
def ownedByRoot (n : Node) : List String := (n.belonging none).map DeclaredName.name

/-- The names that the scope opened at a position owns: those that it is opened
with, and those that belong to it. -/
def owned (n : Node) (p : Position) : List String :=
  (n.openingAt? p).elim [] ScopeOpening.names ++ (n.belonging (some p)).map DeclaredName.name

-- ---------------------------------------------------------------------------
-- References
-- ---------------------------------------------------------------------------

/-- The name of a node of the kind `Identifier`. -/
def identifierText? (n : Node) : Option String :=
  match n.form with
  | .identifier name | .propertyName name => some name
  | _ => none

/-- Whether a node is a member expression that is not computed. -/
def isStaticAccess (n : Node) : Bool :=
  match n.form with
  | .memberExpression _ _ isComputed _ => !isComputed
  | _ => false

/-- Whether the node at a position is the property of a member expression that is
not computed. The property is the second kid, after the object. -/
def isMemberProperty (n : Node) (p : Position) : Bool :=
  p.getLast? = some 1 && (n.at? p.dropLast).any isStaticAccess

/-- The name that is referred to at a position: that of an identifier that is not
the property of a member expression. -/
def referenceAt? (n : Node) (p : Position) : Option String :=
  if n.isMemberProperty p then none else (n.at? p).bind identifierText?

/-- Whether a scope around a position owns a name, or the root scope does. -/
def isBoundAt (n : Node) (p : Position) (name : String) : Prop :=
  name ∈ n.ownedByRoot ∨ ∃ q ∈ Position.around p, name ∈ n.owned q

instance (n : Node) (p : Position) (name : String) : Decidable (n.isBoundAt p name) :=
  inferInstanceAs (Decidable (_ ∨ _))

/-- The references to names that no scope around them owns, in the order of a
traversal. -/
def freeReferences (n : Node) : List String :=
  n.positions.filterMap fun p => (n.referenceAt? p).filter fun name => ¬ n.isBoundAt p name

-- ---------------------------------------------------------------------------
-- One step down
-- ---------------------------------------------------------------------------

section Kid

variable {n c : Node} {i : Nat} (h : n.kids[i]? = some c)
include h

theorem openingAt?_cons (p : Position) : n.openingAt? (i :: p) = c.openingAt? p := by
  rw [openingAt?, at?_cons h, openingAt?]

theorem declaredAt_cons (p : Position) : n.declaredAt (i :: p) = c.declaredAt p := by
  rw [declaredAt, at?_cons h, declaredAt]

theorem keepsAt_cons (p : Position) (d : DeclaredName) :
    n.keepsAt (i :: p) d = c.keepsAt p d := by
  rw [keepsAt, openingAt?_cons h, keepsAt]

/-- What finds no scope in a kid may belong to the scope that the node opens. -/
theorem home_cons (p : Position) (d : DeclaredName) : n.home (i :: p) d =
    ((c.home p d).map (i :: ·)).or (if n.keepsAt [] d then some [] else none) := by
  rw [home, Position.around_cons, List.find?_append, List.find?_map, home]
  congr 2
  · refine congrFun (congrArg _ (funext fun q => ?_)) _
    exact keepsAt_cons h q d
  · exact List.find?_singleton

theorem home_cons_eq_none (p : Position) (d : DeclaredName) :
    n.home (i :: p) d = none ↔ c.home p d = none ∧ n.keepsAt [] d = false := by
  rw [home_cons h]
  cases c.home p d <;> simp

theorem home_cons_eq_here (p : Position) (d : DeclaredName) :
    n.home (i :: p) d = some [] ↔ c.home p d = none ∧ n.keepsAt [] d = true := by
  rw [home_cons h]
  cases c.home p d <;> simp

theorem home_cons_eq_below (p : Position) (d : DeclaredName) (q : Position) :
    n.home (i :: p) d = some (i :: q) ↔ c.home p d = some q := by
  rw [home_cons h]
  cases c.home p d <;> simp

end Kid

/-- Declarations belong to scopes around them. -/
theorem head_eq_of_home {n : Node} {i j : Nat} {p q : Position} {d : DeclaredName}
    (h : n.home (j :: p) d = some (i :: q)) : j = i := by
  have hmem := List.mem_of_find?_eq_some h
  rw [Position.around_cons] at hmem
  simp only [List.mem_append, List.mem_map, List.mem_singleton] at hmem
  obtain ⟨r, -, hr⟩ | hr := hmem
  · exact (List.cons.inj hr).1
  · cases hr

-- ---------------------------------------------------------------------------
-- Declarations
-- ---------------------------------------------------------------------------

/-- What belongs to a scope that the declarations in a kid reach only by leaving
the kid: what the node declares for it, and of what leaves the kids that which
the scope gets. -/
theorem belonging_eq {n : Node} {scope : Option Position} {gets : DeclaredName → Bool}
    (h : ∀ {i c}, n.kids[i]? = some c → ∀ p d,
      n.home (i :: p) d = scope ↔ c.home p d = none ∧ gets d = true) :
    n.belonging scope = (n.declared hoisting).filter (fun _ => none = scope) ++
      (n.kids.flatMap fun c => c.belonging none).filter gets := by
  rw [belonging, flatMap_positions, List.filter_flatMap]
  refine congrArg (_ ++ ·) (flatMap_zipIdx fun i c hc => ?_)
  rw [belonging, List.filter_flatMap]
  refine List.flatMap_congr fun p _ => ?_
  rw [declaredAt_cons hc, List.filter_filter]
  refine List.filter_congr fun d _ => ?_
  rw [Bool.eq_iff_iff, decide_eq_true_iff, h hc]
  simp [and_comm]

theorem belonging_none (n : Node) : n.belonging none = n.declared hoisting ++
    (n.kids.flatMap fun c => c.belonging none).filter fun d => !n.keepsAt [] d := by
  have h := @belonging_eq n none (fun d => !n.keepsAt [] d) fun hc p d => by
    rw [home_cons_eq_none hc, Bool.not_eq_true']
  simpa using h

theorem belonging_here (n : Node) : n.belonging (some []) =
    (n.kids.flatMap fun c => c.belonging none).filter fun d => n.keepsAt [] d := by
  have h := @belonging_eq n (some []) (fun d => n.keepsAt [] d) home_cons_eq_here
  simpa using h

/-- What belongs to a scope within a kid is known from the kid alone. -/
theorem belonging_cons {n c : Node} {i : Nat} (h : n.kids[i]? = some c) (q : Position) :
    n.belonging (some (i :: q)) = c.belonging (some q) := by
  have hroot : (n.declaredAt []).filter (fun d => n.home [] d = some (i :: q)) = [] :=
    List.filter_eq_nil_iff.2 fun d _ => by simp [home]
  rw [belonging, flatMap_positions, hroot, List.nil_append, flatMap_zipIdx_single h]
  · refine List.flatMap_congr fun p _ => ?_
    rw [declaredAt_cons h]
    refine List.filter_congr fun d _ => ?_
    rw [decide_eq_decide, home_cons_eq_below h]
  · intro j b hj
    refine List.flatMap_eq_nil_iff.2 fun p _ => List.filter_eq_nil_iff.2 fun d _ hd => hj ?_
    exact head_eq_of_home (of_decide_eq_true hd)

/-- What belongs to the root scope is what leaves the tree. -/
theorem belonging_none_eq_outward (n : Node) : n.belonging none = n.outward hoisting := by
  have ih : (n.kids.flatMap fun c => c.belonging none) = n.kids.flatMap (outward hoisting) :=
    List.flatMap_congr fun c hc => belonging_none_eq_outward c
  rw [belonging_none, ih, outward_eq]
  cases ho : n.opening? hoisting <;> simp [keepsAt, openingAt?, ho]
termination_by sizeOf n
decreasing_by exact sizeOf_kid_lt hc

theorem ownedByRoot_eq (n : Node) :
    n.ownedByRoot = (n.outward hoisting).map DeclaredName.name := by
  rw [ownedByRoot, belonging_none_eq_outward]

/-- The names that a node owns if it opens a scope. -/
theorem owned_nil (n : Node) :
    n.owned [] = (n.opening? hoisting).elim [] (n.scopeNames hoisting) := by
  have hkids : (n.kids.flatMap fun c => c.belonging none) = n.kids.flatMap (outward hoisting) :=
    List.flatMap_congr fun c _ => c.belonging_none_eq_outward
  rw [owned, belonging_here, hkids]
  cases ho : n.opening? hoisting <;> simp [keepsAt, openingAt?, scopeNames, ho]

theorem owned_cons {n c : Node} {i : Nat} (h : n.kids[i]? = some c) (p : Position) :
    n.owned (i :: p) = c.owned p := by
  rw [owned, openingAt?_cons h, belonging_cons h, owned]

-- ---------------------------------------------------------------------------
-- References
-- ---------------------------------------------------------------------------

/-- A name is owned by a scope within a kid, or by that of the node. -/
theorem bound_cons {n c : Node} {i : Nat} (h : n.kids[i]? = some c) (p : Position) (name : String) :
    (∃ q ∈ Position.around (i :: p), name ∈ n.owned q) ↔
      (∃ q ∈ Position.around p, name ∈ c.owned q) ∨ name ∈ n.owned [] := by
  rw [Position.around_cons]
  simp only [List.mem_append, List.mem_map, List.mem_singleton, or_and_right, exists_or,
    exists_exists_and_eq_and, exists_eq_left, owned_cons h]

/-- The names that are free in a tree are those of the identifiers that no scope
around them owns. -/
theorem freeNames_eq_filterMap (n : Node) : n.freeNames hoisting =
    n.positions.filterMap fun p => ((n.at? p).bind identifierName?).filter fun name =>
      ¬ ∃ q ∈ Position.around p, name ∈ n.owned q := by
  -- around a position in a kid there are the scopes within the kid and that of the node
  have hkids : (n.kids.zipIdx.flatMap fun c => c.1.positions.filterMap fun p =>
        ((n.at? (c.2 :: p)).bind identifierName?).filter fun name =>
          ¬ ∃ q ∈ Position.around (c.2 :: p), name ∈ n.owned q) =
      (n.kids.flatMap (freeNames hoisting)).filter fun name => name ∉ n.owned [] := by
    rw [List.filter_flatMap]
    refine flatMap_zipIdx fun i c hc => ?_
    have : c ∈ n.kids := List.mem_of_getElem? hc
    rw [freeNames_eq_filterMap c, List.filter_filterMap]
    refine List.filterMap_congr fun p _ => ?_
    rw [at?_cons hc, Option.filter_filter]
    congr 1
    funext name
    rw [Bool.eq_iff_iff]
    simp only [bound_cons hc, decide_eq_true_iff, Bool.and_eq_true]
    exact not_or
  rw [filterMap_positions, hkids]
  cases hname : n.identifierName? with
  | some name =>
    obtain ⟨hkids, -⟩ := kids_of_identifier hname
    rw [freeNames_of_identifier hoisting hname, hkids]
    simp [hname, Option.filter]
  | none =>
    rw [freeNames_hoisting hname, owned_nil, opening?_hoisting]
    cases ho : n.opensScope? with
    | none => simp [hname]
    | some o =>
      simp only [at?_nil, Option.bind_some, hname, Option.filter_none, Option.toList_none,
        List.nil_append, Option.elim_some]
      exact List.filter_congr fun name _ => decide_eq_decide.2 Iff.rfl
termination_by sizeOf n
decreasing_by exact sizeOf_kid_lt this

theorem isMemberProperty_cons_cons {n c : Node} {i : Nat} (h : n.kids[i]? = some c) (j : Nat)
    (p : Position) : n.isMemberProperty (i :: j :: p) = c.isMemberProperty (j :: p) := by
  rw [isMemberProperty, List.getLast?_cons_cons, List.dropLast_cons_cons, at?_cons h,
    isMemberProperty]

theorem isStaticAccess_of_isOrdinary {n : Node} (h : n.form.isOrdinary = true) :
    n.isStaticAccess = false := by
  rw [isStaticAccess]
  split
  · rename_i isComputed _ heq
    rw [heq] at h
    cases isComputed
    · cases h
    · rfl
  · rfl

theorem of_isMemberName {n : Node} (h : n.isMemberName = true) :
    n.kids = [] ∧ n.identifierName? = none := by
  obtain ⟨span, f⟩ := n
  rw [isMemberName] at h
  split at h
  · rename_i heq
    obtain rfl : f = _ := heq
    exact ⟨rfl, rfl⟩
  · rename_i heq
    obtain rfl : f = _ := heq
    exact ⟨rfl, rfl⟩
  · cases h

end Node

namespace NamesApart

open Node

/-- A node that may stand anywhere has the kind `Identifier` only if it is an
identifier. -/
theorem identifierText?_eq {n : Node} (h : NamesApart n) :
    n.identifierText? = n.identifierName? := by
  cases h with
  | @ordinary span form hform hparts =>
    cases form <;> first | rfl | cases hform
  | access hobject hproperty => rfl

/-- A kid is the property of a member expression, and then it names a member, or
it may stand anywhere. -/
theorem kid {n c : Node} (h : NamesApart n) {i : Nat} (hc : n.kids[i]? = some c) :
    NamesApart c ∧ n.isMemberProperty [i] = false ∨
      c.isMemberName = true ∧ n.isMemberProperty [i] = true := by
  cases h with
  | @ordinary span form hform hparts =>
    refine .inl ⟨?_, ?_⟩
    · obtain ⟨o, ho, rfl⟩ := List.mem_filterMap.1 (List.mem_of_getElem? hc)
      exact hparts _ ho c rfl
    · simp [isMemberProperty, isStaticAccess_of_isOrdinary (n := .mk span form) hform]
  | @access span object property isOptional hobject hproperty =>
    match i, hc with
    | 0, hc =>
      obtain rfl : object = c := Option.some.inj hc
      exact .inl ⟨hobject, rfl⟩
    | 1, hc =>
      obtain rfl : property = c := Option.some.inj hc
      exact .inr ⟨hproperty, rfl⟩

end NamesApart

namespace Node

/-- In trees with names apart, identifiers refer to names and nothing else does. -/
theorem referenceAt?_eq {n : Node} (h : NamesApart n) (p : Position) :
    n.referenceAt? p = (n.at? p).bind identifierName? := by
  induction p generalizing n with
  | nil => exact h.identifierText?_eq
  | cons i p ih =>
    cases hc : n.kids[i]? with
    | none => simp [referenceAt?, at?, hc]
    | some c =>
      rw [referenceAt?, at?_cons hc]
      obtain ⟨hkid, hplain⟩ | ⟨hname, hproperty⟩ := h.kid hc
      · rw [← ih hkid, referenceAt?]
        cases p with
        | nil => rw [hplain]; rfl
        | cons j p => rw [isMemberProperty_cons_cons hc]
      · obtain ⟨hkids, hnone⟩ := of_isMemberName hname
        cases p with
        | nil => simp [hproperty, hnone]
        | cons j p => simp [at?, hkids]

/-- The free references are the free names of a statement. -/
theorem freeReferences_eq {n : Node} (h : NamesApart n) :
    n.freeReferences = n.statementFreeNames hoisting := by
  rw [freeReferences, statementFreeNames, freeNames_eq_filterMap, List.filter_filterMap]
  refine List.filterMap_congr fun p _ => ?_
  rw [referenceAt?_eq h, Option.filter_filter]
  congr 1
  funext name
  rw [Bool.eq_iff_iff]
  simp only [isBoundAt, ownedByRoot_eq, decide_eq_true_iff, Bool.and_eq_true]
  rw [not_or, and_comm]

end Node

-- ---------------------------------------------------------------------------
-- The analysis
-- ---------------------------------------------------------------------------

theorem NameSet.toList_insertAll (s : NameSet) (l : List String) :
    (s.insertAll l).toList = s.toList ++ (l.filter (· ∉ s.toList)).eraseDups := by
  induction l generalizing s with
  | nil => simp [insertAll]
  | cons a l ih =>
    show ((s.insert a).insertAll l).toList = _
    rw [ih, toList_insert]
    by_cases ha : a ∈ s.toList
    · rw [if_pos ha, List.filter_cons_of_neg (by simpa using ha)]
    · rw [if_neg ha, List.filter_cons_of_pos (by simpa using ha), List.eraseDups_cons,
        List.filter_filter, List.append_assoc, List.singleton_append]
      congr 3
      refine List.filter_congr fun b _ => ?_
      rw [Bool.eq_iff_iff]
      simp [and_comm]

theorem NameSet.toList_insertAll_empty (l : List String) :
    (empty.insertAll l).toList = l.eraseDups := by
  simp [toList_insertAll]

/-- The names bound in the root scope of a table. -/
theorem ScopeTable.hasOwn_root (t : ScopeTable) (name : String) :
    t.root.hasOwn name = true ↔ name ∈ t.own rootId := by
  rw [root, own, Scope.hasOwn, NameSet.contains_iff]
  cases t.get? rootId <;> rfl

namespace Node

/-- The root scope that the analysis keeps binds the names that a statement
defines. -/
theorem hasOwn_root_analyse (n : Node) (name : String) :
    n.analyse.root.hasOwn name = true ↔ name ∈ n.analyse.defines.toList := by
  have hown := @Binding.Extended.own _ _ _ n.binding_spec.extended ScopeTable.rootId
    Nat.one_pos name
  have hinitial : name ∉ Binding.initial.scopes.own ScopeTable.rootId := List.not_mem_nil
  rw [defines_analyse, NameSet.mem_insertAll]
  show (n.walk Binding.visit .initial).scopes.root.hasOwn name = true ↔ _
  rw [ScopeTable.hasOwn_root, hown]
  simp [landing_initial, hinitial]

end Node

theorem Statement.namesApart {text : String} {moduleId : Nat} {st : Statement}
    (hst : st ∈ statementsOf text moduleId) : NamesApart st.node := by
  obtain ⟨⟨span, form⟩, body, hparse, hbody, view, i, node, hnode, rfl⟩ :=
    exists_ofNode_of_mem hst
  obtain rfl : form = .program body := hbody
  exact each_map_some.1 ((namesApart_parse hparse).parts rfl) node hnode

/-- The analysis finds what the rules say, for each statement of an accepted text
that is no import: a statement defines the names that its root scope owns, in the
order in which they are first declared, the root scope that is kept binds these and
no others, and the statement depends on the names that are referred to where neither
a scope around nor the root scope owns them, in the order in which they first occur. -/
theorem analysis_exact {text : String} {moduleId : Nat} {st : Statement}
    (hst : st ∈ statementsOf text moduleId) (himport : st.node.isImport = false) :
    st.defines = st.node.ownedByRoot.eraseDups ∧
      (∀ name, st.analysis.root.hasOwn name = true ↔ name ∈ st.defines) ∧
        st.dependsOn = st.node.freeReferences.eraseDups := by
  rw [Statement.defines, Statement.dependsOn, Statement.analysis_eq hst himport]
  refine ⟨?_, st.node.hasOwn_root_analyse, ?_⟩
  · rw [Node.defines_analyse, NameSet.toList_insertAll_empty, Node.ownedByRoot_eq]
  · rw [Node.dependsOn_analyse, NameSet.toList_insertAll_empty,
      Node.freeReferences_eq (Statement.namesApart hst)]

/-- A function whose variable is hoisted out of a `try`, with an arrow function, a `catch` and a
`for` in it. -/
def hoistedText : String :=
  "function f(x) { try { g(i => y.z + i); var y = h } catch (e) { for (let k of e) k } return k }"

theorem analysis_exact_hoisted :
    ∃ st ∈ statementsOf hoistedText, st.defines = ["f"] ∧ st.dependsOn = ["g", "h", "k"] := by
  obtain ⟨st, hst, himport, hroot, hfree⟩ :
      ∃ st ∈ statementsOf hoistedText, st.node.isImport = false ∧
        st.node.ownedByRoot.eraseDups = ["f"] ∧
          st.node.freeReferences.eraseDups = ["g", "h", "k"] := by decide +kernel
  obtain ⟨hdefines, -, hdependsOn⟩ := analysis_exact hst himport
  exact ⟨st, hst, hdefines.trans hroot, hdependsOn.trans hfree⟩

end ModuleBundler

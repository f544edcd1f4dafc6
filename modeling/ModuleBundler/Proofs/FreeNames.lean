import ModuleBundler.Grammar.Module
import ModuleBundler.Proofs.Analysis

/-!
# ModuleBundler — no free name is missed

A statement depends on all names that are free in it, under the rules of the
analysis. These are simpler than the rules of ECMAScript in four points, and in
each of them a name can be bound that ECMAScript leaves free.

* `statementsOf` — the statements of a text.
* `free_mem_dependsOn` — free names are depended on.
* `ecmaScript_free_missed` — what the simpler rules miss.
-/

namespace ModuleBundler

/-- The statements of the module of a text, which may have any number; none, if the parser
refuses the text. -/
def statementsOf (text : String) (moduleId : Nat := 0) : List Statement :=
  match Node.parse text with
  | .ok program => program.statements text moduleId
  | .error _ => []

/-- The statements of a text are made from the parts of its tree. -/
theorem exists_ofNode_of_mem {text : String} {id : Nat} {st : Statement}
    (h : st ∈ statementsOf text id) :
    ∃ tree body, Node.parse text = .ok tree ∧ tree.form = .program body ∧
      ∃ view i, ∃ node ∈ body, st = Statement.ofNode id view i node := by
  rw [statementsOf] at h
  split at h
  · rename_i tree hparse
    rw [Node.statements] at h
    split at h
    · rename_i body hbody
      obtain ⟨i, hi, rfl⟩ := List.mem_mapIdx.1 h
      exact ⟨tree, body, hparse, hbody, _, i, body[i], List.getElem_mem hi, rfl⟩
    · cases h
  · cases h

theorem Statement.analysis_eq {text : String} {id : Nat} {st : Statement}
    (hst : st ∈ statementsOf text id) (himport : st.node.isImport = false) :
    st.analysis = st.node.analyse := by
  obtain ⟨_, _, -, -, _, _, _, -, rfl⟩ := exists_ofNode_of_mem hst
  exact if_neg (ne_true_of_eq_false himport)

/-- A statement other than an import defines what it declares for the module. -/
theorem Statement.mem_defines_iff {text : String} {id : Nat} {st : Statement}
    (hst : st ∈ statementsOf text id) (name : String) : name ∈ st.defines ↔
      st.node.isImport = false ∧ ∃ d ∈ st.node.outward .hoisting, d.name = name := by
  by_cases himport : st.node.isImport = true
  · obtain ⟨_, _, -, -, view, i, node, -, rfl⟩ := exists_ofNode_of_mem hst
    have hnone : (ofNode id view i node).analysis = .none := if_pos himport
    rw [Statement.defines, hnone, himport]
    simp [Analysis.none]
  · rw [Bool.not_eq_true] at himport
    rw [Statement.defines, Statement.analysis_eq hst himport, Node.defines_analyse,
      NameSet.mem_insertAll, List.mem_map]
    simp [himport]

/-- A statement other than an import depends on the names that are free in it and
on no others. -/
theorem Statement.mem_dependsOn_iff {text : String} {id : Nat} {st : Statement}
    (hst : st ∈ statementsOf text id) (himport : st.node.isImport = false) (name : String) :
    name ∈ st.dependsOn ↔ name ∈ st.node.statementFreeNames .hoisting := by
  rw [Statement.dependsOn, Statement.analysis_eq hst himport, Node.dependsOn_analyse,
    NameSet.mem_insertAll]
  exact or_iff_right List.not_mem_nil

/-- Each name that is free in a statement, by the rules of the analysis, is one
that the statement depends on. -/
theorem free_mem_dependsOn {text : String} {id : Nat} {st : Statement}
    (hst : st ∈ statementsOf text id) (himport : st.node.isImport = false) {name : String}
    (hfree : name ∈ st.node.statementFreeNames .hoisting) : name ∈ st.dependsOn :=
  (Statement.mem_dependsOn_iff hst himport name).2 hfree

theorem free_mem_dependsOn_nested : ∃ st ∈ statementsOf "f(x => { let y = x + z; return y; });",
    "z" ∈ st.node.statementFreeNames .hoisting ∧ "z" ∈ st.dependsOn := by
  obtain ⟨st, hst, himport, hfree⟩ :
      ∃ st ∈ statementsOf "f(x => { let y = x + z; return y; });", st.node.isImport = false ∧
        "z" ∈ st.node.statementFreeNames .hoisting := by decide +kernel
  exact ⟨st, hst, hfree, free_mem_dependsOn hst himport hfree⟩

/-- A text has a statement in which a name is free by the rules of ECMAScript, but
which does not depend on the name. -/
def Misses (text name : String) : Prop :=
  ∃ st ∈ statementsOf text, st.node.isImport = false ∧
    name ∈ st.node.statementFreeNames .ecmaScript ∧ name ∉ st.dependsOn

/-- What the rules of the analysis miss: a function or a class of another block, a
variable of a static block, a variable of the body in the default of a parameter,
and a name of the cases in the discriminant. -/
theorem ecmaScript_free_missed :
    Misses "if (a) { function f() {} } else { f(); }" "f" ∧
      Misses "if (a) { class C {} } else { new C(); }" "C" ∧
      Misses "class A { static { var v; } m() { return v; } }" "v" ∧
      Misses "function f(a = v) { var v; }" "v" ∧
      Misses "switch (x) { case 1: let x; }" "x" := by
  unfold Misses
  refine ⟨?_, ?_, ?_, ?_, ?_⟩ <;> decide +kernel

end ModuleBundler

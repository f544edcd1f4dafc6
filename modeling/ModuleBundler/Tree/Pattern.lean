import ModuleBundler.Tree.Form

/-!
# ModuleBundler — patterns

A pattern is what a declaration, a parameter or an assignment stores into. The
grammar meets some patterns as object and array literals first and finds out
later, at an equals sign or in a loop head, that they are patterns.

* `Node.boundNames` — the names that a pattern binds.
* `Node.toTarget` — a literal reread as the pattern it stands for.
-/

namespace ModuleBundler

namespace Node

/-- The parts of a pattern that hold the names it binds. A member expression may
be stored into but binds no name. -/
def targets (n : Node) : List Node :=
  match n.form with
  | .objectPattern ps => ps
  | .arrayPattern es => es.filterMap id
  | .property _ value _ _ => [value]
  | .assignmentPattern left _ => [left]
  | .restElement argument => [argument]
  | .parenthesizedExpression e => [e]
  | _ => []

theorem mem_kids_of_mem_targets {n c : Node} (h : c ∈ n.targets) : c ∈ n.kids := by
  obtain ⟨s, f⟩ := n
  simp only [targets, form] at h
  split at h <;> simp_all [kids, form, Form.children]

/-- The names that a pattern binds, in source order. -/
def boundNames (n : Node) : List String :=
  match n.identifierName? with
  | some name => [name]
  | none => n.targets.attach.flatMap fun c => boundNames c.1
termination_by sizeOf n
decreasing_by exact sizeOf_kid_lt (mem_kids_of_mem_targets c.2)

/-- A literal reread as the pattern it stands for: an object or array literal is
a pattern, a spread in it is a rest, and an assignment in it is a default. The
operands of other expressions are left alone, and so are parenthesized ones. -/
def toTarget : Node → Node
  | mk s (.objectExpression ps) => mk s (.objectPattern (ps.map toTarget))
  | mk s (.arrayExpression es) =>
    mk s (.arrayPattern (es.map fun e => e.attach.map fun ⟨element, _⟩ => element.toTarget))
  | mk s (.property key value kind shorthand) =>
    mk s (.property key value.toTarget kind shorthand)
  | mk s (.spreadElement argument) => mk s (.restElement argument.toTarget)
  | mk s (.restElement argument) => mk s (.restElement argument.toTarget)
  | mk s (.assignmentExpression (.punct .assign) left right) =>
    mk s (.assignmentPattern left.toTarget right)
  | n => n
termination_by n => sizeOf n
decreasing_by
  all_goals try decreasing_tactic
  have := List.sizeOf_lt_of_mem ‹_ ∈ es›
  simp_all
  omega

end Node

end ModuleBundler

import ModuleBundler.Scope.Table

/-!
# ModuleBundler — tables of scopes that hang together

A table hangs together if each parent has a smaller number than its child and
the root has none. Following parents then comes to an end at the root.

* `ScopeTable.Linked` — the property.
* `ScopeTable.contains_eq` — a name is bound in a scope itself or around it.
* `ScopeTable.landing_eq` — a name lands in a scope, or where it lands when it is
  declared in the parent.
-/

namespace ModuleBundler

namespace ScopeTable

variable {t : ScopeTable} {id : Nat}

-- ---------------------------------------------------------------------------
-- What is known of a scope
-- ---------------------------------------------------------------------------

/-- The names that are bound in a scope itself. -/
def own (t : ScopeTable) (id : Nat) : List String := (t.get? id).elim [] (·.names.toList)

/-- Whether a scope is a block scope. -/
def isBlockAt (t : ScopeTable) (id : Nat) : Bool := (t.get? id).any Scope.isBlock

/-- The scopes of a table hang together: parents come before their children, and
the root has no parent. -/
structure Linked (t : ScopeTable) : Prop where
  size_pos : 0 < t.size
  root : t.parent? rootId = none
  parent_lt : ∀ {id p : Nat}, t.parent? id = some p → p < id

theorem get?_eq_some_of_lt (h : id < t.size) : ∃ s, t.get? id = some s :=
  ⟨_, Array.getElem?_eq_getElem h⟩

theorem get?_eq_none (h : t.size ≤ id) : t.get? id = none := Array.getElem?_eq_none h

theorem parent?_of_get? {s : Scope} (h : t.get? id = some s) : t.parent? id = s.parent := by
  rw [parent?, h]
  rfl

-- ---------------------------------------------------------------------------
-- Following parents
-- ---------------------------------------------------------------------------

/-- More links than the number of a scope make no difference. -/
theorem Linked.findFrom_eq (h : t.Linked) (name : String) {n m : Nat} (hn : id < n)
    (hm : id < m) : t.findFrom name n id = t.findFrom name m id := by
  induction n generalizing m id with
  | zero => omega
  | succ n ih =>
    obtain ⟨m, rfl⟩ := Nat.exists_eq_succ_of_ne_zero (Nat.ne_of_gt (Nat.zero_lt_of_lt hm))
    rw [findFrom, findFrom]
    cases hs : t.get? id with
    | none => rfl
    | some s =>
      show (if _ then _ else _) = if _ then _ else _
      cases hp : s.parent with
      | none => rfl
      | some p =>
        have hlt : p < id := h.parent_lt ((parent?_of_get? hs).trans hp)
        rw [Option.bind_some, Option.bind_some, @ih p m (by omega) (by omega)]

theorem hasOwn_iff {s : Scope} (h : t.get? id = some s) {name : String} :
    s.hasOwn name = true ↔ name ∈ t.own id := by
  rw [own, h, Scope.hasOwn, NameSet.contains_iff]
  rfl

/-- A name is found in a scope itself, or else where it is found from the parent. -/
theorem Linked.find?_eq (h : t.Linked) (hid : id < t.size) (name : String) :
    t.find? id name =
      if name ∈ t.own id then some id else (t.parent? id).bind (t.find? · name) := by
  obtain ⟨s, hs⟩ := get?_eq_some_of_lt hid
  obtain ⟨n, hn⟩ := Nat.exists_eq_succ_of_ne_zero (Nat.ne_of_gt (Nat.zero_lt_of_lt hid))
  rw [find?, hn, findFrom, hs, parent?_of_get? hs]
  refine ite_congr (propext (hasOwn_iff hs)) (fun _ => rfl) fun _ => ?_
  cases hp : s.parent with
  | none => rfl
  | some p =>
    have hlt : p < id := h.parent_lt ((parent?_of_get? hs).trans hp)
    exact h.findFrom_eq name (by omega) (by omega)

/-- A name is bound in a scope itself or around it. -/
theorem Linked.contains_eq (h : t.Linked) (hid : id < t.size) (name : String) :
    t.contains id name = true ↔
      name ∈ t.own id ∨ ∃ p, t.parent? id = some p ∧ t.contains p name = true := by
  rw [contains, h.find?_eq hid]
  by_cases hname : name ∈ t.own id
  · simp [hname]
  · cases hp : t.parent? id with
    | none => simp [hname]
    | some p => simp [hname, contains]

/-- More links than the number of a scope make no difference. -/
theorem Linked.nonBlockFrom_eq (h : t.Linked) {n m : Nat} (hn : id < n) (hm : id < m) :
    t.nonBlockFrom n id = t.nonBlockFrom m id := by
  induction n generalizing m id with
  | zero => omega
  | succ n ih =>
    obtain ⟨m, rfl⟩ := Nat.exists_eq_succ_of_ne_zero (Nat.ne_of_gt (Nat.zero_lt_of_lt hm))
    rw [nonBlockFrom, nonBlockFrom]
    split
    · rename_i p _ _ hs
      have hlt : p < id := h.parent_lt (parent?_of_get? hs)
      exact ih (by omega) (by omega)
    · rfl

/-- A name that is declared for a block lands in the scope itself; another one
lands there unless the scope is a block scope, and else where it lands when it is
declared in the parent. -/
theorem Linked.landing_eq (h : t.Linked) (hid : id < t.size) (isBlockScoped : Bool) :
    t.landing id isBlockScoped =
      if isBlockScoped then id
      else if t.isBlockAt id then
        match t.parent? id with
        | some p => t.landing p false
        | none => id
      else id := by
  obtain ⟨⟨parent, depth, isBlock, names⟩, hs⟩ := get?_eq_some_of_lt hid
  cases isBlockScoped with
  | true => rfl
  | false =>
    obtain ⟨n, hn⟩ := Nat.exists_eq_succ_of_ne_zero (Nat.ne_of_gt (Nat.zero_lt_of_lt hid))
    rw [landing, isBlockAt, hs, parent?_of_get? hs, hn, nonBlockFrom, hs]
    cases isBlock with
    | false => cases parent <;> rfl
    | true =>
      cases parent with
      | none => rfl
      | some p =>
        have hlt : p < id := h.parent_lt (parent?_of_get? hs)
        simp only [Bool.false_eq_true, ↓reduceIte, Option.any_some, landing]
        exact h.nonBlockFrom_eq (by omega) (by omega)

/-- Names land at or before the scope that they are declared in. -/
theorem Linked.landing_le (h : t.Linked) (hid : id < t.size) (isBlockScoped : Bool) :
    t.landing id isBlockScoped ≤ id := by
  induction id using Nat.strongRecOn generalizing isBlockScoped with
  | _ id ih =>
    rw [h.landing_eq hid]
    split
    · exact Nat.le_refl id
    · split
      · cases hp : t.parent? id with
        | none => exact Nat.le_refl id
        | some p =>
          have hlt := h.parent_lt hp
          exact Nat.le_trans (ih p hlt (by omega) false) (Nat.le_of_lt hlt)
      · exact Nat.le_refl id

-- ---------------------------------------------------------------------------
-- Binding and opening
-- ---------------------------------------------------------------------------

@[simp] theorem size_bind (t : ScopeTable) (id : Nat) (name : String) :
    (t.bind id name).size = t.size := by
  simp [bind, size]

theorem get?_bind (t : ScopeTable) (id : Nat) (name : String) (other : Nat) :
    (t.bind id name).get? other =
      (t.get? other).map fun s => if id = other then { s with names := s.names.insert name }
        else s := by
  rw [get?, bind, get?, Array.getElem?_modify]
  split
  · rfl
  · simp

@[simp] theorem parent?_bind (t : ScopeTable) (id : Nat) (name : String) (other : Nat) :
    (t.bind id name).parent? other = t.parent? other := by
  rw [parent?, parent?, get?_bind]
  cases t.get? other with
  | none => rfl
  | some s =>
    show Scope.parent (if _ then _ else _) = s.parent
    split <;> rfl

@[simp] theorem isBlockAt_bind (t : ScopeTable) (id : Nat) (name : String) (other : Nat) :
    (t.bind id name).isBlockAt other = t.isBlockAt other := by
  rw [isBlockAt, isBlockAt, get?_bind]
  cases t.get? other with
  | none => rfl
  | some s =>
    show Scope.isBlock (if _ then _ else _) = s.isBlock
    split <;> rfl

theorem mem_own_bind {t : ScopeTable} {id : Nat} (hid : id < t.size) {name other : String}
    {j : Nat} : other ∈ (t.bind id name).own j ↔ other ∈ t.own j ∨ id = j ∧ other = name := by
  rw [own, own, get?_bind]
  by_cases hj : id = j
  · subst hj
    obtain ⟨s, hs⟩ := get?_eq_some_of_lt hid
    simp [hs]
  · simp [hj]

@[simp] theorem size_push (t : ScopeTable) (parent : Nat) (isBlock : Bool) :
    (t.push parent isBlock).size = t.size + 1 := by
  simp [push, size]

/-- A scope that is opened has the next number. -/
theorem get?_push (t : ScopeTable) (parent : Nat) (isBlock : Bool) (id : Nat) :
    (t.push parent isBlock).get? id =
      if id = t.size then some (.bare (some parent) ((t.get? parent).elim 0 (·.depth + 1)) isBlock)
      else t.get? id :=
  Array.getElem?_push

theorem get?_push_of_lt (hid : id < t.size) (parent : Nat) (isBlock : Bool) :
    (t.push parent isBlock).get? id = t.get? id := by
  rw [get?_push, if_neg (Nat.ne_of_lt hid)]

theorem get?_push_size (t : ScopeTable) (parent : Nat) (isBlock : Bool) :
    ∃ depth, (t.push parent isBlock).get? t.size = some (.bare (some parent) depth isBlock) :=
  ⟨(t.get? parent).elim 0 (·.depth + 1), by rw [get?_push, if_pos rfl]⟩

end ScopeTable

end ModuleBundler

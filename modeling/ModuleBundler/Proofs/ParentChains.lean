import Mathlib.Data.List.Perm.Subperm
import Mathlib.Logic.Relation
import ModuleBundler.Proofs.ScopeHistories

/-!
# ModuleBundler — chains of parents that end, and others

A scope may be opened under any number, also under that of a scope that does not exist yet. Numbers
are given out in order: the missing scope may exist later and lead back to the one that was opened
under it, and the next number is that of the new scope itself. Its parents then go in a circle, and
so do the loops that follow them, when a name moves out of blocks or is searched for.

The loops are stated here without any bound. All of them follow parents, and they differ in where
they stop before the parents do. Whether they end is said of the calls that opened the scopes. Where
a loop ends, it comes to the same as with the bound of the table, since it passes no scope twice.

* `walk` — parents are followed up to a place to stop at.
* `Unbounded.landing`, `Unbounded.find?`, `Unbounded.build` — the loops of a table, and the calls
  with them.
* `Passes` — the scopes that a walk leaves behind; `Passes.unique`, `Passes.nodup`.
* `Circles` — parents lead back to a scope from one that was not there when it was opened.
* `exists_outermost_iff` — the parents of a scope come to an end, or they circle.
* `parents_end_iff` — which loops end after some calls.
-/

namespace ModuleBundler

namespace ScopeTable

open Relation (ReflTransGen TransGen)

-- ---------------------------------------------------------------------------
-- The loops without bounds
-- ---------------------------------------------------------------------------

/-- Follows parents up to a scope to stop at, or one without a parent, or a missing one. -/
def walk (t : ScopeTable) (stop : Nat → Bool) (id : Nat) : Option Nat :=
  if stop id then some id
  else
    match t.parent? id with
    | none => some id
    | some p => t |>.walk stop p
partial_fixpoint

/-- Where the parents of a scope come to an end. -/
def outermost (t : ScopeTable) (id : Nat) : Option Nat := t.walk (fun _ => false) id

/-- Whether a name is bound in a scope itself. -/
def bindsAt (t : ScopeTable) (name : String) (id : Nat) : Bool := (t.get? id).any (·.hasOwn name)

namespace Unbounded

/-- The scope that a name lands in when it is declared in a scope. -/
def landing (t : ScopeTable) (id : Nat) (isBlockDeclaration : Bool) : Option Nat :=
  if isBlockDeclaration then some id else t.walk (fun k => !t.isBlockAt k) id

/-- The nearest scope from a number upward that binds a name itself. -/
def find? (t : ScopeTable) (id : Nat) (name : String) : Option (Option Nat) :=
  (t.walk (t.bindsAt name) id).map fun last => if t.bindsAt name last then some last else none

/-- A call, as far as it comes to an end. -/
def apply (t : ScopeTable) : Call → Option ScopeTable
  | .push parent isBlock => some (t.push parent isBlock)
  | .add id name isBlockDeclaration => (landing t id isBlockDeclaration).map (t.bind · name)

/-- The table that some calls lead to, if all of them come to an end. -/
def build (calls : List Call) : Option ScopeTable := calls.foldlM apply .initial

end Unbounded

-- ---------------------------------------------------------------------------
-- The scopes that a walk passes
-- ---------------------------------------------------------------------------

/-- A scope hangs under another one. -/
def Under (t : ScopeTable) (id parent : Nat) : Prop := t.parent? id = some parent

/-- A walk leaves scopes behind, the first one first, and ends. -/
inductive Passes (t : ScopeTable) (stop : Nat → Bool) : Nat → List Nat → Nat → Prop
  | here {id : Nat} (h : stop id = true ∨ t.parent? id = none) : Passes t stop id [] id
  | onward {id p last : Nat} {l : List Nat} (hstop : stop id = false) (hp : t.parent? id = some p)
    (h : Passes t stop p l last) : Passes t stop id (id :: l) last

variable {t u : ScopeTable} {stop : Nat → Bool} {id p k last : Nat} {l : List Nat}

/-- A walk that ends has passed finitely many scopes. -/
theorem walk_eq_some_iff : t.walk stop id = some last ↔ ∃ l, t.Passes stop id l last := by
  constructor
  · refine walk.partial_correctness t stop (fun id last => ∃ l, t.Passes stop id l last) ?_ id last
    intro walk ih id last h
    split at h
    · rename_i hstop
      cases h
      exact ⟨[], .here (.inl hstop)⟩
    · rename_i hstop
      split at h
      · rename_i hp
        cases h
        exact ⟨[], .here (.inr hp)⟩
      · rename_i p hp
        obtain ⟨l, hl⟩ := ih p last h
        exact ⟨id :: l, .onward (Bool.eq_false_iff.2 hstop) hp hl⟩
  · rintro ⟨l, h⟩
    induction h with
    | here h =>
      rw [walk]
      rcases h with hstop | hp
      · rw [if_pos hstop]
      · rw [hp, ite_self]
    | onward hstop hp _ ih =>
      rw [walk, hstop, hp]
      exact ih

theorem lt_size_of_parent? (h : t.parent? id = some p) : id < t.size := by
  obtain ⟨s, hs, -⟩ := Option.bind_eq_some_iff.1 h
  exact lt_size_of_get? hs

/-- Different numbers of scopes are no more than there are scopes. -/
theorem length_le_of_nodup {size : Nat} (h : l.Nodup) (hlt : ∀ k ∈ l, k < size) :
    l.length ≤ size := by
  have hsub : l ⊆ List.range size := fun k hk => List.mem_range.2 (hlt k hk)
  simpa using (List.subperm_of_subset h hsub).length_le

namespace Passes

/-- Walks go one way only. -/
theorem unique {m : List Nat} {other : Nat} (h : t.Passes stop id l last)
    (h' : t.Passes stop id m other) : l = m ∧ last = other := by
  induction h generalizing m with
  | here h =>
    cases h' with
    | here => exact ⟨rfl, rfl⟩
    | onward hstop hp => simp [hstop, hp] at h
  | onward hstop hp _ ih =>
    cases h' with
    | here h' => simp [hstop, hp] at h'
    | onward _ hp' h' =>
      cases hp.symm.trans hp'
      obtain ⟨rfl, rfl⟩ := ih h'
      exact ⟨rfl, rfl⟩

/-- From each scope that it passes, a walk goes on as if it had begun there. -/
theorem of_mem (h : t.Passes stop id l last) (hk : k ∈ l ++ [last]) :
    ∃ m, t.Passes stop k m last ∧ m.length ≤ l.length := by
  induction h with
  | here h =>
    cases List.mem_singleton.1 hk
    exact ⟨[], .here h, Nat.le_refl _⟩
  | @onward id p last l hstop hp h ih =>
    rcases List.mem_cons.1 hk with rfl | hk
    · exact ⟨_, .onward hstop hp h, Nat.le_refl _⟩
    · obtain ⟨m, hm, hle⟩ := ih hk
      exact ⟨m, hm, Nat.le_succ_of_le hle⟩

/-- A walk ends at a scope around the one where it begins. -/
theorem reaches (h : t.Passes stop id l last) :
    ReflTransGen t.Under id last ∧ (stop last = true ∨ t.parent? last = none) := by
  induction h with
  | here h => exact ⟨.refl, h⟩
  | onward _ hp _ ih => exact ⟨.head hp ih.1, ih.2⟩

/-- A walk that ends comes nowhere for a second time. -/
theorem nodup (h : t.Passes stop id l last) : (l ++ [last]).Nodup := by
  induction h with
  | here => exact List.nodup_cons.2 ⟨List.not_mem_nil, List.nodup_nil⟩
  | onward hstop hp h ih =>
    refine List.nodup_cons.2 ⟨fun hmem => ?_, ih⟩
    obtain ⟨m, hm, hle⟩ := h.of_mem hmem
    obtain ⟨rfl, -⟩ := (Passes.onward hstop hp h).unique hm
    rw [List.length_cons] at hle
    omega

/-- A scope that a walk leaves exists. -/
theorem lt_size (h : t.Passes stop id l last) (hk : k ∈ l) : k < t.size := by
  induction h with
  | here => cases hk
  | onward _ hp _ ih =>
    rcases List.mem_cons.1 hk with rfl | hk
    · exact lt_size_of_parent? hp
    · exact ih hk

/-- A walk leaves at most all scopes behind, and fewer if it ends at a scope. -/
theorem length_le (h : t.Passes stop id l last) :
    l.length ≤ t.size ∧ (last < t.size → l.length < t.size) := by
  obtain ⟨hl, -, -⟩ := List.nodup_append.1 h.nodup
  refine ⟨length_le_of_nodup hl fun k => h.lt_size, fun hlast => ?_⟩
  have hle : (l ++ [last]).length ≤ t.size := by
    refine length_le_of_nodup h.nodup fun k hk => ?_
    rcases List.mem_append.1 hk with hk | hk
    · exact h.lt_size hk
    · rwa [List.mem_singleton.1 hk]
  rwa [List.length_append] at hle

end Passes

-- ---------------------------------------------------------------------------
-- The bounds of the table
-- ---------------------------------------------------------------------------

theorem nonBlockFrom_succ (t : ScopeTable) (n id : Nat) :
    t.nonBlockFrom (n + 1) id =
      if t.isBlockAt id then ((t.parent? id).map (t.nonBlockFrom n)).getD id else id := by
  rw [nonBlockFrom, isBlockAt, parent?]
  cases t.get? id with
  | none => rfl
  | some s =>
    obtain ⟨parent, depth, isBlock, names⟩ := s
    cases parent <;> cases isBlock <;> rfl

theorem findFrom_succ (t : ScopeTable) (name : String) (n id : Nat) :
    t.findFrom name (n + 1) id =
      if t.bindsAt name id then some id else (t.parent? id).bind (t.findFrom name n) := by
  rw [findFrom, bindsAt, parent?]
  cases t.get? id <;> rfl

theorem bindsAt_iff {name : String} : t.bindsAt name id = true ↔ name ∈ t.own id := by
  rw [bindsAt, own]
  cases t.get? id with
  | none => simp
  | some s => exact NameSet.contains_iff

namespace Passes

/-- The bounded loop ends as the walk does if its bound lets it. -/
theorem nonBlockFrom_eq (h : t.Passes (fun k => !t.isBlockAt k) id l last) {n : Nat}
    (hn : l.length ≤ n) : t.nonBlockFrom n id = last := by
  induction h generalizing n with
  | @here id h =>
    cases n with
    | zero => rfl
    | succ n =>
      rw [nonBlockFrom_succ]
      rcases h with hstop | hp
      · rw [Bool.not_eq_true'] at hstop
        rw [hstop]
        rfl
      · rw [hp]
        exact ite_self id
  | onward hstop hp _ ih =>
    cases n with
    | zero => cases hn
    | succ n =>
      rw [Bool.not_eq_false'] at hstop
      rw [nonBlockFrom_succ, hstop, hp]
      exact ih (Nat.le_of_succ_le_succ hn)

/-- The bounded search ends as the walk does if its bound lets it. -/
theorem findFrom_eq {name : String} (h : t.Passes (t.bindsAt name) id l last) {n : Nat}
    (hn : l.length ≤ n) (hlast : last < t.size → l.length < n) :
    t.findFrom name n id = if t.bindsAt name last then some last else none := by
  induction h generalizing n with
  | @here id h =>
    cases n with
    | zero =>
      have hid : t.size ≤ id := by
        by_contra hlt
        exact Nat.not_lt_zero _ (hlast (by omega))
      have hnone : t.bindsAt name id = false := by
        rw [bindsAt, get?_eq_none hid]
        rfl
      rw [hnone]
      rfl
    | succ n =>
      rw [findFrom_succ]
      rcases h with hstop | hp
      · rw [hstop]
        rfl
      · rw [hp]
        rfl
  | onward hstop hp _ ih =>
    cases n with
    | zero => cases hn
    | succ n =>
      rw [findFrom_succ, hstop, hp]
      exact ih (Nat.le_of_succ_le_succ hn) fun hid => Nat.lt_of_succ_lt_succ (hlast hid)

end Passes

/-- What the bounded search finds, the walk comes to. -/
theorem exists_passes_of_findFrom {name : String} {n : Nat} (h : t.findFrom name n id = some k) :
    ∃ l, t.Passes (t.bindsAt name) id l k := by
  induction n generalizing id with
  | zero => cases h
  | succ n ih =>
    rw [findFrom_succ] at h
    cases hbinds : t.bindsAt name id with
    | true =>
      rw [hbinds] at h
      cases h
      exact ⟨[], .here (.inl hbinds)⟩
    | false =>
      rw [hbinds] at h
      obtain ⟨p, hp, hfound⟩ := Option.bind_eq_some_iff.1 h
      obtain ⟨l, hl⟩ := ih hfound
      exact ⟨id :: l, .onward hbinds hp hl⟩

namespace Unbounded

/-- A name that lands somewhere lands where the table says. -/
theorem landing_eq {isBlockDeclaration : Bool} (h : landing t id isBlockDeclaration = some k) :
    t.landing id isBlockDeclaration = k := by
  cases isBlockDeclaration with
  | true => exact Option.some.inj h
  | false =>
    obtain ⟨l, hl⟩ := walk_eq_some_iff.1 h
    exact hl.nonBlockFrom_eq hl.length_le.1

/-- The table says what a search comes to, and that there is nothing where it has no end. -/
theorem find?_eq (t : ScopeTable) (id : Nat) (name : String) :
    t.find? id name = (find? t id name).join := by
  rw [find?]
  cases hwalk : t.walk (t.bindsAt name) id with
  | some last =>
    obtain ⟨l, hl⟩ := walk_eq_some_iff.1 hwalk
    exact hl.findFrom_eq hl.length_le.1 hl.length_le.2
  | none =>
    refine Option.eq_none_iff_forall_ne_some.2 fun k hk => ?_
    have hends : t.walk (t.bindsAt name) id = some k :=
      walk_eq_some_iff.2 (exists_passes_of_findFrom hk)
    cases hwalk.symm.trans hends

theorem apply_eq {call : Call} (h : apply t call = some u) : call.apply t = u := by
  cases call with
  | push parent isBlock => exact Option.some.inj h
  | add id name isBlockDeclaration =>
    obtain ⟨k, hk, rfl⟩ := Option.map_eq_some_iff.1 h
    rw [Call.apply, add, landing_eq hk]

/-- Calls that all end lead to the table that they lead to with bounds. -/
theorem build_eq {calls : List Call} (h : build calls = some t) : ScopeTable.build calls = t := by
  rw [build] at h
  rw [ScopeTable.build]
  generalize ScopeTable.initial = first at h ⊢
  induction calls generalizing first with
  | nil => exact Option.some.inj h
  | cons call calls ih =>
    rw [List.foldlM_cons] at h
    obtain ⟨next, hnext, hrest⟩ := Option.bind_eq_some_iff.1 h
    rw [List.foldl_cons, apply_eq hnext]
    exact ih next hrest

end Unbounded

-- ---------------------------------------------------------------------------
-- Circles
-- ---------------------------------------------------------------------------

/-- Parents lead from a number to a scope with a parent that does not come before it, and from this
parent back to the scope. -/
def Circles (under : Nat → Nat → Prop) (id : Nat) : Prop :=
  ∃ k p, ReflTransGen under id k ∧ under k p ∧ k ≤ p ∧ ReflTransGen under p k

section Circles

variable {under : Nat → Nat → Prop}

/-- Where nothing circles, what leads back to a scope comes before it. -/
theorem lt_of_not_circles (h : ¬Circles under id) (hk : ReflTransGen under id k)
    (hp : TransGen under k p) (hback : ReflTransGen under p k) : p < k := by
  induction hp with
  | single hkp =>
    by_contra hlt
    exact h ⟨k, _, hk, hkp, by omega, hback⟩
  | @tail b c hkb hbc ih =>
    have hb : b < k := ih (.head hbc hback)
    have hc : c < b := by
      by_contra hlt
      exact h ⟨b, c, hk.trans hkb.to_reflTransGen, hbc, by omega, hback.trans hkb.to_reflTransGen⟩
    omega

/-- Where nothing circles, no scope is around itself. -/
theorem not_transGen_of_not_circles (h : ¬Circles under id) (hk : ReflTransGen under id k) :
    ¬TransGen under k k :=
  fun hcycle => Nat.lt_irrefl k (lt_of_not_circles h hk hcycle .refl)

end Circles

/-- Parents that come to an end do so from every scope around. -/
theorem Passes.of_reflTransGen (h : t.Passes (fun _ => false) id l last)
    (hk : ReflTransGen t.Under id k) :
    ∃ m, t.Passes (fun _ => false) k m last ∧ m.length ≤ l.length := by
  induction hk with
  | refl => exact ⟨l, h, Nat.le_refl _⟩
  | tail _ hp ih =>
    obtain ⟨m, hm, hle⟩ := ih
    rw [Under] at hp
    cases hm with
    | here hnone => simp [hp] at hnone
    | onward _ hp' hm =>
      cases hp.symm.trans hp'
      exact ⟨_, hm, Nat.le_of_succ_le hle⟩

/-- Parents that come to an end do not circle. -/
theorem Passes.not_circles (h : t.Passes (fun _ => false) id l last) : ¬Circles t.Under id := by
  rintro ⟨k, p, hk, hp, -, hback⟩
  obtain ⟨m, hm, -⟩ := h.of_reflTransGen hk
  rw [Under] at hp
  cases hm with
  | here hnone => simp [hp] at hnone
  | @onward _ _ _ m hstop hp' hm =>
    cases hp.symm.trans hp'
    -- the walk from the scope is longer than the one from its parent, which leads to it again
    obtain ⟨n, hn, hle⟩ := hm.of_reflTransGen hback
    obtain ⟨rfl, -⟩ := (Passes.onward hstop hp hm).unique hn
    rw [List.length_cons] at hle
    omega

/-- Parents that do not circle come to an end. Each step leaves a further scope behind, and there
are only so many. -/
theorem exists_passes {first : Nat} (h : ¬Circles t.Under first) {seen : List Nat}
    (hnodup : seen.Nodup) (hseen : ∀ k ∈ seen, k < t.size ∧ TransGen t.Under k id)
    (hid : ReflTransGen t.Under first id) :
    ∃ l last, t.Passes (fun _ => false) id l last := by
  induction hsize : t.size - seen.length using Nat.strongRecOn generalizing seen id with
  | _ n ih =>
    cases hp : t.parent? id with
    | none => exact ⟨[], id, .here (.inr hp)⟩
    | some p =>
      have hnot : id ∉ seen := fun hmem => not_transGen_of_not_circles h hid (hseen id hmem).2
      have hnodup' : (id :: seen).Nodup := List.nodup_cons.2 ⟨hnot, hnodup⟩
      have hseen' : ∀ k ∈ id :: seen, k < t.size ∧ TransGen t.Under k p := by
        intro k hk
        rcases List.mem_cons.1 hk with rfl | hk
        · exact ⟨lt_size_of_parent? hp, .single hp⟩
        · exact ⟨(hseen k hk).1, (hseen k hk).2.tail hp⟩
      have hlength : seen.length + 1 ≤ t.size :=
        length_le_of_nodup hnodup' fun k hk => (hseen' k hk).1
      have hless : t.size - (id :: seen).length < n := by
        rw [← hsize, List.length_cons]
        omega
      obtain ⟨l, last, hl⟩ := ih _ hless hnodup' hseen' (hid.tail hp) rfl
      exact ⟨id :: l, last, .onward rfl hp hl⟩

/-- The parents of a scope come to an end unless they circle. -/
theorem exists_outermost_iff : (∃ last, t.outermost id = some last) ↔ ¬Circles t.Under id := by
  simp only [outermost, walk_eq_some_iff]
  constructor
  · rintro ⟨last, l, hl⟩
    exact hl.not_circles
  · intro h
    obtain ⟨l, last, hl⟩ := exists_passes h List.nodup_nil (by simp) .refl
    exact ⟨last, l, hl⟩

/-- A walk ends where parents end, or at a scope around to stop at. -/
theorem exists_walk_iff : (∃ last, t.walk stop id = some last) ↔
    (∃ last, t.outermost id = some last) ∨ ∃ k, ReflTransGen t.Under id k ∧ stop k = true := by
  simp only [outermost, walk_eq_some_iff]
  constructor
  · rintro ⟨last, l, hl⟩
    induction hl with
    | @here id h =>
      rcases h with hstop | hp
      · exact .inr ⟨id, .refl, hstop⟩
      · exact .inl ⟨id, [], .here (.inr hp)⟩
    | onward _ hp _ ih =>
      rcases ih with ⟨last, l, hl⟩ | ⟨k, hk, hstop⟩
      · exact .inl ⟨last, _, .onward rfl hp hl⟩
      · exact .inr ⟨k, .head hp hk, hstop⟩
  · -- a walk ends at the scope where it begins, or else one step later
    have hstep : ∀ {id p}, t.parent? id = some p → (∃ last l, t.Passes stop p l last) →
        ∃ last l, t.Passes stop id l last := by
      rintro id p hp ⟨last, l, hl⟩
      cases hstop : stop id with
      | true => exact ⟨id, [], .here (.inl hstop)⟩
      | false => exact ⟨last, _, .onward hstop hp hl⟩
    rintro (⟨last, l, hl⟩ | ⟨k, hk, hstop⟩)
    · induction hl with
      | @here id h => exact ⟨id, [], .here (.inr (by simpa using h))⟩
      | onward _ hp _ ih => exact hstep hp ih
    · induction hk using ReflTransGen.head_induction_on with
      | refl => exact ⟨k, [], .here (.inl hstop)⟩
      | head hp _ ih => exact hstep hp ih

-- ---------------------------------------------------------------------------
-- Who was opened under whom
-- ---------------------------------------------------------------------------

/-- The number that a call opens a scope under. -/
def Call.parent? : Call → Option Nat
  | .push parent _ => some parent
  | .add .. => none

/-- The numbers that scopes were opened under, in the order in which they were opened. -/
def openings (calls : List Call) : List Nat := calls.filterMap Call.parent?

/-- A scope was opened under a number. The root was not opened, so the scopes count from one. -/
def OpenedUnder (calls : List Call) (id parent : Nat) : Prop :=
  ∃ n, id = n + 1 ∧ (openings calls)[n]? = some parent

theorem parent?_push (t : ScopeTable) (parent : Nat) (isBlock : Bool) (id : Nat) :
    (t.push parent isBlock).parent? id = if id = t.size then some parent else t.parent? id := by
  rw [parent?, get?_push]
  split <;> rfl

theorem openings_concat (calls : List Call) (call : Call) :
    openings (calls ++ [call]) = openings calls ++ call.parent?.toList := by
  rw [openings, List.filterMap_append, ← openings]
  cases call <;> rfl

/-- There are as many scopes as were opened, and the root. -/
theorem size_build (calls : List Call) : (build calls).size = (openings calls).length + 1 := by
  induction calls using List.reverseRecOn with
  | nil => rfl
  | append_singleton calls call ih =>
    rw [build_concat, openings_concat, List.length_append]
    cases call with
    | push parent isBlock => rw [Call.apply, size_push, ih]; rfl
    | add id name isBlockDeclaration => rw [Call.apply, add, size_bind, ih]; rfl

/-- Scopes hang where they were opened, whatever was declared in the meantime. -/
theorem parent?_build (calls : List Call) :
    (build calls).parent? rootId = none ∧
      ∀ n, (build calls).parent? (n + 1) = (openings calls)[n]? := by
  induction calls using List.reverseRecOn with
  | nil => exact ⟨rfl, fun n => rfl⟩
  | append_singleton calls call ih =>
    obtain ⟨hroot, hopened⟩ := ih
    rw [build_concat, openings_concat]
    cases call with
    | add id name isBlockDeclaration =>
      simp only [Call.apply, add, parent?_bind, Call.parent?, Option.toList_none, List.append_nil]
      exact ⟨hroot, hopened⟩
    | push parent isBlock =>
      simp only [Call.apply, parent?_push, size_build, Call.parent?, Option.toList_some,
        List.getElem?_append, hroot, hopened]
      refine ⟨if_neg (Nat.zero_ne_add_one _), fun n => ?_⟩
      rcases Nat.lt_trichotomy n (openings calls).length with hlt | rfl | hgt
      · rw [if_neg (by omega), if_pos hlt]
      · simp
      · have hnone : (openings calls)[n]? = none := List.getElem?_eq_none (Nat.le_of_lt hgt)
        have hbeyond : [parent][n - (openings calls).length]? = none :=
          List.getElem?_eq_none (Nat.sub_pos_of_lt hgt)
        rw [if_neg (by omega), if_neg (by omega), hnone, hbeyond]

theorem under_build (calls : List Call) : (build calls).Under = OpenedUnder calls := by
  obtain ⟨hroot, hopened⟩ := parent?_build calls
  funext id p
  cases id with
  | zero => simp [Under, OpenedUnder, show (build calls).parent? 0 = none from hroot]
  | succ n => simp [Under, OpenedUnder, hopened]

/-- Nothing circles among scopes that were opened under scopes. -/
theorem not_circles_of_allAllowed {calls : List Call} (h : AllAllowed calls) (id : Nat) :
    ¬Circles (OpenedUnder calls) id := by
  rw [← under_build]
  rintro ⟨k, p, -, hp, hle, -⟩
  have hlt : p < k := (rooted_build h).1.linked.parent_lt hp
  omega

/-- A scope that was opened under its own number circles, whatever is called later. -/
theorem circles_own (calls : List Call) (isBlock : Bool) (later : List Call) :
    Circles (OpenedUnder (calls ++ .push (build calls).size isBlock :: later))
      (build calls).size := by
  have hopened : OpenedUnder (calls ++ .push (build calls).size isBlock :: later)
      (build calls).size (build calls).size := by
    refine ⟨(openings calls).length, size_build calls, ?_⟩
    rw [openings, List.filterMap_append, ← openings, List.getElem?_append_right (Nat.le_refl _)]
    simp [Call.parent?]
  exact ⟨_, _, .refl, hopened, Nat.le_refl _, .refl⟩

-- ---------------------------------------------------------------------------
-- Which loops end
-- ---------------------------------------------------------------------------

/-- Which loops from a number come to an end after some calls, and how. -/
structure Endings (calls : List Call) (t : ScopeTable) (id : Nat) : Prop where
  parents : (∃ last, t.outermost id = some last) ↔ ¬Circles (OpenedUnder calls) id
  /-- Parents end at the root or at a missing scope. -/
  last : ∀ last, t.outermost id = some last →
    ReflTransGen (OpenedUnder calls) id last ∧ (last = rootId ∨ t.size ≤ last)
  /-- A declaration for a block needs no loop. Another one ends where parents do, or in a scope
  around that is no block scope. -/
  landing : ∀ isBlockDeclaration,
    (∃ k, Unbounded.landing t id isBlockDeclaration = some k) ↔
      isBlockDeclaration = true ∨ ¬Circles (OpenedUnder calls) id ∨
        ∃ k, ReflTransGen (OpenedUnder calls) id k ∧ t.isBlockAt k = false
  landing_eq : ∀ isBlockDeclaration k, Unbounded.landing t id isBlockDeclaration = some k →
    t.landing id isBlockDeclaration = k
  /-- A search ends where parents do, or at a scope around that binds the name. -/
  find : ∀ name, (∃ found, Unbounded.find? t id name = some found) ↔
    ¬Circles (OpenedUnder calls) id ∨ ∃ k, ReflTransGen (OpenedUnder calls) id k ∧ name ∈ t.own k
  /-- With its bound, a search that has no end finds nothing. -/
  find_eq : ∀ name, t.find? id name = (Unbounded.find? t id name).join

theorem endings_build (calls : List Call) (id : Nat) : Endings calls (build calls) id := by
  have hunder := under_build calls
  have hparents : (∃ last, (build calls).outermost id = some last) ↔
      ¬Circles (OpenedUnder calls) id := hunder ▸ exists_outermost_iff
  constructor
  case parents => exact hparents
  case last =>
    intro last hlast
    obtain ⟨l, hl⟩ := walk_eq_some_iff.1 hlast
    obtain ⟨hreaches, hnone⟩ := hl.reaches
    refine ⟨hunder ▸ hreaches, ?_⟩
    cases last with
    | zero => exact .inl rfl
    | succ n =>
      rw [(parent?_build calls).2 n] at hnone
      have hle : (openings calls).length ≤ n := by simpa using hnone
      rw [size_build]
      exact .inr (by omega)
  case landing =>
    intro isBlockDeclaration
    cases isBlockDeclaration with
    | true => exact iff_of_true ⟨id, rfl⟩ (.inl rfl)
    | false =>
      refine exists_walk_iff.trans ?_
      rw [hparents, hunder]
      simp
  case landing_eq => exact fun _ _ => Unbounded.landing_eq
  case find =>
    intro name
    have hends : (∃ found, Unbounded.find? (build calls) id name = some found) ↔
        ∃ last, (build calls).walk ((build calls).bindsAt name) id = some last := by
      simp [Unbounded.find?]
    rw [hends, exists_walk_iff, hparents, hunder]
    simp only [bindsAt_iff]
  case find_eq => exact fun name => Unbounded.find?_eq _ id name

/-- After calls that came to an end, parents from a number come to an end just if they do not
circle, and so do the loops that find no scope to stop at before. They do not circle if each scope
was opened under one that existed. But a scope may always be opened under its own number, and
from then on its parents have no end. -/
theorem parents_end_iff {calls : List Call} {t : ScopeTable}
    (h : Unbounded.build calls = some t) :
    build calls = t ∧ (∀ id, Endings calls t id) ∧
      (AllAllowed calls → ∀ id, ¬Circles (OpenedUnder calls) id) ∧
      ∀ isBlock,
        Unbounded.build (calls ++ [.push t.size isBlock]) = some (t.push t.size isBlock) ∧
          ∀ later u, Unbounded.build (calls ++ .push t.size isBlock :: later) = some u →
            u.outermost t.size = none := by
  have hbuild := Unbounded.build_eq h
  refine ⟨hbuild, fun id => hbuild ▸ endings_build calls id, not_circles_of_allAllowed,
    fun isBlock => ⟨?_, fun later u hu => ?_⟩⟩
  · rw [Unbounded.build, List.foldlM_append, ← Unbounded.build, h]
    rfl
  · obtain rfl := Unbounded.build_eq hu
    subst hbuild
    rw [Option.eq_none_iff_forall_ne_some]
    intro last hlast
    exact (endings_build _ _).parents.1 ⟨last, hlast⟩ (circles_own calls isBlock later)

/-- Two block scopes, the first one opened under the second one before there was any. -/
theorem parents_end_iff_circle :
    ∃ t, Unbounded.build [.push 2 true, .push 1 true] = some t ∧ t.outermost 1 = none ∧
      Unbounded.landing t 1 false = none ∧ Unbounded.find? t 1 "x" = none := by
  have h : Unbounded.build [.push 2 true, .push 1 true] =
      some (build [.push 2 true, .push 1 true]) := rfl
  have hcircles : Circles (OpenedUnder [.push 2 true, .push 1 true]) 1 :=
    ⟨1, 2, .refl, ⟨0, rfl, rfl⟩, by decide, .single ⟨1, rfl, rfl⟩⟩
  have haround : ∀ k, ReflTransGen (OpenedUnder [.push 2 true, .push 1 true]) 1 k →
      k = 1 ∨ k = 2 := by
    intro k hk
    induction hk with
    | refl => exact .inl rfl
    | tail _ hp ih =>
      obtain ⟨n, hn, hp⟩ := hp
      rcases ih with rfl | rfl
      · cases Nat.succ.inj hn
        exact .inr (Option.some.inj hp).symm
      · cases Nat.succ.inj hn
        exact .inl (Option.some.inj hp).symm
  obtain ⟨hparents, -, hlanding, -, hfind, -⟩ := (parents_end_iff h).2.1 1
  refine ⟨_, h, ?_, ?_, ?_⟩
  · refine Option.eq_none_iff_forall_ne_some.2 fun last hlast => ?_
    exact hparents.1 ⟨last, hlast⟩ hcircles
  · refine Option.eq_none_iff_forall_ne_some.2 fun k hk => ?_
    rcases (hlanding false).1 ⟨k, hk⟩ with hblock | hends | ⟨j, hj, hblock⟩
    · cases hblock
    · exact hends hcircles
    · rcases haround j hj with rfl | rfl <;> cases hblock
  · refine Option.eq_none_iff_forall_ne_some.2 fun found hfound => ?_
    rcases (hfind "x").1 ⟨found, hfound⟩ with hends | ⟨j, hj, hname⟩
    · exact hends hcircles
    · rcases haround j hj with rfl | rfl <;> cases hname

end ScopeTable

end ModuleBundler

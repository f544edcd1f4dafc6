import Mathlib.Data.List.Induction
import ModuleBundler.Proofs.Scopes

/-!
# ModuleBundler — tables of scopes and how they came about

Scopes are opened and names are added to them in any order, from anywhere in the tree that the
scopes make up. A name that is not declared for a block lands further out, so what a scope binds
depends on all that was added below it. Two invariants of single calls say what a whole history
leads to: each scope but the root hangs one step below a scope with a smaller number, and a scope
binds just what some call before made land there.

* `ScopeTable.Rooted` — the tree of the scopes, and `Rooted.apply`, a call keeps it.
* `ScopeTable.Ancestors`, `Nearest` — the scopes around a scope, and the first one with a
  property.
* `ScopeTable.Binds` — a name landed in a scope in the course of some calls.
* `ScopeTable.laws_build` — what holds of a table after any calls.
-/

namespace ModuleBundler

/-- The first member of a list that has a property. -/
def Nearest {α : Type} (P : α → Prop) (l : List α) (a : α) : Prop :=
  ∃ nearer farther, l = nearer ++ a :: farther ∧ P a ∧ ∀ b ∈ nearer, ¬P b

namespace Nearest

variable {α : Type} {P : α → Prop} {l : List α} {a b : α}

theorem not_nil : ¬Nearest P [] a := by
  rintro ⟨nearer, farther, heq, -⟩
  exact List.append_ne_nil_of_right_ne_nil nearer (List.cons_ne_nil a farther) heq.symm

theorem cons_iff : Nearest P (a :: l) b ↔ (P a ∧ a = b) ∨ (¬P a ∧ Nearest P l b) := by
  constructor
  · rintro ⟨nearer, farther, heq, hb, hnearer⟩
    cases nearer with
    | nil =>
      cases heq
      exact .inl ⟨hb, rfl⟩
    | cons c nearer =>
      cases heq
      obtain ⟨ha, hnearer⟩ := List.forall_mem_cons.1 hnearer
      exact .inr ⟨ha, nearer, farther, rfl, hb, hnearer⟩
  · rintro (⟨ha, rfl⟩ | ⟨ha, nearer, farther, rfl, hb, hnearer⟩)
    · exact ⟨[], l, rfl, ha, by simp⟩
    · exact ⟨a :: nearer, farther, rfl, hb, List.forall_mem_cons.2 ⟨ha, hnearer⟩⟩

/-- Where no member is the nearest, none has the property. -/
theorem forall_not_iff : (∀ b, ¬Nearest P l b) ↔ ∀ b ∈ l, ¬P b := by
  induction l with
  | nil => simp [not_nil]
  | cons a l ih =>
    simp only [cons_iff, List.forall_mem_cons, ← ih]
    by_cases ha : P a <;> simp [ha]

end Nearest

namespace ScopeTable

variable {t : ScopeTable} {id : Nat}

-- ---------------------------------------------------------------------------
-- The tree of the scopes
-- ---------------------------------------------------------------------------

/-- The root is no block scope, and every other scope hangs one step below a scope that has a
smaller number. -/
structure Rooted (t : ScopeTable) : Prop where
  root : ∃ s, t.get? rootId = some s ∧ s.parent = none ∧ s.depth = 0 ∧ s.isBlock = false
  below : ∀ {id : Nat} {s : Scope}, t.get? id = some s → id ≠ rootId →
    ∃ p q, s.parent = some p ∧ p < id ∧ t.get? p = some q ∧ s.depth = q.depth + 1

theorem lt_size_of_get? {s : Scope} (h : t.get? id = some s) : id < t.size :=
  (Array.getElem?_eq_some_iff.1 h).1

namespace Rooted

theorem linked (h : t.Rooted) : t.Linked := by
  obtain ⟨r, hr, hparent, -, -⟩ := h.root
  have hroot : t.parent? rootId = none := (parent?_of_get? hr).trans hparent
  refine ⟨lt_size_of_get? hr, hroot, fun {id p} hp => ?_⟩
  obtain ⟨s, hs, hsp⟩ := Option.bind_eq_some_iff.1 hp
  obtain ⟨q, -, hq, hlt, -⟩ := h.below hs (by rintro rfl; simp [hroot] at hp)
  cases hsp.symm.trans hq
  exact hlt

theorem initial : ScopeTable.initial.Rooted := by
  refine ⟨⟨.root, rfl, rfl, rfl, rfl⟩, fun {id s} hs hne => ?_⟩
  have hlt : id < 1 := lt_size_of_get? hs
  exact absurd (Nat.lt_one_iff.1 hlt) hne

theorem push (h : t.Rooted) {parent : Nat} (hparent : parent < t.size) (isBlock : Bool) :
    (t.push parent isBlock).Rooted := by
  constructor
  case root =>
    obtain ⟨r, hr, hrest⟩ := h.root
    exact ⟨r, (get?_push_of_lt (lt_size_of_get? hr) _ _).trans hr, hrest⟩
  case below =>
    intro id s hs hne
    have hid := lt_size_of_get? hs
    rw [size_push] at hid
    rcases Nat.lt_succ_iff_lt_or_eq.1 hid with hlt | rfl
    · rw [get?_push_of_lt hlt] at hs
      obtain ⟨p, q, hp, hpid, hq, hdepth⟩ := h.below hs hne
      exact ⟨p, q, hp, hpid, (get?_push_of_lt (Nat.lt_trans hpid hlt) _ _).trans hq, hdepth⟩
    · obtain ⟨q, hq⟩ := get?_eq_some_of_lt hparent
      have hnew : (t.push parent isBlock).get? t.size =
          some (.bare (some parent) (q.depth + 1) isBlock) := by
        rw [get?_push, if_pos rfl, hq]
        rfl
      cases hs.symm.trans hnew
      exact ⟨parent, q, rfl, hparent, (get?_push_of_lt hparent _ _).trans hq, rfl⟩

theorem bind (h : t.Rooted) (id : Nat) (name : String) : (t.bind id name).Rooted := by
  have hget : ∀ {j s}, t.get? j = some s → ∃ s', (t.bind id name).get? j = some s' ∧
      s'.parent = s.parent ∧ s'.depth = s.depth ∧ s'.isBlock = s.isBlock := by
    intro j s hs
    rw [get?_bind, hs, Option.map_some]
    refine ⟨_, rfl, ?_⟩
    split <;> exact ⟨rfl, rfl, rfl⟩
  constructor
  case root =>
    obtain ⟨r, hr, hparent, hdepth, hblock⟩ := h.root
    obtain ⟨r', hr', hparent', hdepth', hblock'⟩ := hget hr
    exact ⟨r', hr', hparent'.trans hparent, hdepth'.trans hdepth, hblock'.trans hblock⟩
  case below =>
    intro j s' hs' hne
    obtain ⟨s, hs⟩ : ∃ s, t.get? j = some s :=
      get?_eq_some_of_lt (by simpa using lt_size_of_get? hs')
    obtain ⟨s'', hs'', hparent', hdepth', -⟩ := hget hs
    cases hs'.symm.trans hs''
    obtain ⟨p, q, hp, hlt, hq, hdepth⟩ := h.below hs hne
    obtain ⟨q', hq', -, hqdepth, -⟩ := hget hq
    exact ⟨p, q', hparent'.trans hp, hlt, hq', by rw [hdepth', hdepth, hqdepth]⟩

end Rooted

-- ---------------------------------------------------------------------------
-- The scopes around a scope
-- ---------------------------------------------------------------------------

/-- The scopes around a scope, the nearest one first. -/
inductive Ancestors (t : ScopeTable) : Nat → List Nat → Prop
  | root {id : Nat} (h : t.parent? id = none) : Ancestors t id []
  | under {id p : Nat} {l : List Nat} (h : t.parent? id = some p) (hl : Ancestors t p l) :
    Ancestors t id (p :: l)

theorem Ancestors.unique {l m : List Nat} (hl : t.Ancestors id l) (hm : t.Ancestors id m) :
    l = m := by
  induction hl generalizing m with
  | root h =>
    cases hm with
    | root => rfl
    | under h' => cases h.symm.trans h'
  | under h _ ih =>
    cases hm with
    | root h' => cases h.symm.trans h'
    | under h' hm' =>
      cases h.symm.trans h'
      exact congrArg _ (ih hm')

/-- A scope has as many ancestors as it is deep. -/
theorem Rooted.exists_ancestors (h : t.Rooted) {s : Scope} (hs : t.get? id = some s) :
    ∃ l, t.Ancestors id l ∧ s.depth = l.length := by
  induction id using Nat.strongRecOn generalizing s with
  | _ id ih =>
    by_cases hid : id = rootId
    · subst hid
      obtain ⟨r, hr, hparent, hdepth, -⟩ := h.root
      cases hs.symm.trans hr
      exact ⟨[], .root ((parent?_of_get? hs).trans hparent), hdepth⟩
    · obtain ⟨p, q, hp, hlt, hq, hdepth⟩ := h.below hs hid
      obtain ⟨l, hl, hlength⟩ := ih p hlt hq
      exact ⟨p :: l, .under ((parent?_of_get? hs).trans hp) hl, by rw [hdepth, hlength]; rfl⟩

/-- What is not declared for a block lands in the nearest scope that is no block scope. The root
is none, so there is one. -/
theorem Rooted.nearest_landing (h : t.Rooted) {id : Nat} {l : List Nat} (hl : t.Ancestors id l)
    (hid : id < t.size) : Nearest (t.isBlockAt · = false) (id :: l) (t.landing id false) := by
  rw [h.linked.landing_eq hid, Nearest.cons_iff]
  cases hblock : t.isBlockAt id with
  | false => exact .inl ⟨rfl, rfl⟩
  | true =>
    cases hl with
    | root hnone =>
      obtain ⟨s, hs⟩ := get?_eq_some_of_lt hid
      have hroot : id = rootId := by
        refine Decidable.byContradiction fun hne => ?_
        obtain ⟨p, -, hp, -⟩ := h.below hs hne
        cases hnone.symm.trans ((parent?_of_get? hs).trans hp)
      obtain ⟨r, hr, -, -, hnoblock⟩ := h.root
      rw [hroot, isBlockAt, hr] at hblock
      cases hblock.symm.trans hnoblock
    | under hp hl =>
      rw [hp]
      exact .inr ⟨Bool.noConfusion, h.nearest_landing hl (Nat.lt_trans (h.linked.parent_lt hp) hid)⟩

/-- The search from a scope finds the nearest scope that binds a name itself. -/
theorem Rooted.find?_eq_some_iff (h : t.Rooted) {id : Nat} {l : List Nat} (hl : t.Ancestors id l)
    (hid : id < t.size) {name : String} {j : Nat} :
    t.find? id name = some j ↔ Nearest (name ∈ t.own ·) (id :: l) j := by
  rw [h.linked.find?_eq hid, Nearest.cons_iff]
  by_cases hname : name ∈ t.own id
  · simp [hname]
  · cases hl with
    | root hnone => simp [hname, hnone, Nearest.not_nil]
    | @under _ p _ hp hl =>
      have hrec : t.find? p name = some j ↔ _ :=
        h.find?_eq_some_iff hl (Nat.lt_trans (h.linked.parent_lt hp) hid)
      simp [hname, hp, hrec]

-- ---------------------------------------------------------------------------
-- Calls
-- ---------------------------------------------------------------------------

/-- A call that changes a table. -/
inductive Call where
  | push (parent : Nat) (isBlock : Bool)
  | add (id : Nat) (name : String) (isBlockDeclaration : Bool)

namespace Call

def apply (t : ScopeTable) : Call → ScopeTable
  | push parent isBlock => t.push parent isBlock
  | add id name isBlockDeclaration => t.add id name isBlockDeclaration

/-- A scope is opened under one that exists. Names may be added to any number. -/
def Allowed (t : ScopeTable) : Call → Prop
  | push parent _ => parent < t.size
  | add .. => True

instance (t : ScopeTable) : (call : Call) → Decidable (call.Allowed t)
  | push parent _ => inferInstanceAs (Decidable (parent < t.size))
  | add .. => inferInstanceAs (Decidable True)

/-- A call makes a name land in a scope. -/
def Lands (t : ScopeTable) (id : Nat) (name : String) : Call → Prop
  | push .. => False
  | add source added isBlockDeclaration =>
    source < t.size ∧ t.landing source isBlockDeclaration = id ∧ name = added

end Call

/-- The table that some calls lead to. -/
def build (calls : List Call) : ScopeTable := calls.foldl Call.apply .initial

/-- Each call is allowed where it is made. -/
def AllAllowed (calls : List Call) : Prop :=
  ∀ n, ∀ h : n < calls.length, calls[n].Allowed (build (calls.take n))

instance (calls : List Call) : Decidable (AllAllowed calls) :=
  inferInstanceAs (Decidable (∀ n, ∀ _ : n < calls.length, _))

/-- Some call makes a name land in a scope. -/
def Binds (calls : List Call) (id : Nat) (name : String) : Prop :=
  ∃ n, ∃ h : n < calls.length, calls[n].Lands (build (calls.take n)) id name

variable {calls : List Call} {call : Call} {name : String}

theorem build_concat (calls : List Call) (call : Call) :
    build (calls ++ [call]) = call.apply (build calls) := by
  rw [build, List.foldl_append]
  rfl

theorem allAllowed_concat :
    AllAllowed (calls ++ [call]) ↔ AllAllowed calls ∧ call.Allowed (build calls) := by
  simp only [AllAllowed, List.length_append, List.length_singleton, Nat.forall_lt_succ_right']
  refine and_congr (forall_congr' fun n => forall_congr' fun h => ?_) ?_
  · rw [List.getElem_append_left h, List.take_append_of_le_length (Nat.le_of_lt h)]
  · simp

theorem binds_concat :
    Binds (calls ++ [call]) id name ↔ Binds calls id name ∨ call.Lands (build calls) id name := by
  simp only [Binds, List.length_append, List.length_singleton, Nat.exists_lt_succ_right']
  refine or_congr (exists_congr fun n => exists_congr fun h => ?_) ?_
  · rw [List.getElem_append_left h, List.take_append_of_le_length (Nat.le_of_lt h)]
  · simp

theorem own_push (t : ScopeTable) (parent : Nat) (isBlock : Bool) (id : Nat) :
    (t.push parent isBlock).own id = t.own id := by
  rw [own, own, get?_push]
  split
  · rename_i hid
    rw [get?_eq_none (Nat.le_of_eq hid.symm)]
    rfl
  · rfl

/-- A call keeps the tree of the scopes. -/
theorem Rooted.apply (h : t.Rooted) (hcall : call.Allowed t) : (call.apply t).Rooted := by
  cases call with
  | push parent isBlock => exact h.push hcall isBlock
  | add id name isBlockDeclaration => exact h.bind _ name

/-- To add a name to a scope that does not exist changes nothing. -/
theorem add_of_le (h : t.size ≤ id) (name : String) (isBlockDeclaration : Bool) :
    t.add id name isBlockDeclaration = t := by
  have hlanding : t.landing id isBlockDeclaration = id := by
    rw [landing]
    split
    · rfl
    · cases t.size with
      | zero => rfl
      | succ n => rw [nonBlockFrom, get?_eq_none h]
  have hbind : t.scopes.modify id (fun s => { s with names := s.names.insert name }) = t.scopes := by
    refine Array.ext_getElem? fun j => ?_
    rw [Array.getElem?_modify]
    split
    · rename_i hj
      subst hj
      rw [Array.getElem?_eq_none h]
      rfl
    · rfl
  rw [add, hlanding, bind, hbind]

/-- No name is found from a scope that does not exist. -/
theorem find?_of_le (h : t.size ≤ id) (name : String) : t.find? id name = none := by
  rw [find?]
  cases t.size with
  | zero => rfl
  | succ n => rw [findFrom, get?_eq_none h]

/-- A call binds the names that it makes land somewhere, and no others. -/
theorem Rooted.mem_own_apply (h : t.Rooted) :
    name ∈ (call.apply t).own id ↔ name ∈ t.own id ∨ call.Lands t id name := by
  cases call with
  | push parent isBlock => simp [Call.apply, Call.Lands, own_push]
  | add source added isBlockDeclaration =>
    by_cases hsource : source < t.size
    · have hlanding := Nat.lt_of_le_of_lt (h.linked.landing_le hsource isBlockDeclaration) hsource
      simp only [Call.apply, add, mem_own_bind hlanding, Call.Lands, hsource, true_and]
    · simp [Call.apply, Call.Lands, hsource, add_of_le (Nat.le_of_not_lt hsource)]

/-- After some calls the scopes make up a tree and bind what landed in them. -/
theorem rooted_build (h : AllAllowed calls) :
    (build calls).Rooted ∧ ∀ id name, name ∈ (build calls).own id ↔ Binds calls id name := by
  induction calls using List.reverseRecOn with
  | nil =>
    refine ⟨.initial, fun id name => iff_of_false ?_ (by simp [Binds])⟩
    cases id <;> simp [build, own, get?, initial, Scope.root, Scope.bare]
  | append_singleton calls call ih =>
    obtain ⟨hcalls, hcall⟩ := allAllowed_concat.1 h
    obtain ⟨hrooted, hown⟩ := ih hcalls
    rw [build_concat]
    exact ⟨hrooted.apply hcall, fun id name => by rw [hrooted.mem_own_apply, hown, binds_concat]⟩

-- ---------------------------------------------------------------------------
-- Laws
-- ---------------------------------------------------------------------------

/-- What holds of a table after some calls. -/
structure Laws (calls : List Call) (t : ScopeTable) : Prop where
  root : ∃ s, t.get? rootId = some s ∧ s.parent = none ∧ s.isBlock = false
  parent_lt : ∀ id s, t.get? id = some s → id ≠ rootId → ∃ p, s.parent = some p ∧ p < id
  ancestors : ∀ id s, t.get? id = some s →
    ∃ l, t.Ancestors id l ∧ (∀ m, t.Ancestors id m → m = l) ∧ s.depth = l.length
  landing_block : ∀ id, t.landing id true = id
  landing : ∀ id l, id < t.size → t.Ancestors id l →
    Nearest (t.isBlockAt · = false) (id :: l) (t.landing id false)
  /-- A name is bound where it lands, and nothing else changes. -/
  add : ∀ id name isBlockDeclaration, id < t.size →
    t.landing id isBlockDeclaration < t.size ∧
      (t.add id name isBlockDeclaration).size = t.size ∧
      ∀ k s, t.get? k = some s →
        ∃ names, (t.add id name isBlockDeclaration).get? k = some { s with names := names } ∧
          ∀ other, other ∈ names.toList ↔
            other ∈ s.names.toList ∨ k = t.landing id isBlockDeclaration ∧ other = name
  own : ∀ id name, name ∈ t.own id ↔ Binds calls id name
  find : ∀ id l name j, id < t.size → t.Ancestors id l →
    (t.find? id name = some j ↔ Nearest (Binds calls · name) (id :: l) j)
  find_none : ∀ id l name, id < t.size → t.Ancestors id l →
    (t.find? id name = none ↔ ∀ k ∈ id :: l, ¬Binds calls k name)
  missing : ∀ id name isBlockDeclaration, t.size ≤ id →
    t.add id name isBlockDeclaration = t ∧ t.find? id name = none

theorem laws_build (h : AllAllowed calls) : Laws calls (build calls) := by
  obtain ⟨hrooted, hown⟩ := rooted_build h
  have hfind : ∀ id l name j, id < (build calls).size → (build calls).Ancestors id l →
      ((build calls).find? id name = some j ↔ Nearest (Binds calls · name) (id :: l) j) := by
    intro id l name j hid hl
    rw [hrooted.find?_eq_some_iff hl hid]
    simp only [hown]
  constructor
  case root =>
    obtain ⟨s, hs, hparent, -, hblock⟩ := hrooted.root
    exact ⟨s, hs, hparent, hblock⟩
  case parent_lt =>
    intro id s hs hne
    obtain ⟨p, -, hp, hlt, -⟩ := hrooted.below hs hne
    exact ⟨p, hp, hlt⟩
  case ancestors =>
    intro id s hs
    obtain ⟨l, hl, hdepth⟩ := hrooted.exists_ancestors hs
    exact ⟨l, hl, fun m hm => hm.unique hl, hdepth⟩
  case landing_block => exact fun _ => rfl
  case landing => exact fun id l hid hl => hrooted.nearest_landing hl hid
  case add =>
    intro id name isBlockDeclaration hid
    refine ⟨Nat.lt_of_le_of_lt (hrooted.linked.landing_le hid _) hid, size_bind .., fun k s hs => ?_⟩
    rw [add, get?_bind, hs, Option.map_some]
    split
    · rename_i hk
      exact ⟨_, rfl, fun other => by simp [hk]⟩
    · rename_i hk
      exact ⟨s.names, rfl, fun other => by simp [Ne.symm hk]⟩
  case own => exact hown
  case find => exact hfind
  case find_none =>
    intro id l name hid hl
    rw [← Nearest.forall_not_iff, Option.eq_none_iff_forall_ne_some]
    exact forall_congr' fun j => not_congr (hfind id l name j hid hl)
  case missing => exact fun id name _ hid => ⟨add_of_le hid name _, find?_of_le hid name⟩

/-- A variable that leaves two blocks, next to a name of the inner one. -/
theorem laws_build_blocks :
    let calls : List Call := [.push 0 false, .push 1 true, .push 2 true, .add 3 "v" false,
      .add 3 "l" true]
    Laws calls (build calls) ∧ (build calls).landing 3 false = 1 ∧
      (build calls).find? 3 "v" = some 1 ∧ (build calls).find? 3 "l" = some 3 :=
  ⟨laws_build (by decide +kernel), by decide +kernel, by decide +kernel, by decide +kernel⟩

end ScopeTable

end ModuleBundler

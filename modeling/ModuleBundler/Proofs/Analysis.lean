import ModuleBundler.Proofs.Scopes
import ModuleBundler.Proofs.Scoping
import ModuleBundler.Proofs.Traversal

/-!
# ModuleBundler — what the two traversals find out

The first traversal of a statement leaves a table of scopes in which each scope
holds the names that the tree says; the second one finds its way through that
table by counting, and is left with the names that are free.

* `Binding.Extended` — what declarations do to the state of the first traversal.
* `Layout` — a table holds the scopes of trees, numbered as they are met.
* `Binding.traverse_spec`, `References.traverse_spec` — the two traversals.
* `Node.defines_analyse`, `Node.dependsOn_analyse` — what the analysis yields.
-/

namespace ModuleBundler

open ScopingRules (hoisting)

-- ---------------------------------------------------------------------------
-- Sets of names
-- ---------------------------------------------------------------------------

namespace NameSet

theorem insertAll_append (s : NameSet) (l m : List String) :
    s.insertAll (l ++ m) = (s.insertAll l).insertAll m := List.foldl_append

theorem mem_insertAll {s : NameSet} {l : List String} {name : String} :
    name ∈ (s.insertAll l).toList ↔ name ∈ s.toList ∨ name ∈ l := by
  induction l generalizing s with
  | nil => simp [insertAll]
  | cons a l ih =>
    show name ∈ ((s.insert a).insertAll l).toList ↔ _
    rw [ih, mem_insert, List.mem_cons, or_assoc]

end NameSet

-- ---------------------------------------------------------------------------
-- The first traversal: declarations
-- ---------------------------------------------------------------------------

namespace Binding

/-- The scopes hang together, and the current one is there. -/
structure Good (b : Binding) : Prop where
  linked : b.scopes.Linked
  current_lt : b.current < b.scopes.size

/-- The scope that a declaration lands in. -/
def landing (b : Binding) (d : DeclaredName) : Nat := b.scopes.landing b.current d.isBlockScoped

/-- Declarations were added, and maybe scopes; the scopes that were there before
have changed only in that the declared names were bound where they land. -/
structure Extended (b c : Binding) (ds : List DeclaredName) : Prop where
  linked : c.scopes.Linked
  current : c.current = b.current
  size_le : b.scopes.size ≤ c.scopes.size
  parent : ∀ {id}, id < b.scopes.size → c.scopes.parent? id = b.scopes.parent? id
  isBlock : ∀ {id}, id < b.scopes.size → c.scopes.isBlockAt id = b.scopes.isBlockAt id
  own : ∀ {id}, id < b.scopes.size → ∀ name, name ∈ c.scopes.own id ↔
    name ∈ b.scopes.own id ∨ ∃ d ∈ ds, b.landing d = id ∧ d.name = name
  defines : c.defines = b.defines.insertAll
    ((ds.filter fun d => b.landing d = ScopeTable.rootId).map DeclaredName.name)

/-- Where names land is not changed by more scopes. -/
theorem landing_congr {t u : ScopeTable} (ht : t.Linked) (hu : u.Linked) (hle : t.size ≤ u.size)
    (hparent : ∀ {id}, id < t.size → u.parent? id = t.parent? id)
    (hblock : ∀ {id}, id < t.size → u.isBlockAt id = t.isBlockAt id) {id : Nat}
    (hid : id < t.size) (isBlockScoped : Bool) :
    u.landing id isBlockScoped = t.landing id isBlockScoped := by
  induction id using Nat.strongRecOn generalizing isBlockScoped with
  | _ id ih =>
    rw [ht.landing_eq hid, hu.landing_eq (by omega), hparent hid, hblock hid]
    cases hp : t.parent? id with
    | none => rfl
    | some p =>
      have hlt := ht.parent_lt hp
      simp only [ih p hlt (by omega)]

namespace Extended

variable {b c d : Binding} {ds es : List DeclaredName}

theorem good (h : b.Extended c ds) (hb : b.Good) : c.Good := by
  refine ⟨h.linked, ?_⟩
  have := hb.current_lt
  have := h.size_le
  rw [h.current]
  omega

theorem landing (h : b.Extended c ds) (hb : b.Good) : c.landing = b.landing := by
  funext e
  rw [Binding.landing, h.current]
  exact landing_congr hb.linked h.linked h.size_le h.parent h.isBlock hb.current_lt _

theorem refl (hb : b.Good) : b.Extended b [] :=
  ⟨hb.linked, rfl, Nat.le_refl _, fun _ => rfl, fun _ => rfl, fun _ _ => by simp, rfl⟩

theorem trans (hb : b.Good) (h : b.Extended c ds) (k : c.Extended d es) :
    b.Extended d (ds ++ es) := by
  have hlt : ∀ {id}, id < b.scopes.size → id < c.scopes.size := fun hid =>
    Nat.lt_of_lt_of_le hid h.size_le
  refine ⟨k.linked, k.current.trans h.current, Nat.le_trans h.size_le k.size_le,
    fun hid => (k.parent (hlt hid)).trans (h.parent hid),
    fun hid => (k.isBlock (hlt hid)).trans (h.isBlock hid), fun hid name => ?_, ?_⟩
  · rw [k.own (hlt hid), h.own hid, h.landing hb]
    simp only [List.mem_append]
    grind
  · rw [k.defines, h.defines, h.landing hb, List.filter_append, List.map_append,
      NameSet.insertAll_append]

end Extended

theorem Good.landing_lt {b : Binding} (hb : b.Good) (d : DeclaredName) :
    b.landing d < b.scopes.size :=
  Nat.lt_of_le_of_lt (hb.linked.landing_le hb.current_lt _) hb.current_lt

theorem linked_bind {t : ScopeTable} (h : t.Linked) (id : Nat) (name : String) :
    (t.bind id name).Linked :=
  ⟨by simpa using h.size_pos, by simpa using h.root, fun hp => h.parent_lt (by simpa using hp)⟩

theorem Good.declare {b : Binding} (hb : b.Good) (d : DeclaredName) :
    b.Extended (b.declare d.isBlockScoped d.name) [d] := by
  refine ⟨linked_bind hb.linked _ _, rfl, by simp [Binding.declare], fun _ => by
    simp [Binding.declare], fun _ => by simp [Binding.declare], fun {id} hid name => ?_, ?_⟩
  · show name ∈ (b.scopes.bind (b.landing d) d.name).own id ↔ _
    rw [ScopeTable.mem_own_bind (hb.landing_lt d)]
    simp [eq_comm]
  · show (if b.landing d = ScopeTable.rootId then _ else _) = _
    split <;> rename_i hroot <;> simp [hroot, NameSet.insertAll]

theorem Good.declareAll {b : Binding} (hb : b.Good) (isBlockScoped : Bool) (names : List String) :
    b.Extended (names.foldl (Binding.declare · isBlockScoped) b)
      (names.map (.mk isBlockScoped)) := by
  induction names generalizing b with
  | nil => exact .refl hb
  | cons name names ih =>
    have h := hb.declare ⟨isBlockScoped, name⟩
    exact h.trans hb (ih (h.good hb))

-- ---------------------------------------------------------------------------
-- The first traversal: scopes
-- ---------------------------------------------------------------------------

theorem own_foldl_bind {t : ScopeTable} {id : Nat} (hid : id < t.size) (names : List String)
    (j : Nat) (name : String) :
    name ∈ (names.foldl (fun t name => t.bind id name) t).own j ↔
      name ∈ t.own j ∨ id = j ∧ name ∈ names := by
  induction names generalizing t with
  | nil => simp
  | cons a names ih =>
    rw [List.foldl_cons, ih (by simpa using hid), ScopeTable.mem_own_bind hid, List.mem_cons]
    grind

theorem shape_foldl_bind (t : ScopeTable) (id : Nat) (names : List String) :
    (names.foldl (fun t name => t.bind id name) t).size = t.size ∧
      ∀ j, (names.foldl (fun t name => t.bind id name) t).parent? j = t.parent? j ∧
        (names.foldl (fun t name => t.bind id name) t).isBlockAt j = t.isBlockAt j := by
  induction names generalizing t with
  | nil => exact ⟨rfl, fun _ => ⟨rfl, rfl⟩⟩
  | cons a names ih =>
    obtain ⟨hsize, hshape⟩ := ih (t.bind id a)
    refine ⟨by simpa using hsize, fun j => ?_⟩
    simpa using hshape j

/-- A scope was opened under the current one, which it became. -/
structure Opened (b c : Binding) (o : ScopeOpening) : Prop where
  good : c.Good
  current : c.current = b.scopes.size
  size : c.scopes.size = b.scopes.size + 1
  newParent : c.scopes.parent? b.scopes.size = some b.current
  newBlock : c.scopes.isBlockAt b.scopes.size = o.isBlock
  newOwn : ∀ name, name ∈ c.scopes.own b.scopes.size ↔ name ∈ o.names
  parent : ∀ {id}, id < b.scopes.size → c.scopes.parent? id = b.scopes.parent? id
  isBlock : ∀ {id}, id < b.scopes.size → c.scopes.isBlockAt id = b.scopes.isBlockAt id
  own : ∀ {id}, id < b.scopes.size → ∀ name,
    name ∈ c.scopes.own id ↔ name ∈ b.scopes.own id
  defines : c.defines = b.defines

theorem Good.openScope {b : Binding} (hb : b.Good) (o : ScopeOpening) :
    b.Opened (b.openScope o) o := by
  let pushed := b.scopes.push b.current o.isBlock
  have hnew : b.scopes.size < pushed.size := by simp [pushed]
  obtain ⟨depth, hget⟩ := b.scopes.get?_push_size b.current o.isBlock
  obtain ⟨hsize, hshape⟩ := shape_foldl_bind pushed b.scopes.size o.names
  have hown := own_foldl_bind hnew o.names
  have hold : ∀ {id}, id < b.scopes.size → pushed.get? id = b.scopes.get? id := fun hid =>
    ScopeTable.get?_push_of_lt hid _ _
  have hparent : ∀ {id}, id < b.scopes.size →
      (b.openScope o).scopes.parent? id = b.scopes.parent? id := fun hid => by
    refine (hshape _).1.trans ?_
    rw [ScopeTable.parent?, hold hid]
    rfl
  have hnewParent : (b.openScope o).scopes.parent? b.scopes.size = some b.current := by
    refine (hshape _).1.trans ?_
    exact (ScopeTable.parent?_of_get? hget).trans rfl
  have hscopes : (b.openScope o).scopes.size = b.scopes.size + 1 :=
    hsize.trans (ScopeTable.size_push _ _ _)
  refine ⟨⟨⟨by omega, ?_, fun {id p} hp => ?_⟩, ?_⟩, rfl, hscopes, hnewParent, ?_, fun name => ?_,
    hparent, fun hid => ?_, fun {id} hid name => ?_, rfl⟩
  · exact (hparent hb.linked.size_pos).trans hb.linked.root
  · rcases Nat.lt_trichotomy id b.scopes.size with hid | rfl | hid
    · rw [hparent hid] at hp
      exact hb.linked.parent_lt hp
    · rw [hnewParent] at hp
      cases hp
      exact hb.current_lt
    · -- there is no such scope
      have hnone : (b.openScope o).scopes.get? id = none :=
        Array.getElem?_eq_none (by rw [show (b.openScope o).scopes.scopes.size = _ from hscopes]; omega)
      rw [ScopeTable.parent?, hnone] at hp
      cases hp
  · show b.scopes.size < (b.openScope o).scopes.size
    omega
  · refine (hshape _).2.trans ?_
    rw [ScopeTable.isBlockAt, hget]
    rfl
  · refine (hown b.scopes.size name).trans ?_
    rw [ScopeTable.own, hget]
    simp [Scope.bare]
  · refine (hshape _).2.trans ?_
    rw [ScopeTable.isBlockAt, hold hid]
    rfl
  · refine (hown id name).trans ?_
    rw [ScopeTable.own, hold hid]
    simp [ScopeTable.own, Nat.ne_of_gt hid]

/-- What becomes of declarations in a scope that was opened: the scope keeps some,
and the others land where they would have landed without it. -/
theorem Opened.landing {b c : Binding} {o : ScopeOpening} (h : b.Opened c o) (hb : b.Good)
    (d : DeclaredName) :
    c.landing d = if o.keeps d then b.scopes.size else b.landing d := by
  have hlt : b.scopes.size < c.scopes.size := by
    have := h.size
    omega
  rw [Binding.landing, h.current, h.good.linked.landing_eq hlt, h.newBlock, h.newParent,
    ScopeOpening.keeps]
  cases hd : d.isBlockScoped with
  | true => simp
  | false =>
    cases o.isBlock with
    | false => simp
    | true =>
      simp only [Bool.false_eq_true, ↓reduceIte, Bool.not_true, Bool.or_self]
      rw [Binding.landing, hd]
      exact landing_congr hb.linked h.good.linked (by omega) h.parent h.isBlock hb.current_lt _

/-- A scope is closed after declarations in it. -/
theorem Opened.close {b c d : Binding} {o : ScopeOpening} {ds : List DeclaredName}
    (h : b.Opened c o) (hb : b.Good) (k : c.Extended d ds) :
    b.Extended d.closeScope (ds.filter fun e => !o.keeps e) ∧
      ∀ name, name ∈ d.scopes.own b.scopes.size ↔
        name ∈ o.names ∨ name ∈ (ds.filter o.keeps).map DeclaredName.name := by
  have hsize := h.size
  have hlt : ∀ {id}, id < b.scopes.size → id < c.scopes.size := fun hid => by omega
  have hnew : b.scopes.size < c.scopes.size := by omega
  have hlanding := h.landing hb
  refine ⟨⟨k.linked, ?_, ?_, fun hid => (k.parent (hlt hid)).trans (h.parent hid),
    fun hid => (k.isBlock (hlt hid)).trans (h.isBlock hid), fun {id} hid name => ?_, ?_⟩,
    fun name => ?_⟩
  · show (d.scopes.parent? d.current).getD ScopeTable.rootId = b.current
    rw [k.current, h.current, k.parent hnew, h.newParent]
    rfl
  · exact Nat.le_trans (Nat.le_of_lt hnew) k.size_le
  · refine (k.own (hlt hid) name).trans ?_
    rw [h.own hid]
    refine or_congr_right (exists_congr fun e => ?_)
    rw [hlanding e, List.mem_filter]
    cases o.keeps e with
    | true => simp [Nat.ne_of_gt hid]
    | false => simp
  · show d.defines = _
    rw [k.defines, h.defines, List.filter_filter]
    have hfilter : (fun e => decide (c.landing e = ScopeTable.rootId)) =
        fun e => decide (b.landing e = ScopeTable.rootId) && !o.keeps e := by
      funext e
      have : b.scopes.size ≠ ScopeTable.rootId := Nat.ne_of_gt hb.linked.size_pos
      rw [hlanding e]
      cases o.keeps e <;> simp [this]
    rw [hfilter]
  · rw [k.own hnew, h.newOwn]
    refine or_congr_right ?_
    simp only [List.mem_map, List.mem_filter, hlanding, and_assoc]
    refine exists_congr fun e => and_congr_right fun _ => ?_
    have hne : b.landing e ≠ b.scopes.size := Nat.ne_of_lt (hb.landing_lt e)
    cases o.keeps e <;> simp [hne]

end Binding

-- ---------------------------------------------------------------------------
-- The first traversal: the table it leaves
-- ---------------------------------------------------------------------------

namespace Node

/-- The number of scopes that the nodes of a tree open. -/
def scopeCount (n : Node) : Nat :=
  (if n.opensScope?.isSome then 1 else 0) + total (fun c => scopeCount c.1) n.kids.attach
termination_by sizeOf n
decreasing_by exact sizeOf_kid_lt c.2

theorem scopeCount_eq (n : Node) : n.scopeCount =
    (if n.opensScope?.isSome then 1 else 0) + total scopeCount n.kids := by
  rw [scopeCount, total_attach scopeCount]

end Node

/-- A table holds the scopes of trees: those that the trees open themselves are
under the current scope, scopes are numbered as they are met, from a given number
on, and each one has the names that the tree says. -/
inductive Layout (t : ScopeTable) : Nat → Nat → List Node → Prop
  | nil (current next : Nat) : Layout t current next []
  | plain {current next : Nat} {n : Node} {rest : List Node} (h : n.opensScope? = none)
    (hkids : Layout t current next n.kids)
    (hrest : Layout t current (next + n.scopeCount) rest) : Layout t current next (n :: rest)
  | scope {current next : Nat} {n : Node} {rest : List Node} {o : ScopeOpening}
    (h : n.opensScope? = some o) (hlt : next < t.size) (hparent : t.parent? next = some current)
    (hown : ∀ name, name ∈ t.own next ↔ name ∈ n.scopeNames hoisting o)
    (hkids : Layout t next (next + 1) n.kids)
    (hrest : Layout t current (next + n.scopeCount) rest) : Layout t current next (n :: rest)

/-- A layout stays when later scopes stay. -/
theorem Layout.frame {t u : ScopeTable} {current next : Nat} {l : List Node}
    (h : Layout t current next l) (hle : t.size ≤ u.size)
    (hparent : ∀ {id}, next ≤ id → id < t.size → u.parent? id = t.parent? id)
    (hown : ∀ {id}, next ≤ id → id < t.size → ∀ name, name ∈ u.own id ↔ name ∈ t.own id) :
    Layout u current next l := by
  induction h with
  | nil current next => exact .nil current next
  | plain h _ _ ihkids ihrest =>
    refine .plain h (ihkids hparent hown) (ihrest (fun hid => ?_) fun hid => ?_)
    · exact hparent (by omega)
    · exact hown (by omega)
  | scope h hlt hp hnames _ _ ihkids ihrest =>
    refine .scope h (by omega) ((hparent (Nat.le_refl _) hlt).trans hp)
      (fun name => (hown (Nat.le_refl _) hlt name).trans (hnames name))
      (ihkids (fun hid => ?_) fun hid => ?_) (ihrest (fun hid => ?_) fun hid => ?_)
    · exact hparent (by omega)
    · exact hown (by omega)
    · exact hparent (by omega)
    · exact hown (by omega)

namespace Binding

/-- Declarations around scopes do not change them. -/
theorem Extended.layout {b c : Binding} {ds : List DeclaredName} {next : Nat} {l : List Node}
    (hb : b.Good) (h : b.Extended c ds) {current : Nat} (hnext : b.current < next)
    (hl : Layout b.scopes current next l) : Layout c.scopes current next l := by
  refine hl.frame h.size_le (fun _ hid => h.parent hid) fun hle hid name => ?_
  rw [h.own hid]
  refine or_iff_left fun ⟨e, _, he, _⟩ => ?_
  have := hb.linked.landing_le hb.current_lt e.isBlockScoped
  rw [Binding.landing] at he
  omega

/-- The first traversal of trees: it declares what leaves them, and the table holds
their scopes. -/
structure Traversed (b c : Binding) (l : List Node) : Prop where
  extended : b.Extended c (l.flatMap (Node.outward hoisting))
  size : c.scopes.size = b.scopes.size + total Node.scopeCount l
  layout : Layout c.scopes b.current b.scopes.size l

theorem Traversed.cons {b c d : Binding} {n : Node} {rest : List Node} (hb : b.Good)
    (h : b.Traversed c [n]) (k : c.Traversed d rest) : b.Traversed d (n :: rest) := by
  have hsize := h.size
  rw [total_cons, total_nil, Nat.add_zero] at hsize
  refine ⟨?_, ?_, ?_⟩
  · have := h.extended.trans hb k.extended
    simpa using this
  · rw [k.size, hsize, total_cons, Nat.add_assoc]
  · have hlt := hb.current_lt
    have hhead : Layout d.scopes b.current b.scopes.size [n] :=
      k.extended.layout (h.extended.good hb) (by rw [h.extended.current]; exact hlt) h.layout
    have hrest := k.layout
    rw [h.extended.current, hsize] at hrest
    cases hhead with
    | plain ho hkids _ => exact .plain ho hkids hrest
    | scope ho hlt hparent hown hkids _ => exact .scope ho hlt hparent hown hkids hrest

/-- A node that opens no scope declares its names and leaves the rest to its kids. -/
theorem Traversed.plain {b c d : Binding} {n : Node} (hb : b.Good) (ho : n.opensScope? = none)
    (h : b.Extended c (n.declared hoisting)) (hc : c.scopes.size = b.scopes.size)
    (k : c.Traversed d n.kids) : b.Traversed d [n] := by
  have hcount : n.scopeCount = total Node.scopeCount n.kids := by
    rw [Node.scopeCount_eq, ho]
    exact Nat.zero_add _
  refine ⟨?_, ?_, ?_⟩
  · have := h.trans hb k.extended
    rw [List.flatMap_singleton, Node.outward_eq, Node.opening?_hoisting, ho]
    exact this
  · rw [k.size, hc, total_cons, total_nil, hcount]
    rfl
  · have hkids := k.layout
    rw [h.current, hc] at hkids
    exact .plain ho hkids (.nil _ _)

/-- A node that opens a scope keeps some of the declarations of its kids. -/
theorem Traversed.scope {b c d e : Binding} {n : Node} {o : ScopeOpening} (hb : b.Good)
    (ho : n.opensScope? = some o) (h : b.Extended c (n.declared hoisting))
    (hc : c.scopes.size = b.scopes.size) (hopen : c.Opened d o) (k : d.Traversed e n.kids) :
    b.Traversed e.closeScope [n] := by
  have hcgood := h.good hb
  obtain ⟨hclose, hown⟩ := hopen.close hcgood k.extended
  have hcount : n.scopeCount = 1 + total Node.scopeCount n.kids := by
    rw [Node.scopeCount_eq, ho]
    rfl
  have hsize : e.scopes.size = b.scopes.size + (1 + total Node.scopeCount n.kids) := by
    rw [k.size, hopen.size, hc, Nat.add_assoc]
  refine ⟨?_, ?_, ?_⟩
  · have := h.trans hb hclose
    rw [List.flatMap_singleton, Node.outward_eq, Node.opening?_hoisting, ho]
    exact this
  · rw [total_cons, total_nil, hcount]
    exact hsize
  · have hkids := k.layout
    rw [hopen.current, hopen.size, hc] at hkids
    refine .scope ho ?_ ?_ (fun name => ?_) hkids (.nil _ _)
    · show b.scopes.size < e.scopes.size
      omega
    · rw [← h.current, ← hc]
      exact (k.extended.parent (by rw [hopen.size]; omega)).trans hopen.newParent
    · rw [← hc, Node.scopeNames, List.mem_append]
      exact hown name

theorem size_declareAll (b : Binding) (isBlockScoped : Bool) (names : List String) :
    (names.foldl (Binding.declare · isBlockScoped) b).scopes.size = b.scopes.size := by
  induction names generalizing b with
  | nil => rfl
  | cons name names ih =>
    rw [List.foldl_cons, ih]
    exact ScopeTable.size_bind _ _ _

theorem traverse_spec (l : List Node) (parent : Option Node) {b : Binding} (hb : b.Good) :
    b.Traversed (l.foldl (Node.traverse visit parent) b) l := by
  induction l using Node.forest_induction generalizing parent b with
  | nil => exact ⟨.refl hb, rfl, .nil _ _⟩
  | cons n rest ihkids ihrest =>
    have hdeclare := hb.declareAll n.declares.isBlockScoped n.declares.names
    rw [← n.declared_hoisting] at hdeclare
    have hsize := size_declareAll b n.declares.isBlockScoped n.declares.names
    generalize hc : n.declares.names.foldl (Binding.declare · n.declares.isBlockScoped) b = c
      at hdeclare hsize
    have hhead : b.Traversed (n.traverse visit parent b) [n] := by
      rw [Node.traverse_eq]
      cases ho : n.opensScope? with
      | none =>
        have henter : visit b (.enter n parent) = c := by
          simp only [visit, ho, hc]
        have hleave : ∀ d, visit d (.leave n parent) = d := fun d => by
          simp only [visit, ho, Option.isSome_none, Bool.false_eq_true, ↓reduceIte]
        rw [henter, hleave]
        exact .plain hb ho hdeclare hsize (ihkids (some n) (hdeclare.good hb))
      | some o =>
        have henter : visit b (.enter n parent) = c.openScope o := by
          simp only [visit, ho, hc]
        have hleave : ∀ d, visit d (.leave n parent) = d.closeScope := fun d => by
          simp only [visit, ho, Option.isSome_some, ↓reduceIte]
        rw [henter, hleave]
        have hopen := (hdeclare.good hb).openScope o
        exact .scope hb ho hdeclare hsize hopen (ihkids (some n) hopen.good)
    exact hhead.cons hb (ihrest parent (hhead.extended.good hb))

end Binding

-- ---------------------------------------------------------------------------
-- The second traversal
-- ---------------------------------------------------------------------------

namespace Node

theorem kids_of_identifier {n : Node} {name : String} (h : n.identifierName? = some name) :
    n.kids = [] ∧ n.opensScope? = none := by
  obtain ⟨span, f⟩ := n
  rw [identifierName?] at h
  split at h
  · rename_i heq
    obtain rfl : f = _ := heq
    exact ⟨rfl, rfl⟩
  · cases h

theorem freeNames_hoisting {n : Node} (h : n.identifierName? = none) : n.freeNames hoisting =
    match n.opensScope? with
    | none => n.kids.flatMap (freeNames hoisting)
    | some o => (n.kids.flatMap (freeNames hoisting)).filter (· ∉ n.scopeNames hoisting o) := by
  rw [freeNames_eq hoisting h, opening?_hoisting, apart_hoisting, inside_hoisting]
  rfl

end Node

namespace References

/-- The names of a list that a scope does not see, in order. -/
def unseen (t : ScopeTable) (id : Nat) (names : List String) : List String :=
  names.filter fun name => !t.contains id name

theorem unseen_append (t : ScopeTable) (id : Nat) (l m : List String) :
    unseen t id (l ++ m) = unseen t id l ++ unseen t id m := List.filter_append ..

/-- What a scope does not see is what it does not bind itself and the scope around
it does not see. -/
theorem unseen_scope {t : ScopeTable} (ht : t.Linked) {id p : Nat} (hid : id < t.size)
    (hp : t.parent? id = some p) {own : List String} (hown : ∀ name, name ∈ t.own id ↔ name ∈ own)
    (names : List String) : unseen t id names = unseen t p (names.filter (· ∉ own)) := by
  rw [unseen, unseen, List.filter_filter]
  refine List.filter_congr fun name _ => ?_
  rw [Bool.eq_iff_iff, Bool.not_eq_true', ← Bool.not_eq_true, ht.contains_eq hid, hown, hp]
  simp [and_comm]

/-- The second traversal of trees: it is back in the scope that it began in, has
passed the scopes of the trees, and has added the names that are not bound. -/
theorem traverse_spec {t : ScopeTable} (ht : t.Linked) (l : List Node) (parent : Option Node)
    {r : References} (hl : Layout t r.current r.passed l) :
    l.foldl (Node.traverse (visit t) parent) r =
      ⟨r.current, r.passed + total Node.scopeCount l,
        r.dependsOn.insertAll (unseen t r.current (l.flatMap (Node.freeNames hoisting)))⟩ := by
  induction l using Node.forest_induction generalizing parent r with
  | nil => rfl
  | cons n rest ihkids ihrest =>
    have hhead : n.traverse (visit t) parent r = ⟨r.current, r.passed + n.scopeCount,
        r.dependsOn.insertAll (unseen t r.current (n.freeNames hoisting))⟩ ∧
        Layout t r.current (r.passed + n.scopeCount) rest := by
      rw [Node.traverse_eq]
      cases hname : n.identifierName? with
      | some name =>
        obtain ⟨hkids, ho⟩ := Node.kids_of_identifier hname
        have hcount : n.scopeCount = 0 := by
          rw [Node.scopeCount_eq, ho, hkids]
          rfl
        have hrest : Layout t r.current (r.passed + n.scopeCount) rest := by
          cases hl with
          | plain _ _ hrest => exact hrest
          | scope ho' _ _ _ _ _ => rw [ho] at ho'; cases ho'
        refine ⟨?_, hrest⟩
        rw [hkids, hcount, Node.freeNames_of_identifier hoisting hname]
        simp only [visit, ho, hname, List.foldl_nil, Option.isSome_none, Bool.false_eq_true,
          ↓reduceIte, unseen, List.filter_cons, List.filter_nil]
        cases t.contains r.current name <;> rfl
      | none =>
        rw [Node.freeNames_hoisting hname]
        cases hl with
        | plain ho hkids hrest =>
          refine ⟨?_, hrest⟩
          have henter : visit t r (.enter n parent) = r := by
            simp only [visit, ho, hname, Option.isSome_none, Bool.false_eq_true, ↓reduceIte]
          rw [henter, ihkids (some n) hkids, ho]
          simp only [visit, ho, Option.isSome_none, Bool.false_eq_true, ↓reduceIte]
          rw [Node.scopeCount_eq, ho]
          simp
        | @scope _ _ _ _ o ho hlt hparent hown hkids hrest =>
          refine ⟨?_, hrest⟩
          have henter : visit t r (.enter n parent) = ⟨r.passed, r.passed + 1, r.dependsOn⟩ := by
            simp only [visit, ho, hname, Option.isSome_some, ↓reduceIte]
          rw [henter, ihkids (some n) hkids, ho]
          simp only [visit, ho, Option.isSome_some, ↓reduceIte, hparent, Option.getD_some]
          rw [Node.scopeCount_eq, ho, unseen_scope ht hlt hparent hown]
          simp [Nat.add_assoc]
    rw [List.foldl_cons, hhead.1, ihrest parent hhead.2, List.flatMap_cons, unseen_append,
      NameSet.insertAll_append, total_cons, Nat.add_assoc]

end References

-- ---------------------------------------------------------------------------
-- The analysis
-- ---------------------------------------------------------------------------

theorem Binding.good_initial : Binding.initial.Good := by
  refine ⟨⟨Nat.one_pos, rfl, fun {id p} hp => ?_⟩, Nat.one_pos⟩
  cases id with
  | zero => cases hp
  | succ id =>
    have hnone : ScopeTable.initial.get? (id + 1) = none :=
      Array.getElem?_eq_none (by simp [ScopeTable.initial])
    have hp : ScopeTable.initial.parent? (id + 1) = some p := hp
    rw [ScopeTable.parent?, hnone] at hp
    cases hp

namespace Node

/-- The table of scopes that the first traversal of a statement leaves. -/
theorem binding_spec (n : Node) :
    Binding.initial.Traversed (n.walk Binding.visit .initial) [n] := by
  rw [walk_eq]
  exact Binding.traverse_spec [n] none Binding.good_initial

/-- All that leaves a statement lands in its root scope. -/
theorem landing_initial (d : DeclaredName) : Binding.initial.landing d = ScopeTable.rootId :=
  Nat.le_zero.1 (Binding.good_initial.linked.landing_le Nat.one_pos _)

/-- A statement defines what it declares for the module, in the order of the
declarations. -/
theorem defines_analyse (n : Node) :
    n.analyse.defines = NameSet.empty.insertAll ((n.outward hoisting).map DeclaredName.name) := by
  have h := n.binding_spec.extended.defines
  have hall : (n.outward hoisting).filter
      (fun d => decide (Binding.initial.landing d = ScopeTable.rootId)) = n.outward hoisting :=
    List.filter_eq_self.2 fun d _ => decide_eq_true (landing_initial d)
  rw [List.flatMap_singleton, hall] at h
  exact h

/-- The root scope of a statement sees what the statement declares for the module. -/
theorem contains_root (n : Node) (name : String) :
    (n.walk Binding.visit .initial).scopes.contains ScopeTable.rootId name = true ↔
      name ∈ (n.outward hoisting).map DeclaredName.name := by
  have hext := n.binding_spec.extended
  rw [List.flatMap_singleton] at hext
  have hroot : ScopeTable.rootId < (n.walk Binding.visit .initial).scopes.size :=
    hext.linked.size_pos
  have hown := @Binding.Extended.own _ _ _ hext ScopeTable.rootId Nat.one_pos name
  rw [hext.linked.contains_eq hroot, hext.linked.root, hown, List.mem_map]
  have hinitial : name ∉ Binding.initial.scopes.own ScopeTable.rootId := List.not_mem_nil
  simp [landing_initial, hinitial]

/-- A statement depends on the names that are free in it, in the order of their
occurrence. -/
theorem dependsOn_analyse (n : Node) :
    n.analyse.dependsOn = NameSet.empty.insertAll (n.statementFreeNames hoisting) := by
  have h := n.binding_spec
  have hrefs : n.traverse (References.visit (n.walk Binding.visit .initial).scopes) none
      .initial = _ := @References.traverse_spec _ h.extended.linked [n] none .initial h.layout
  show (n.walk (References.visit _) .initial).dependsOn = _
  rw [walk_eq n (References.visit _), hrefs, List.flatMap_singleton, statementFreeNames]
  show NameSet.empty.insertAll (References.unseen _ ScopeTable.rootId _) = _
  rw [References.unseen]
  congr 1
  refine List.filter_congr fun name _ => ?_
  rw [Bool.eq_iff_iff, Bool.not_eq_true', ← Bool.not_eq_true, contains_root, decide_eq_true_iff]

end Node

end ModuleBundler

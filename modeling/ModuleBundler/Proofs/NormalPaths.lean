import ModuleBundler.Proofs.Spelling

/-!
# ModuleBundler — normal paths

A normal path goes up only in front, and from the root not at all. It is spelled so
that its components are read back from the text, and to normalize it once more changes
nothing. The path that an import names is normal, also when `.js` was added to it.

* `Place` — the lists of components that steps lead to, backwards.
* `Place.collapse_reverse`, `componentsOf_spell` — such a list collapses to itself, and
  is what its spelling is read as.
* `components_normalize` — what a path is normalized to.
* `same_normalize_resolve` — imports name normal paths.
-/

namespace ModuleBundler.Path

-- ---------------------------------------------------------------------------
-- Places
-- ---------------------------------------------------------------------------

/-- A component that its text stands for wherever in a path it is, except in front of
all others. -/
structure Lasts (c : PathComponent) : Prop where
  componentOf?_text : componentOf? c.text = some c
  slash_notMem : '/' ∉ c.text.toList

theorem Lasts.ne_root {c : PathComponent} (h : Lasts c) : c ≠ .root := by
  rintro rfl
  exact absurd h.componentOf?_text (by decide)

theorem lasts_of_componentOf? {s : String} {c : PathComponent} (hs : '/' ∉ s.toList)
    (h : componentOf? s = some c) : Lasts c := by
  have hc := h
  rw [componentOf?] at h
  split at h
  · cases h
  · split at h
    · cases h
      exact ⟨rfl, by decide⟩
    · cases h
      exact ⟨hc, hs⟩

theorem lasts_up : Lasts .up := ⟨rfl, by decide⟩

/-- A list of components backwards that goes from the root or some way up through
directories. -/
inductive Place : List PathComponent → Prop
  | root : Place [.root]
  | up (n : Nat) : Place (List.replicate n .up)
  | named {name : String} {outer : List PathComponent} (hname : Lasts (.named name))
    (h : Place outer) : Place (.named name :: outer)

namespace Place

variable {place : List PathComponent}

/-- A step leads from place to place. -/
theorem step (h : Place place) {c : PathComponent} (hc : Lasts c) : Place (Path.step place c) := by
  cases c with
  | root => exact absurd rfl hc.ne_root
  | here => exact h
  | named name => exact .named hc h
  | up =>
    cases h with
    | root => exact .root
    | named hname h => exact h
    | up n =>
      cases n with
      | zero => exact .up 1
      | succ n => exact .up (n + 2)

theorem foldl (h : Place place) {l : List PathComponent} (hl : ∀ c ∈ l, Lasts c) :
    Place (l.foldl Path.step place) := by
  induction l generalizing place with
  | nil => exact h
  | cons c l ih => exact ih (h.step (hl c (.head _))) fun d hd => hl d (.tail _ hd)

/-- What a path collapses to is a place. -/
theorem of_componentsOf (text : String) : Place ((componentsOf text).foldl Path.step []) := by
  have hlasts : ∀ t : String, ∀ c ∈ (segments t).filterMap componentOf?, Lasts c := by
    intro t c hc
    obtain ⟨s, hs, hc⟩ := List.mem_filterMap.1 hc
    exact lasts_of_componentOf? (notMem_of_mem_segments hs) hc
  cases h : beginsAtRoot text with
  | true =>
    obtain ⟨t, rfl⟩ := exists_of_beginsAtRoot h
    rw [componentsOf_slash_append]
    exact Place.root.foldl (hlasts t)
  | false =>
    rw [componentsOf_relative h, foldl_step_relativeComponents]
    exact (Place.up 0).foldl (hlasts text)

theorem collapse_reverse (h : Place place) : collapse place.reverse = place.reverse := by
  rw [collapse]
  congr 1
  induction h with
  | root => rfl
  | up n =>
    rw [List.reverse_replicate]
    induction n with
    | zero => rfl
    | succ n ih =>
      rw [List.replicate_succ', List.foldl_append, ih, ← List.replicate_succ']
      cases n <;> rfl
  | named hname h ih =>
    rw [List.reverse_cons, List.foldl_append, ih]
    rfl

/-- Only the root does not last, and it is the first component. -/
theorem lasts_or_root (h : Place place) :
    (∀ c ∈ place, Lasts c) ∨ ∃ l, place = l ++ [.root] ∧ ∀ c ∈ l, Lasts c := by
  induction h with
  | root => exact .inr ⟨[], rfl, fun _ hc => absurd hc List.not_mem_nil⟩
  | up n =>
    refine .inl fun c hc => ?_
    rw [List.eq_of_mem_replicate hc]
    exact lasts_up
  | named hname h ih =>
    rcases ih with ih | ⟨l, rfl, ih⟩
    · exact .inl (List.forall_mem_cons.2 ⟨hname, ih⟩)
    · exact .inr ⟨_ :: l, rfl, List.forall_mem_cons.2 ⟨hname, ih⟩⟩

end Place

-- ---------------------------------------------------------------------------
-- Spelling
-- ---------------------------------------------------------------------------

theorem filterMap_map_text {l : List PathComponent} (h : ∀ c ∈ l, Lasts c) :
    (l.map PathComponent.text).filterMap componentOf? = l := by
  induction l with
  | nil => rfl
  | cons c l ih =>
    obtain ⟨hc, hl⟩ := List.forall_mem_cons.1 h
    rw [List.map_cons, List.filterMap_cons_some hc.componentOf?_text, ih hl]

theorem slash_notMem_map_text {l : List PathComponent} (h : ∀ c ∈ l, Lasts c) :
    ∀ s ∈ l.map PathComponent.text, '/' ∉ s.toList := by
  intro s hs
  obtain ⟨c, hc, rfl⟩ := List.mem_map.1 hs
  exact (h c hc).slash_notMem

theorem spell_of_ne_root {c : PathComponent} (hc : c ≠ .root) (l : List PathComponent) :
    spell (c :: l) = joinSlashes ((c :: l).map PathComponent.text) := by
  cases c with
  | root => exact absurd rfl hc
  | here => rfl
  | up => rfl
  | named name => rfl

theorem spell_of_lasts {l : List PathComponent} (h : ∀ c ∈ l, Lasts c) :
    spell l = joinSlashes (l.map PathComponent.text) := by
  cases l with
  | nil => rfl
  | cons c l => exact spell_of_ne_root (h c (.head _)).ne_root l

/-- A relative path whose components last is read back from its spelling. -/
theorem componentsOf_joinSlashes {l : List PathComponent} (h : ∀ c ∈ l, Lasts c) :
    componentsOf (joinSlashes (l.map PathComponent.text)) = l := by
  cases l with
  | nil => exact componentsOf_empty
  | cons c l =>
    obtain ⟨hc, -⟩ := List.forall_mem_cons.1 h
    have hne : c.text ≠ "" := fun he => by
      have := hc.componentOf?_text
      rw [he] at this
      cases this
    have hdot : c.text ≠ "." := fun he => by
      have := hc.componentOf?_text
      rw [he] at this
      cases this
    have hfront : beginsAtRoot c.text = false := by
      rw [Bool.eq_false_iff]
      intro hr
      obtain ⟨t, ht⟩ := exists_of_beginsAtRoot hr
      exact hc.slash_notMem (by simp [ht])
    have hrelative : beginsAtRoot (joinSlashes ((c :: l).map PathComponent.text)) = false := by
      cases l with
      | nil => exact hfront
      | cons d l =>
        rw [joinSlashes, List.map_cons, List.map_cons, String.intercalate_cons_cons,
          String.append_assoc, beginsAtRoot_append hne]
        exact hfront
    rw [componentsOf_relative hrelative,
      segments_joinSlashes (by simp) (slash_notMem_map_text h), List.map_cons, relativeComponents,
      firstComponentOf?, if_neg hdot, hc.componentOf?_text,
      filterMap_map_text (List.forall_mem_cons.1 h).2]
    rfl

/-- A place is read back from its spelling. -/
theorem componentsOf_spell {place : List PathComponent} (h : Place place) :
    componentsOf (spell place.reverse) = place.reverse := by
  rcases h.lasts_or_root with hl | ⟨l, rfl, hl⟩
  · have hl : ∀ c ∈ place.reverse, Lasts c := fun c hc => hl c (List.mem_reverse.1 hc)
    rw [spell_of_lasts hl, componentsOf_joinSlashes hl]
  · have hl : ∀ c ∈ l.reverse, Lasts c := fun c hc => hl c (List.mem_reverse.1 hc)
    rw [List.reverse_append]
    show componentsOf ("/" ++ joinSlashes (l.reverse.map PathComponent.text)) = _
    rw [componentsOf_slash_append, filterMap_segments_joinSlashes (slash_notMem_map_text hl),
      filterMap_map_text hl]
    rfl

-- ---------------------------------------------------------------------------
-- The normal path
-- ---------------------------------------------------------------------------

theorem components_normalize (p : Path) : p.normalize.components = collapse p.components := by
  rw [normalize, components_ofText, collapse]
  refine componentsOf_spell ?_
  rw [p.components_eq]
  exact .of_componentsOf p.text

theorem text_normalize (p : Path) : p.normalize.text = spell (collapse p.components) := rfl

theorem components_append (p : Path) (text : String) :
    (p.append text).components = componentsOf (p.text ++ text) := rfl

theorem normalize_eq_of_same {p q : Path} (h : p.same q = true) : p.normalize = q.normalize := by
  rw [normalize, normalize, same_iff.1 h]

/-- A path is its normal path if its components, backwards, are a place. -/
theorem same_normalize_of_place {p : Path} {place : List PathComponent} (h : Place place)
    (hp : p.components = place.reverse) : p.same p.normalize = true := by
  rw [same_iff, components_normalize, hp, h.collapse_reverse]

-- ---------------------------------------------------------------------------
-- Imports
-- ---------------------------------------------------------------------------

theorem joinSlashes_append (l : List String) (s t : String) :
    joinSlashes (l ++ [s]) ++ t = joinSlashes (l ++ [s ++ t]) := by
  cases l with
  | nil => rfl
  | cons a l =>
    rw [joinSlashes, joinSlashes, String.intercalate_append_of_ne_nil (by simp) (by simp),
      String.intercalate_append_of_ne_nil (by simp) (by simp), String.append_assoc]
    rfl

/-- A text at the end of a path is added to its last component. -/
theorem spell_append {l : List PathComponent} {c d : PathComponent} {t : String}
    (h : d.text = c.text ++ t) (hc : c ≠ .root) (hd : d ≠ .root) :
    spell (l ++ [c]) ++ t = spell (l ++ [d]) := by
  have hjoin : ∀ l : List PathComponent, joinSlashes ((l ++ [c]).map PathComponent.text) ++ t =
      joinSlashes ((l ++ [d]).map PathComponent.text) := fun l => by
    rw [List.map_append, List.map_append, List.map_singleton, List.map_singleton, h,
      joinSlashes_append]
  cases l with
  | nil =>
    rw [List.nil_append, List.nil_append, spell_of_ne_root hc, spell_of_ne_root hd]
    exact hjoin []
  | cons a l =>
    by_cases ha : a = .root
    · subst ha
      show "/" ++ joinSlashes ((l ++ [c]).map PathComponent.text) ++ t =
        "/" ++ joinSlashes ((l ++ [d]).map PathComponent.text)
      rw [String.append_assoc, hjoin]
    · rw [List.cons_append, List.cons_append, spell_of_ne_root ha, spell_of_ne_root ha]
      exact hjoin (a :: l)

/-- A name with `.js` at its end is a name. -/
theorem lasts_named_append {s : String} (h : '/' ∉ s.toList) : Lasts (.named (s ++ ".js")) := by
  have hlen : (s ++ ".js").length = s.length + 3 := by
    rw [String.length_append]
    rfl
  have hne : ∀ t : String, t.length < 3 → s ++ ".js" ≠ t := fun t ht he => by
    rw [← he, hlen] at ht
    omega
  constructor
  · have hempty : s ++ ".js" ≠ "" := hne "" (by decide)
    have hdot : s ++ ".js" ≠ "." := hne "." (by decide)
    have hup : s ++ ".js" ≠ ".." := hne ".." (by decide)
    simp [PathComponent.text, componentOf?, hempty, hdot, hup]
  · simpa [PathComponent.text] using h

/-- A path stays normal when `.js` is added. -/
theorem Place.append_js {place : List PathComponent} (h : Place place) :
    ∃ place', Place place' ∧ spell place.reverse ++ ".js" = spell place'.reverse := by
  have hjs : Lasts (.named ("" ++ ".js")) := lasts_named_append (by decide)
  cases h with
  | root => exact ⟨_, .named hjs .root, rfl⟩
  | up n =>
    cases n with
    | zero => exact ⟨_, .named hjs (.up 0), rfl⟩
    | succ n =>
      refine ⟨_, .named (lasts_named_append (s := "..") (by decide)) (.up n), ?_⟩
      rw [List.replicate_succ, List.reverse_cons, List.reverse_cons]
      exact spell_append rfl PathComponent.noConfusion PathComponent.noConfusion
  | @named name outer hname h =>
    refine ⟨_, .named (lasts_named_append hname.slash_notMem) h, ?_⟩
    rw [List.reverse_cons, List.reverse_cons]
    exact spell_append rfl PathComponent.noConfusion PathComponent.noConfusion

/-- The path that an import names is normal. -/
theorem same_normalize_resolve (importer : Path) (importee : String) :
    (resolve importer importee).same (resolve importer importee).normalize = true := by
  have hplace : ∀ p : Path, Place (p.components.foldl Path.step []) := fun p => by
    rw [p.components_eq]
    exact .of_componentsOf p.text
  rw [resolve]
  split
  · exact same_normalize_of_place (hplace _) (components_normalize _)
  · obtain ⟨place, hp, hspell⟩ := (hplace (importer.base.join (ofText importee))).append_js
    refine same_normalize_of_place hp ?_
    rw [components_append, text_normalize, collapse, hspell, componentsOf_spell hp]

end ModuleBundler.Path

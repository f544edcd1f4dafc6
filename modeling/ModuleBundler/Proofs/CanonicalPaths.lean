import Mathlib.Data.List.Induction
import ModuleBundler.Proofs.NormalPaths

/-!
# ModuleBundler — the normal path as the canonical one

Where a path leads to depends on its components only, and a list of components can be
replaced by the place that it leads to before one goes on from there. So directory and
path may be normalized before they are joined, or afterwards, or both; and the files that
imports name do not depend on how the path of the importing file is written.

* `IsNormal` — normal paths, told by their components.
* `Place.foldl_reverse_step`, `foldl_step_normalize` — to go along a collapsed list is to
  go along the list.
* `normalize_join` — joined paths may be normalized before they are joined.
* `normalize_canonical` — what normal paths are, and that imports name normal paths.
-/

namespace ModuleBundler.Path

-- ---------------------------------------------------------------------------
-- Normal paths
-- ---------------------------------------------------------------------------

/-- A path without `.` that goes up only in front, and from the root not at all. -/
structure IsNormal (p : Path) : Prop where
  here_notMem : .here ∉ p.components
  up_leading : ∃ n rest, p.components = List.replicate n .up ++ rest ∧ .up ∉ rest
  up_notMem : p.isAbsolute = true → .up ∉ p.components

/-- The components of segments that are not in front stand for themselves. -/
theorem lasts_of_mem_filterMap {text : String} {c : PathComponent}
    (hc : c ∈ (segments text).filterMap componentOf?) : Lasts c := by
  obtain ⟨s, hs, hc⟩ := List.mem_filterMap.1 hc
  exact lasts_of_componentOf? (notMem_of_mem_segments hs) hc

/-- The root is a component of the paths that begin there, and then it is the first one. -/
theorem root_mem_components_iff (p : Path) :
    .root ∈ p.components ↔ p.isAbsolute = true := by
  rw [p.components_eq, isAbsolute]
  cases h : beginsAtRoot p.text with
  | true =>
    obtain ⟨t, ht⟩ := exists_of_beginsAtRoot h
    rw [ht, componentsOf_slash_append]
    simp
  | false =>
    rw [componentsOf_relative h]
    simp [root_notMem_relativeComponents]

namespace Place

variable {place : List PathComponent}

theorem here_notMem (h : Place place) : .here ∉ place := by
  induction h with
  | root => simp
  | up n => simp
  | named hname h ih => simpa using ih

/-- What is left of a place without the directory that it goes into last. -/
theorem of_named {name : String} (h : Place (.named name :: place)) : Place place := by
  generalize hcons : PathComponent.named name :: place = l at h
  cases h with
  | root => cases hcons
  | up n =>
    cases n with
    | zero => cases hcons
    | succ n => cases hcons
  | named hname h =>
    obtain ⟨-, rfl⟩ := List.cons.inj hcons
    exact h

/-- A place goes up at its beginning only. -/
theorem up_leading (h : Place place) :
    ∃ n rest, place.reverse = List.replicate n .up ++ rest ∧ .up ∉ rest := by
  induction h with
  | root => exact ⟨0, [.root], rfl, by simp⟩
  | up n => exact ⟨n, [], by simp, by simp⟩
  | @named name outer hname h ih =>
    obtain ⟨n, rest, hreverse, hup⟩ := ih
    refine ⟨n, rest ++ [.named name], ?_, ?_⟩
    · rw [List.reverse_cons, hreverse, List.append_assoc]
    · simpa using hup

/-- A place that is reached from the root does not go up. -/
theorem up_notMem (h : Place place) (hroot : .root ∈ place) : .up ∉ place := by
  induction h with
  | root => simp
  | up n => simp at hroot
  | named hname h ih =>
    have hroot := (List.mem_cons.1 hroot).resolve_left PathComponent.noConfusion
    simpa using ih hroot

/-- Steps neither leave the root nor come to it. -/
theorem root_mem_step (h : Place place) {c : PathComponent} (hc : Lasts c) :
    .root ∈ Path.step place c ↔ .root ∈ place := by
  cases c with
  | root => exact absurd rfl hc.ne_root
  | here => exact Iff.rfl
  | named name => simp [Path.step]
  | up =>
    cases h with
    | root => simp [Path.step]
    | named hname h => simp [Path.step]
    | up n =>
      cases n with
      | zero => simp [Path.step]
      | succ n => simp [Path.step, List.replicate_succ]

theorem root_mem_foldl (h : Place place) {l : List PathComponent} (hl : ∀ c ∈ l, Lasts c) :
    .root ∈ l.foldl Path.step place ↔ .root ∈ place := by
  induction l generalizing place with
  | nil => exact Iff.rfl
  | cons c l ih =>
    obtain ⟨hc, hl⟩ := List.forall_mem_cons.1 hl
    rw [List.foldl_cons, ih (h.step hc) hl, h.root_mem_step hc]

/-- To go along a place and then one step further is to go along the place that this step
leads to. The place must not be reached from the root, where a step up is lost. -/
theorem foldl_reverse_step (h : Place place) (hroot : .root ∉ place) {c : PathComponent}
    (hc : Lasts c) (start : List PathComponent) :
    (Path.step place c).reverse.foldl Path.step start =
      Path.step (place.reverse.foldl Path.step start) c := by
  have hlonger : ∀ d : PathComponent, (d :: place).reverse.foldl Path.step start =
      Path.step (place.reverse.foldl Path.step start) d := by
    intro d
    rw [List.reverse_cons, List.foldl_append]
    rfl
  cases c with
  | root => exact absurd rfl hc.ne_root
  | here => rfl
  | named name => exact hlonger (.named name)
  | up =>
    cases h with
    | root => exact absurd (List.mem_singleton_self _) hroot
    | up n =>
      have hstep : Path.step (List.replicate n .up) .up = .up :: List.replicate n .up := by
        cases n <;> rfl
      rw [hstep]
      exact hlonger .up
    | @named name outer hname h =>
      -- the step up undoes the last one
      rw [List.reverse_cons, List.foldl_append]
      rfl

/-- To go along the place that a list of components leads to is to go along the list. -/
theorem foldl_foldl_reverse {l : List PathComponent} (hl : ∀ c ∈ l, Lasts c)
    (start : List PathComponent) :
    (l.foldl Path.step []).reverse.foldl Path.step start = l.foldl Path.step start := by
  induction l using List.reverseRecOn with
  | nil => rfl
  | append_singleton l c ih =>
    have hfront : ∀ d ∈ l, Lasts d := by
      intro d hd
      exact hl d (List.mem_append_left _ hd)
    have hplace : Place (l.foldl Path.step []) := (Place.up 0).foldl hfront
    have hroot : .root ∉ l.foldl Path.step [] :=
      mt ((Place.up 0).root_mem_foldl hfront).1 List.not_mem_nil
    have hc : Lasts c := hl c (List.mem_append_right _ (List.mem_singleton_self c))
    rw [List.foldl_append, List.foldl_append, List.foldl_cons, List.foldl_nil, List.foldl_cons,
      List.foldl_nil, hplace.foldl_reverse_step hroot hc, ih hfront]

end Place

-- ---------------------------------------------------------------------------
-- What a path is normalized to
-- ---------------------------------------------------------------------------

/-- Where a path leads to. -/
theorem place_components (p : Path) : Place (p.components.foldl step []) := by
  rw [p.components_eq]
  exact .of_componentsOf p.text

/-- A path and its normal path lead to the same place. -/
theorem foldl_components_normalize (p : Path) :
    p.normalize.components.foldl step [] = p.components.foldl step [] := by
  have hcollapse := (place_components p).collapse_reverse
  rw [collapse, List.reverse_inj] at hcollapse
  rw [components_normalize, collapse, hcollapse]

theorem normalize_eq_of_collapse_eq {p q : Path}
    (h : collapse p.components = collapse q.components) : p.normalize = q.normalize := by
  rw [normalize, normalize, h]

theorem normalize_normalize (p : Path) : p.normalize.normalize = p.normalize := by
  refine normalize_eq_of_collapse_eq ?_
  rw [collapse, foldl_components_normalize, collapse]

/-- The spelling of a place is a normal path as it is. -/
theorem normalize_ofText_spell {place : List PathComponent} (h : Place place) :
    (ofText (spell place.reverse)).normalize = ofText (spell place.reverse) := by
  rw [normalize, components_ofText, componentsOf_spell h, h.collapse_reverse]

theorem isAbsolute_normalize (p : Path) : p.normalize.isAbsolute = p.isAbsolute := by
  rw [Bool.eq_iff_iff, ← root_mem_components_iff, ← root_mem_components_iff,
    components_normalize, collapse, List.mem_reverse, p.components_eq]
  cases h : beginsAtRoot p.text with
  | true =>
    obtain ⟨t, ht⟩ := exists_of_beginsAtRoot h
    rw [ht, componentsOf_slash_append, List.foldl_cons]
    have hroot := Place.root.root_mem_foldl (l := (segments t).filterMap componentOf?)
      fun c hc => lasts_of_mem_filterMap hc
    exact iff_of_true (hroot.2 (List.mem_singleton_self _)) (List.mem_cons_self ..)
  | false =>
    rw [componentsOf_relative h, foldl_step_relativeComponents]
    have hroot := (Place.up 0).root_mem_foldl (l := (segments p.text).filterMap componentOf?)
      fun c hc => lasts_of_mem_filterMap hc
    exact iff_of_false (mt hroot.1 List.not_mem_nil) (root_notMem_relativeComponents _)

theorem isNormal_normalize (p : Path) : p.normalize.IsNormal := by
  have hplace := place_components p
  have hcomponents : p.normalize.components = (p.components.foldl step []).reverse :=
    components_normalize p
  constructor
  · rw [hcomponents, List.mem_reverse]
    exact hplace.here_notMem
  · rw [hcomponents]
    exact hplace.up_leading
  · intro habsolute
    rw [← root_mem_components_iff, hcomponents, List.mem_reverse] at habsolute
    rw [hcomponents, List.mem_reverse]
    exact hplace.up_notMem habsolute

-- ---------------------------------------------------------------------------
-- Joined paths
-- ---------------------------------------------------------------------------

/-- To go along a relative path is to go along its normal path, from wherever. -/
theorem foldl_step_normalize {p : Path} (h : p.isAbsolute = false) (start : List PathComponent) :
    p.normalize.components.foldl step start = p.components.foldl step start := by
  have hlasts : ∀ c ∈ (segments p.text).filterMap componentOf?, Lasts c := by
    intro c hc
    exact lasts_of_mem_filterMap hc
  rw [components_normalize, collapse, p.components_eq, componentsOf_relative h,
    foldl_step_relativeComponents, foldl_step_relativeComponents,
    Place.foldl_foldl_reverse hlasts]

theorem collapse_join_of_isAbsolute {p : Path} (h : p.isAbsolute = true) (directory : Path) :
    collapse (directory.join p).components = collapse p.components := by
  rw [join, if_pos h]

theorem collapse_join_of_relative {p : Path} (h : p.isAbsolute = false) (directory : Path) :
    collapse (directory.join p).components =
      (p.components.foldl step (directory.components.foldl step [])).reverse := by
  have hbegins : ¬ beginsAtRoot p.text = true := by
    rw [Bool.not_eq_true]
    exact h
  rw [← ofText_text directory, ← ofText_text p, collapse_join, if_neg hbegins,
    components_ofText, components_ofText, componentsOf_relative h, foldl_step_relativeComponents]

/-- Joined paths may be normalized before they are joined. -/
theorem normalize_join (directory p : Path) :
    (directory.join p).normalize = (directory.normalize.join p.normalize).normalize := by
  refine normalize_eq_of_collapse_eq ?_
  cases h : p.isAbsolute with
  | true =>
    have hnormal := (isAbsolute_normalize p).trans h
    rw [collapse_join_of_isAbsolute h, collapse_join_of_isAbsolute hnormal, collapse, collapse,
      foldl_components_normalize]
  | false =>
    have hnormal := (isAbsolute_normalize p).trans h
    rw [collapse_join_of_relative h, collapse_join_of_relative hnormal,
      foldl_components_normalize, foldl_step_normalize h]

-- ---------------------------------------------------------------------------
-- Imports
-- ---------------------------------------------------------------------------

theorem normalize_resolve (importer : Path) (importee : String) :
    (resolve importer importee).normalize = resolve importer importee := by
  rw [resolve]
  split
  · exact normalize_normalize _
  · obtain ⟨place, hplace, hspell⟩ :=
      (place_components (importer.base.join (ofText importee))).append_js
    have hname : (importer.base.join (ofText importee)).normalize.append ".js" =
        ofText (spell place.reverse) := by
      rw [append, text_normalize, collapse, hspell]
    rw [hname]
    exact normalize_ofText_spell hplace

/-- The directory of a file leads to the same place when the path of the file is
normalized first. -/
theorem normalize_base_normalize {p : Path} {name : String} (h : p.fileName? = some name) :
    p.normalize.base.normalize = p.base.normalize := by
  have hlast : p.components.getLast? = some (.named name) := by
    rw [fileName?] at h
    split at h
    · case _ last hlast => rw [hlast, Option.some.inj h]
    · cases h
  obtain ⟨front, hfront⟩ := List.getLast?_eq_some_iff.1 hlast
  -- the file is in the directory that the components before its name lead to
  have hnormal : p.normalize.components = (front.foldl step []).reverse ++ [.named name] := by
    rw [components_normalize, collapse, hfront, List.foldl_append, ← List.reverse_cons]
    rfl
  have hbase : ∀ (q : Path) (l : List PathComponent), q.components = l ++ [.named name] →
      q.base.components = l := by
    intro q l hq
    have hroot : l ++ [PathComponent.named name] ≠ [.root] := by
      intro heq
      have hmem : PathComponent.named name ∈ [PathComponent.root] := by
        rw [← heq]
        simp
      exact absurd hmem (by simp)
    rw [components_base, hq, if_neg hroot, List.dropLast_concat]
  refine normalize_eq_of_collapse_eq ?_
  rw [hbase p.normalize _ hnormal, hbase p front hfront]
  refine Place.collapse_reverse ?_
  have hplace := place_components p
  rw [hfront, List.foldl_append] at hplace
  exact Place.of_named hplace

/-- The normal path is the canonical one. It goes up in front only, begins at the root if
the path does, and stays as it is when it is normalized again; and a directory and a path
may be normalized before they are joined. Imports name normal paths, and the same ones
when the path of the importing file is normalized. -/
theorem normalize_canonical :
    (∀ p : Path, p.normalize.IsNormal ∧ p.normalize.isAbsolute = p.isAbsolute ∧
      p.normalize.normalize = p.normalize) ∧
    (∀ a b : Path, (a.join b).normalize = (a.normalize.join b.normalize).normalize) ∧
    ∀ (importer : Path) (importee : String),
      (resolve importer importee).normalize = resolve importer importee ∧
        ∀ name, importer.fileName? = some name →
          resolve importer.normalize importee = resolve importer importee := by
  refine ⟨fun p => ⟨isNormal_normalize p, isAbsolute_normalize p, normalize_normalize p⟩,
    normalize_join, fun importer importee => ⟨normalize_resolve importer importee, ?_⟩⟩
  intro name hname
  have htarget : (importer.normalize.base.join (ofText importee)).normalize =
      (importer.base.join (ofText importee)).normalize := by
    rw [normalize_join, normalize_base_normalize hname, ← normalize_join]
  rw [resolve, resolve, htarget]

/-- A file below a directory that the path leaves again imports a file beside it. -/
theorem normalize_canonical_leftDirectory :
    (ofText "lib/../src/./main.js").fileName? = some "main.js" ∧
      resolve (ofText "lib/../src/./main.js").normalize "./util" =
        resolve (ofText "lib/../src/./main.js") "./util" := by
  have hname : (ofText "lib/../src/./main.js").fileName? = some "main.js" := by decide +kernel
  exact ⟨hname, (normalize_canonical.2.2 _ "./util").2 "main.js" hname⟩

end ModuleBundler.Path

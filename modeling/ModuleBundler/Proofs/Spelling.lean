import ModuleBundler.Path.Normal
import Mathlib.Data.List.Basic

/-!
# ModuleBundler — imports do not depend on spelling

A path may be spelled in many ways: `/p//a.js`, `/p/./a.js` and `/p/a.js` have
the same components. The module that an import names is computed from the text
of the importing path, by cutting off its last segment and appending the import.
This module shows that only the components of the importer matter.

* `components_base` — the directory of a path, by components: all but the last.
* `collapse_join` — a path in a directory goes on from where the directory leads.
* `resolve_eq_of_same` — importers that are the same path import the same
  modules.
-/

namespace ModuleBundler.Path

-- ---------------------------------------------------------------------------
-- The same path
-- ---------------------------------------------------------------------------

theorem same_iff {p q : Path} : p.same q = true ↔ p.components = q.components := by
  simp [same]

theorem same_refl (p : Path) : p.same p = true := same_iff.2 rfl

theorem same_symm {p q : Path} (h : p.same q = true) : q.same p = true :=
  same_iff.2 (same_iff.1 h).symm

theorem same_trans {p q r : Path} (h : p.same q = true) (k : q.same r = true) :
    p.same r = true :=
  same_iff.2 ((same_iff.1 h).trans (same_iff.1 k))

-- ---------------------------------------------------------------------------
-- Segments
-- ---------------------------------------------------------------------------

theorem splitSlashes_ne_nil (cs : List Char) : splitSlashes cs ≠ [] := by
  cases cs with
  | nil => simp [splitSlashes]
  | cons c cs =>
    rw [splitSlashes]
    split
    · simp
    · split <;> simp

theorem splitSlashes_append_slash (a b : List Char) :
    splitSlashes (a ++ '/' :: b) = splitSlashes a ++ splitSlashes b := by
  induction a with
  | nil => simp [splitSlashes]
  | cons c a ih =>
    by_cases hc : c = '/'
    · simp [splitSlashes, hc, ih]
    · obtain ⟨s, rest, hs⟩ := List.exists_cons_of_ne_nil (splitSlashes_ne_nil a)
      simp [splitSlashes, hc, ih, hs]

theorem splitSlashes_of_notMem {a : List Char} (h : '/' ∉ a) : splitSlashes a = [a] := by
  induction a with
  | nil => rfl
  | cons c a ih =>
    rw [List.mem_cons, not_or] at h
    simp [splitSlashes, Ne.symm h.1, ih h.2]

theorem notMem_of_mem_splitSlashes {a s : List Char} (h : s ∈ splitSlashes a) : '/' ∉ s := by
  induction a generalizing s with
  | nil => simp_all [splitSlashes]
  | cons c a ih =>
    obtain ⟨t, rest, ht⟩ := List.exists_cons_of_ne_nil (splitSlashes_ne_nil a)
    rw [splitSlashes, ht] at h
    rw [ht] at ih
    split at h
    · rcases List.mem_cons.1 h with rfl | h
      · simp
      · exact ih h
    · rename_i hc
      rcases List.mem_cons.1 h with rfl | h
      · rw [List.mem_cons, not_or]
        exact ⟨Ne.symm hc, ih (List.mem_cons_self ..)⟩
      · exact ih (List.mem_cons_of_mem _ h)

theorem segments_append_slash (a b : String) :
    segments (a ++ "/" ++ b) = segments a ++ segments b := by
  have h : (a ++ "/" ++ b).toList = a.toList ++ '/' :: b.toList := by simp
  rw [segments, h, splitSlashes_append_slash, List.map_append]
  rfl

theorem notMem_of_mem_segments {text s : String} (h : s ∈ segments text) : '/' ∉ s.toList := by
  obtain ⟨t, ht, rfl⟩ := List.mem_map.1 h
  rw [String.toList_ofList]
  exact notMem_of_mem_splitSlashes ht

theorem segments_joinSlashes {l : List String} (hl : l ≠ [])
    (h : ∀ s ∈ l, '/' ∉ s.toList) : segments (joinSlashes l) = l := by
  induction l with
  | nil => exact absurd rfl hl
  | cons s l ih =>
    have hs : segments s = [s] := by
      rw [segments, splitSlashes_of_notMem (h s (List.mem_cons_self ..))]
      simp
    cases l with
    | nil => simpa [joinSlashes] using hs
    | cons t l =>
      rw [joinSlashes, String.intercalate_cons_cons, segments_append_slash, hs]
      have := ih (by simp) fun u hu => h u (List.mem_cons_of_mem _ hu)
      rw [joinSlashes] at this
      simp [this]

-- ---------------------------------------------------------------------------
-- Components of segments
-- ---------------------------------------------------------------------------

/-- The components of the segments of a relative path. -/
def relativeComponents : List String → List PathComponent
  | [] => []
  | first :: rest => (firstComponentOf? first).toList ++ rest.filterMap componentOf?

theorem exists_of_beginsAtRoot {text : String} (h : beginsAtRoot text = true) :
    ∃ t, text = "/" ++ t := by
  rw [beginsAtRoot, decide_eq_true_eq] at h
  obtain ⟨rest, hr⟩ := List.head?_eq_some_iff.1 h
  refine ⟨String.ofList rest, String.toList_injective ?_⟩
  simp [hr]

theorem segments_slash_append (t : String) : segments ("/" ++ t) = "" :: segments t := by
  simp [segments, splitSlashes]

theorem componentsOf_slash_append (t : String) :
    componentsOf ("/" ++ t) = .root :: (segments t).filterMap componentOf? := by
  have hr : beginsAtRoot ("/" ++ t) = true := by simp [beginsAtRoot]
  rw [componentsOf, segments_slash_append]
  simp [hr]

theorem componentsOf_relative {text : String} (h : beginsAtRoot text = false) :
    componentsOf text = relativeComponents (segments text) := by
  rw [componentsOf]
  cases segments text with
  | nil => rfl
  | cons first rest => simp [h, relativeComponents]

theorem componentOf?_ne_root (s : String) : componentOf? s ≠ some .root := by
  rw [componentOf?]
  split
  · simp
  · split <;> simp

theorem root_notMem_filterMap (l : List String) :
    PathComponent.root ∉ l.filterMap componentOf? := fun h => by
  obtain ⟨s, -, hs⟩ := List.mem_filterMap.1 h
  exact componentOf?_ne_root s hs

theorem root_notMem_relativeComponents (l : List String) :
    PathComponent.root ∉ relativeComponents l := by
  cases l with
  | nil => simp [relativeComponents]
  | cons first rest =>
    rw [relativeComponents, List.mem_append, not_or]
    refine ⟨fun h => ?_, root_notMem_filterMap rest⟩
    rw [Option.mem_toList, firstComponentOf?] at h
    split at h
    · simp at h
    · exact componentOf?_ne_root first h

-- ---------------------------------------------------------------------------
-- The directory of a path
-- ---------------------------------------------------------------------------

/-- Dropping the segments that add no component changes no component, and what
is then in front adds one. Segments run backwards here. -/
theorem dropSilent_false (l : List String) :
    (dropSilent false l).filterMap componentOf? = l.filterMap componentOf? ∧
      ∀ s ∈ (dropSilent false l).head?, ∃ c, componentOf? s = some c := by
  induction l with
  | nil => simp [dropSilent]
  | cons s l ih =>
    by_cases hs : s = "" ∨ s = "."
    · have hd : dropSilent false (s :: l) = dropSilent false l := by
        cases l with
        | nil => rcases hs with rfl | rfl <;> simp [dropSilent]
        | cons t l => rcases hs with rfl | rfl <;> simp [dropSilent]
      rw [hd]
      refine ⟨?_, ih.2⟩
      rw [ih.1]
      rcases hs with rfl | rfl <;> simp [componentOf?]
    · rw [not_or] at hs
      have hd : dropSilent false (s :: l) = s :: l := by
        cases l <;> simp [dropSilent, hs]
      have hc : ∃ c, componentOf? s = some c := by
        rw [componentOf?]
        by_cases hu : s = ".." <;> simp [hs, hu]
      simpa [hd] using hc

theorem relativeComponents_append {l : List String} (hl : l ≠ []) (s : String) :
    relativeComponents (l ++ [s]) = relativeComponents l ++ (componentOf? s).toList := by
  obtain ⟨first, rest, rfl⟩ := List.exists_cons_of_ne_nil hl
  simp only [List.cons_append, relativeComponents, List.filterMap_append, List.append_assoc]
  cases h : componentOf? s <;> simp [List.filterMap, h]

/-- As `dropSilent_false`, for the segments of a relative path, whose front may
be a `.` that counts. -/
theorem dropSilent_true (l : List String) :
    relativeComponents (dropSilent true l).reverse = relativeComponents l.reverse ∧
      ∀ s rest, dropSilent true l = s :: rest →
        ∃ c, relativeComponents (s :: rest).reverse = relativeComponents rest.reverse ++ [c] := by
  induction l with
  | nil => simp [dropSilent]
  | cons s l ih =>
    cases l with
    | nil =>
      by_cases hs : s = ""
      · simp [dropSilent, hs, relativeComponents, firstComponentOf?, componentOf?]
      · have hd : dropSilent true [s] = [s] := by simp [dropSilent, hs]
        refine ⟨by rw [hd], fun t rest ht => ?_⟩
        obtain ⟨rfl, rfl⟩ := List.cons.inj (hd.symm.trans ht)
        by_cases hdot : s = "."
        · simp [relativeComponents, firstComponentOf?, hdot]
        · by_cases hu : s = ".." <;>
            simp [relativeComponents, firstComponentOf?, componentOf?, hs, hdot, hu]
    | cons t l =>
      have happ := relativeComponents_append (l := (t :: l).reverse) (by simp) s
      by_cases hs : s = "" ∨ s = "."
      · have hd : dropSilent true (s :: t :: l) = dropSilent true (t :: l) := by
          rcases hs with rfl | rfl <;> simp [dropSilent]
        have hc : componentOf? s = none := by rcases hs with rfl | rfl <;> simp [componentOf?]
        rw [hd, List.reverse_cons, happ, hc]
        simpa using ih
      · rw [not_or] at hs
        have hd : dropSilent true (s :: t :: l) = s :: t :: l := by simp [dropSilent, hs]
        refine ⟨by rw [hd], fun u rest hu => ?_⟩
        obtain ⟨rfl, rfl⟩ := List.cons.inj (hd.symm.trans hu)
        rw [List.reverse_cons, happ]
        by_cases hup : s = ".." <;> simp [componentOf?, hs, hup]

theorem dropSilent_suffix (b : Bool) (l : List String) : dropSilent b l <:+ l := by
  induction l with
  | nil => simp [dropSilent]
  | cons t l ih =>
    cases l with
    | nil =>
      rw [dropSilent]
      split
      · exact List.nil_suffix
      · exact List.suffix_rfl
    | cons u l =>
      by_cases ht : t = "" ∨ t = "."
      · have hd : dropSilent b (t :: u :: l) = dropSilent b (u :: l) := by
          rcases ht with rfl | rfl <;> simp [dropSilent]
        rw [hd]
        exact ih.trans (List.suffix_cons ..)
      · rw [not_or] at ht
        simp [dropSilent, ht]

/-- The components of joined segments that come from a path. -/
theorem filterMap_segments_joinSlashes {l : List String} (h : ∀ s ∈ l, '/' ∉ s.toList) :
    (segments (joinSlashes l)).filterMap componentOf? = l.filterMap componentOf? := by
  by_cases hl : l = []
  · subst hl
    simp [joinSlashes, segments, splitSlashes, componentOf?]
  · rw [segments_joinSlashes hl h]

/-- Segments of a relative path up to some place are spelled like a relative
path. -/
theorem componentsOf_joinSlashes_prefix {text : String} {l : List String}
    (h : beginsAtRoot text = false) (hl : l <+: segments text) :
    componentsOf (joinSlashes l) = relativeComponents l := by
  cases l with
  | nil => rfl
  | cons s l =>
    have hseg : segments (joinSlashes (s :: l)) = s :: l :=
      segments_joinSlashes (by simp) fun u hu => notMem_of_mem_segments (hl.subset hu)
    cases hr : beginsAtRoot (joinSlashes (s :: l)) with
    | false => rw [componentsOf_relative hr, hseg]
    | true =>
      -- then the first segment is empty, and the whole text is
      obtain ⟨t, ht⟩ := exists_of_beginsAtRoot hr
      rw [ht, segments_slash_append] at hseg
      obtain ⟨rest, hrest⟩ := hl
      rw [← hseg] at hrest
      cases hc : text.toList with
      | nil =>
        have hne : segments t ≠ [] := List.map_eq_nil_iff.not.2 (splitSlashes_ne_nil t.toList)
        simp [segments, hc, splitSlashes] at hrest
        exact absurd hrest.1 (by simpa [segments] using hne)
      | cons c cs =>
        obtain ⟨seg, more, hm⟩ := List.exists_cons_of_ne_nil (splitSlashes_ne_nil cs)
        by_cases hslash : c = '/'
        · simp [beginsAtRoot, hc, hslash] at h
        · simp [segments, hc, splitSlashes, hslash, hm] at hrest

theorem components_ofText (text : String) : (ofText text).components = componentsOf text := rfl

theorem componentsOf_empty : componentsOf "" = [] := by
  simp [componentsOf, segments, splitSlashes, firstComponentOf?, componentOf?, beginsAtRoot]

/-- The directory of a path that begins at the root. -/
theorem components_base_slash (t : String) :
    (base (ofText ("/" ++ t))).components =
      if (segments t).filterMap componentOf? = [] then []
      else .root :: ((segments t).filterMap componentOf?).dropLast := by
  have habs : (ofText ("/" ++ t)).isAbsolute = true := by
    simp [isAbsolute, ofText, beginsAtRoot]
  obtain ⟨hsame, hfront⟩ := dropSilent_false (segments t).reverse
  have htail : (segments (ofText ("/" ++ t)).text).tail = segments t := by
    simp [ofText, segments_slash_append]
  rw [base, parent?, if_pos habs, htail]
  cases hd : dropSilent false (segments t).reverse with
  | nil =>
    have hnil : (segments t).filterMap componentOf? = [] := by
      rw [hd, List.filterMap_reverse] at hsame
      simpa using hsame.symm
    rw [if_pos hnil]
    exact componentsOf_empty
  | cons s rest =>
    rw [hd] at hfront hsame
    obtain ⟨c, hc⟩ := hfront s (by simp)
    have hlast : (segments t).filterMap componentOf? =
        rest.reverse.filterMap componentOf? ++ [c] := by
      have := congrArg List.reverse hsame
      rw [← List.filterMap_reverse, ← List.filterMap_reverse, List.reverse_reverse] at this
      rw [← this, List.reverse_cons, List.filterMap_append]
      simp [hc]
    have hslash : ∀ u ∈ (dropSilent false rest).reverse, '/' ∉ u.toList := fun u hu => by
      have h1 := (dropSilent_suffix false rest).subset (List.mem_reverse.1 hu)
      have h2 : u ∈ dropSilent false (segments t).reverse := hd ▸ List.mem_cons_of_mem _ h1
      exact notMem_of_mem_segments (List.mem_reverse.1 ((dropSilent_suffix ..).subset h2))
    have hrest : (dropSilent false rest).reverse.filterMap componentOf? =
        rest.reverse.filterMap componentOf? := by
      rw [List.filterMap_reverse, List.filterMap_reverse, (dropSilent_false rest).1]
    rw [if_neg (by simp [hlast]), hlast, List.dropLast_concat]
    simp only [Option.getD_some, components_ofText, componentsOf_slash_append,
      filterMap_segments_joinSlashes hslash, hrest]

/-- The directory of a relative path. -/
theorem components_base_relative {text : String} (h : beginsAtRoot text = false) :
    (base (ofText text)).components = (relativeComponents (segments text)).dropLast := by
  have habs : (ofText text).isAbsolute = false := h
  obtain ⟨hsame, hfront⟩ := dropSilent_true (segments text).reverse
  rw [List.reverse_reverse] at hsame
  rw [base, parent?, if_neg (by simp [habs]), ← hsame]
  show (Option.getD (match dropSilent true (segments text).reverse with
    | [] => none
    | _ :: rest => some (ofText (joinSlashes (dropSilent true rest).reverse)))
    (ofText "")).components = _
  cases hd : dropSilent true (segments text).reverse with
  | nil => exact componentsOf_empty
  | cons s rest =>
    obtain ⟨c, hc⟩ := hfront s rest hd
    have hpre : (dropSilent true rest).reverse <+: segments text := by
      have h1 : rest <:+ (segments text).reverse :=
        (List.suffix_cons s rest).trans (hd ▸ dropSilent_suffix ..)
      simpa using List.reverse_prefix.2 ((dropSilent_suffix true rest).trans h1)
    simp only [Option.getD_some, components_ofText, componentsOf_joinSlashes_prefix h hpre,
      (dropSilent_true rest).1, hc, List.dropLast_concat]

/-- The directory of a path: all components but the last. The root has none. -/
theorem components_base (p : Path) :
    p.base.components = if p.components = [.root] then [] else p.components.dropLast := by
  obtain ⟨text, components, rfl⟩ := p
  show (base (ofText text)).components =
    if componentsOf text = [.root] then [] else (componentsOf text).dropLast
  cases h : beginsAtRoot text with
  | true =>
    obtain ⟨t, rfl⟩ := exists_of_beginsAtRoot h
    rw [components_base_slash, componentsOf_slash_append]
    by_cases hnil : (segments t).filterMap componentOf? = []
    · simp [hnil]
    · simp [hnil, List.dropLast_cons_of_ne_nil hnil]
  | false =>
    have hroot : relativeComponents (segments text) ≠ [.root] := fun hr =>
      root_notMem_relativeComponents (segments text) (by simp [hr])
    rw [components_base_relative h, componentsOf_relative h, if_neg hroot]

-- ---------------------------------------------------------------------------
-- Imports
-- ---------------------------------------------------------------------------

/-- A leading `.` leads nowhere. -/
theorem foldl_step_relativeComponents (l : List String) (place : List PathComponent) :
    (relativeComponents l).foldl step place = (l.filterMap componentOf?).foldl step place := by
  cases l with
  | nil => rfl
  | cons s l =>
    by_cases hs : s = "."
    · simp [relativeComponents, firstComponentOf?, componentOf?, hs, step]
    · cases hc : componentOf? s <;>
        simp [relativeComponents, firstComponentOf?, hs, hc, List.filterMap]

theorem beginsAtRoot_append {a : String} (ha : a ≠ "") (b : String) :
    beginsAtRoot (a ++ b) = beginsAtRoot a := by
  have hne : a.toList ≠ [] := fun h => ha (String.toList_injective (by simpa using h))
  obtain ⟨c, cs, hc⟩ := List.exists_cons_of_ne_nil hne
  simp [beginsAtRoot, hc]

/-- A text that goes on after a slash adds components to those before it. -/
theorem componentsOf_append_slash {a : String} (ha : a ≠ "") (b : String) :
    componentsOf (a ++ "/" ++ b) = componentsOf a ++ (segments b).filterMap componentOf? := by
  have hr : beginsAtRoot (a ++ "/" ++ b) = beginsAtRoot a := by
    rw [String.append_assoc]
    exact beginsAtRoot_append ha _
  cases h : beginsAtRoot a with
  | true =>
    obtain ⟨t, rfl⟩ := exists_of_beginsAtRoot h
    rw [String.append_assoc, String.append_assoc, componentsOf_slash_append,
      componentsOf_slash_append, ← String.append_assoc, segments_append_slash]
    simp
  | false =>
    rw [componentsOf_relative (hr.trans h), componentsOf_relative h, segments_append_slash]
    cases hs : segments a with
    | nil => exact absurd hs (List.map_eq_nil_iff.not.2 (splitSlashes_ne_nil a.toList))
    | cons s l => simp [relativeComponents]

/-- A slash at the end adds no component, except in front. -/
theorem componentsOf_trailing_slash (a : String) :
    componentsOf (a ++ "/") = if a = "" then [.root] else componentsOf a := by
  by_cases ha : a = ""
  · subst ha
    simpa [segments, splitSlashes, componentOf?] using componentsOf_slash_append ""
  · simpa [ha, segments, splitSlashes, componentOf?] using componentsOf_append_slash ha ""

/-- A path in a directory goes on from where the directory leads to. -/
theorem collapse_join (directory importee : String) :
    collapse ((ofText directory).join (ofText importee)).components =
      if beginsAtRoot importee then collapse (componentsOf importee)
      else (((segments importee).filterMap componentOf?).foldl step
        ((componentsOf directory).foldl step [])).reverse := by
  by_cases hi : beginsAtRoot importee = true
  · have habs : (ofText importee).isAbsolute = true := hi
    rw [join, if_pos habs, if_pos hi, components_ofText]
  · have habs : ¬ (ofText importee).isAbsolute = true := hi
    rw [join, if_neg habs, if_neg hi]
    rw [Bool.not_eq_true] at hi
    show collapse (if directory = "" then ofText importee
      else if directory.toList.getLast? = some '/' then ofText (directory ++ importee)
      else ofText (directory ++ "/" ++ importee)).components = _
    by_cases hempty : directory = ""
    · subst hempty
      rw [if_pos rfl, components_ofText, collapse, componentsOf_relative hi,
        foldl_step_relativeComponents, componentsOf_empty]
      rfl
    · rw [if_neg hempty]
      by_cases hslash : directory.toList.getLast? = some '/'
      · -- the directory is spelled with a slash at its end
        rw [if_pos hslash, components_ofText, collapse]
        obtain ⟨front, hf⟩ := List.getLast?_eq_some_iff.1 hslash
        obtain rfl : directory = String.ofList front ++ "/" := String.toList_injective (by simp [hf])
        by_cases hfront : String.ofList front = ""
        · rw [componentsOf_trailing_slash, if_pos hfront, hfront,
            show "" ++ "/" ++ importee = "/" ++ importee from rfl, componentsOf_slash_append]
          rfl
        · rw [componentsOf_append_slash hfront, List.foldl_append, componentsOf_trailing_slash,
            if_neg hfront]
      · rw [if_neg hslash, components_ofText, collapse, componentsOf_append_slash hempty,
          List.foldl_append]

theorem ofText_text (p : Path) : ofText p.text = p := by
  obtain ⟨text, components, rfl⟩ := p
  rfl

/-- Importers that are the same path, however they are spelled, import the same
modules. -/
theorem resolve_eq_of_same {p q : Path} (h : p.same q = true) (importee : String) :
    resolve p importee = resolve q importee := by
  have hb : p.base.components = q.base.components := by
    rw [components_base, components_base, same_iff.1 h]
  have hn : (p.base.join (ofText importee)).normalize =
      (q.base.join (ofText importee)).normalize := by
    rw [normalize, normalize, ← ofText_text p.base, ← ofText_text q.base, collapse_join,
      collapse_join, ← p.base.components_eq, ← q.base.components_eq, hb]
  rw [resolve, resolve, hn]

end ModuleBundler.Path

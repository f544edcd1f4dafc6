import Mathlib.Data.List.Pairwise
import ModuleBundler.Proofs.Cursors
import ModuleBundler.Proofs.RangeLists

/-!
# ModuleBundler — what views keep

A view stands for the set of the offsets whose bytes it keeps. Cutting out a part of a view and
removing a range from it are intersections and differences of such sets, and as a list of
removed ranges is determined by what it covers, the order and number of removals makes no
difference at all to a view.

* `View.keeps`, `View.kept` — the offsets that a view keeps.
* `View.Sound` — the invariant of views: their removed ranges are canonical and lie inside.
* `Edit` — views that are cut out of each other and edited, in any order.
* `views_exact` — what holds of all views that come up.
-/

namespace ModuleBundler.Text

/-- The bytes of a text. -/
def bytes (text : String) : List UInt8 := text.toByteArray.data.toList

/-- An offset of a text that does not lie inside a character. -/
def OnBoundary (text : String) (offset : Nat) : Prop :=
  String.Pos.Raw.isValid text ⟨offset⟩ = true

namespace View

/-- Whether a view keeps the byte at an offset. -/
def keeps (v : View) (p : Nat) : Bool := v.window.contains p && !v.removed.any (·.contains p)

/-- The offsets of the bytes that a view keeps, in ascending order. -/
def kept (v : View) : List Nat := (List.range v.text.utf8ByteSize).filter v.keeps

/-- The removed ranges of a view are canonical and lie inside its window. -/
structure Sound (v : View) : Prop where
  window_le : v.window.start ≤ v.window.stop
  window_fits : v.window.stop ≤ v.text.utf8ByteSize
  inside : ∀ r ∈ v.removed, v.window.start ≤ r.start ∧ r.stop ≤ v.window.stop
  canonical : Canonical v.removed

variable {v w : View} {a b p : Nat}

theorem keeps_iff : v.keeps p = true ↔
    (v.window.start ≤ p ∧ p < v.window.stop) ∧ ¬Covers v.removed p := by
  simp [keeps, Covers, Span.contains_iff]

theorem mem_kept (h : v.Sound) : p ∈ v.kept ↔ v.keeps p = true := by
  rw [kept, List.mem_filter, List.mem_range, and_iff_right_iff_imp, keeps_iff]
  exact fun hp => hp.1.2.trans_le h.window_fits

theorem sound_whole (text : String) : (whole text).Sound :=
  ⟨Nat.zero_le _, le_rfl, by simp [whole], .nil⟩

-- ---------------------------------------------------------------------------
-- Cutting and removing
-- ---------------------------------------------------------------------------

theorem clamp_le (v : View) (a b : Nat) (h : v.window.start ≤ v.window.stop) :
    v.window.start ≤ (v.clamp a b).start ∧ (v.clamp a b).start ≤ (v.clamp a b).stop ∧
      (v.clamp a b).stop ≤ v.window.stop := by
  simp only [clamp]
  omega

/-- What of a range lies in the window. -/
theorem mem_clamp_iff (v : View) (a b p : Nat) (hp : v.window.start ≤ p ∧ p < v.window.stop) :
    (v.clamp a b).start ≤ p ∧ p < (v.clamp a b).stop ↔ a ≤ p ∧ p < b := by
  simp only [clamp]
  omega

theorem clip_eq_some {window r s : Span} (h : clip window r = some s) :
    s = ⟨max r.start window.start, min r.stop window.stop⟩ ∧ s.start < s.stop := by
  simp only [clip] at h
  split at h
  · cases h
    exact ⟨rfl, ‹_›⟩
  · cases h

theorem covers_clip {window : Span} {l : List Span}
    (hp : window.start ≤ p ∧ p < window.stop) :
    Covers (l.filterMap (clip window)) p ↔ Covers l p := by
  simp only [Covers, List.mem_filterMap]
  constructor
  · rintro ⟨s, ⟨r, hr, hclip⟩, hs⟩
    obtain ⟨rfl, -⟩ := clip_eq_some hclip
    exact ⟨r, hr, (le_max_left ..).trans hs.1, hs.2.trans_le (min_le_left ..)⟩
  · rintro ⟨r, hr, hpr⟩
    refine ⟨⟨max r.start window.start, min r.stop window.stop⟩, ⟨r, hr, ?_⟩,
      max_le hpr.1 hp.1, lt_min hpr.2 hp.2⟩
    simp only [clip]
    rw [if_pos]
    omega

theorem Sound.snip (h : v.Sound) (a b : Nat) : (v.snip a b).Sound := by
  obtain ⟨hstart, hle, hstop⟩ := v.clamp_le a b h.window_le
  refine ⟨hle, hstop.trans h.window_fits, fun s hs => ?_, fun s hs => ?_, ?_⟩
  · obtain ⟨r, -, hclip⟩ := List.mem_filterMap.1 hs
    obtain ⟨rfl, -⟩ := clip_eq_some hclip
    exact ⟨le_max_right .., min_le_right ..⟩
  · obtain ⟨r, -, hclip⟩ := List.mem_filterMap.1 hs
    exact (clip_eq_some hclip).2
  · refine List.pairwise_filterMap.2 (h.canonical.ascending.imp fun hlt s hs s' hs' => ?_)
    obtain ⟨rfl, -⟩ := clip_eq_some hs
    obtain ⟨rfl, -⟩ := clip_eq_some hs'
    exact (min_le_left ..).trans_lt (hlt.trans_le (le_max_left ..))

/-- A view of a part keeps what the view keeps there. -/
theorem keeps_snip (h : v.Sound) :
    (v.snip a b).keeps p = true ↔ v.keeps p = true ∧ a ≤ p ∧ p < b := by
  obtain ⟨hstart, -, hstop⟩ := v.clamp_le a b h.window_le
  have hwindow : (v.snip a b).window = v.clamp a b := rfl
  have hremoved : (v.snip a b).removed = v.removed.filterMap (clip (v.clamp a b)) := rfl
  rw [keeps_iff, keeps_iff, hwindow, hremoved]
  constructor
  · rintro ⟨hp, hnot⟩
    have hin : v.window.start ≤ p ∧ p < v.window.stop := by omega
    exact ⟨⟨hin, fun hc => hnot ((covers_clip hp).2 hc)⟩, (v.mem_clamp_iff a b p hin).1 hp⟩
  · rintro ⟨⟨hin, hnot⟩, hp⟩
    have hp := (v.mem_clamp_iff a b p hin).2 hp
    exact ⟨hp, fun hc => hnot ((covers_clip hp).1 hc)⟩

/-- What is left of a range to remove is nothing, or it is melted into the removed ranges. -/
theorem remove_eq (v : View) (a b : Nat) :
    (v.remove a b = v ∧ (v.clamp a b).stop ≤ (v.clamp a b).start) ∨
      (v.clamp a b).start < (v.clamp a b).stop ∧
        v.remove a b = ⟨v.text, v.window,
          insertRange (absorb v.removed (v.clamp a b)).2 (absorb v.removed (v.clamp a b)).1⟩ := by
  unfold remove
  simp only [Span.isEmpty, decide_eq_true_eq]
  split
  · exact .inl ⟨rfl, ‹_›⟩
  · exact .inr ⟨by omega, rfl⟩

@[simp] theorem window_remove (v : View) (a b : Nat) : (v.remove a b).window = v.window := by
  rcases v.remove_eq a b with ⟨h, -⟩ | ⟨-, h⟩ <;> rw [h]

@[simp] theorem text_remove (v : View) (a b : Nat) : (v.remove a b).text = v.text := by
  rcases v.remove_eq a b with ⟨h, -⟩ | ⟨-, h⟩ <;> rw [h]

@[simp] theorem text_snip (v : View) (a b : Nat) : (v.snip a b).text = v.text := rfl

theorem Sound.remove (h : v.Sound) (a b : Nat) : (v.remove a b).Sound := by
  rcases v.remove_eq a b with ⟨heq, -⟩ | ⟨hlt, heq⟩
  · rwa [heq]
  rw [heq]
  obtain ⟨hstart, -, hstop⟩ := v.clamp_le a b h.window_le
  have habsorbed := absorbed_absorb h.canonical hlt
  have hmelted := habsorbed.encloses
  refine ⟨h.window_le, h.window_fits, fun r hr => ?_, ?_⟩
  · rcases mem_insertRange.1 hr with rfl | hr
    · exact ⟨habsorbed.lower hstart fun r hr => (h.inside r hr).1,
        habsorbed.upper hstop fun r hr => (h.inside r hr).2⟩
    · exact h.inside r (habsorbed.sublist.subset hr)
  · exact canonical_insertRange (h.canonical.sublist habsorbed.sublist) (by omega)
      habsorbed.apart

/-- To remove a range is to keep what lies outside. -/
theorem keeps_remove (h : v.Sound) :
    (v.remove a b).keeps p = true ↔ v.keeps p = true ∧ ¬(a ≤ p ∧ p < b) := by
  rw [keeps_iff, keeps_iff, window_remove, and_assoc (c := ¬(a ≤ p ∧ p < b))]
  refine and_congr_right fun hin => ?_
  rw [← v.mem_clamp_iff a b p hin]
  rcases v.remove_eq a b with ⟨heq, hle⟩ | ⟨hlt, heq⟩
  · have hnone : ¬((v.clamp a b).start ≤ p ∧ p < (v.clamp a b).stop) := by omega
    rw [heq, and_iff_left hnone]
  · rw [heq]
    show ¬Covers (insertRange _ _) p ↔ _
    rw [covers_insertRange, (absorbed_absorb h.canonical hlt).covers p, not_or, and_comm]

-- ---------------------------------------------------------------------------
-- What is kept determines a view
-- ---------------------------------------------------------------------------

theorem covers_iff (h : v.Sound) : Covers v.removed p ↔
    (v.window.start ≤ p ∧ p < v.window.stop) ∧ v.keeps p = false := by
  rw [← Bool.not_eq_true, keeps_iff]
  constructor
  · intro hc
    obtain ⟨r, hr, hpr⟩ := hc
    have := h.inside r hr
    exact ⟨by omega, fun hk => hk.2 ⟨r, hr, hpr⟩⟩
  · rintro ⟨hin, hk⟩
    by_contra hc
    exact hk ⟨hin, hc⟩

/-- Two views of one window of a text that keep the same are the same. -/
theorem eq_of_keeps (hv : v.Sound) (hw : w.Sound) (htext : v.text = w.text)
    (hwindow : v.window = w.window) (h : ∀ p, v.keeps p = true ↔ w.keeps p = true) : v = w := by
  have hremoved : v.removed = w.removed := by
    refine hv.canonical.eq_of_covers hw.canonical fun p => ?_
    rw [covers_iff hv, covers_iff hw, hwindow, Bool.eq_iff_iff.2 (h p)]
  cases v
  cases w
  simp_all

theorem remove_comm (h : v.Sound) (a b c d : Nat) :
    (v.remove a b).remove c d = (v.remove c d).remove a b := by
  refine eq_of_keeps ((h.remove a b).remove c d) ((h.remove c d).remove a b) (by simp) (by simp)
    fun p => ?_
  rw [keeps_remove (h.remove a b), keeps_remove h, keeps_remove (h.remove c d), keeps_remove h,
    and_right_comm]

theorem remove_remove (h : v.Sound) (a b : Nat) : (v.remove a b).remove a b = v.remove a b := by
  refine eq_of_keeps ((h.remove a b).remove a b) (h.remove a b) (by simp) (by simp) fun p => ?_
  rw [keeps_remove (h.remove a b), keeps_remove h, and_assoc, and_self]

-- ---------------------------------------------------------------------------
-- Bytes
-- ---------------------------------------------------------------------------

/-- The offsets from a cursor on that lie between removed ranges. -/
def offsets (stop : Nat) (cursor : Nat) : List Span → List Nat
  | [] => List.range' cursor (stop - cursor)
  | r :: rs => List.range' cursor (r.start - cursor) ++ offsets stop r.stop rs

/-- Ranges that begin at a cursor or later and lie before a limit. -/
structure Ahead (cursor stop : Nat) (l : List Span) : Prop where
  le : cursor ≤ stop
  inside : ∀ r ∈ l, cursor ≤ r.start ∧ r.stop ≤ stop
  canonical : Canonical l

namespace Ahead

variable {cursor stop : Nat} {r : Span} {l : List Span}

theorem tail (h : Ahead cursor stop (r :: l)) : Ahead r.stop stop l :=
  ⟨(h.inside r List.mem_cons_self).2, fun s hs =>
    ⟨(h.canonical.lt_of_mem hs).le, (h.inside s (List.mem_cons_of_mem r hs)).2⟩, h.canonical.tail⟩

theorem mem_offsets (h : Ahead cursor stop l) :
    p ∈ offsets stop cursor l ↔ (cursor ≤ p ∧ p < stop) ∧ ¬Covers l p := by
  induction l generalizing cursor with
  | nil =>
    have := h.le
    simp only [offsets, List.mem_range'_1, not_covers_nil, not_false_eq_true, and_true]
    omega
  | cons r l ih =>
    obtain ⟨hle, hstop⟩ := h.inside r List.mem_cons_self
    have hr := h.canonical.head
    have hbehind := fun hc => h.canonical.lt_of_covers (p := p) hc
    rw [offsets, List.mem_append, List.mem_range'_1, ih h.tail, covers_cons, not_or]
    constructor
    · rintro (hp | hp)
      · exact ⟨by omega, by omega, fun hc => by have := hbehind hc; omega⟩
      · exact ⟨by omega, by omega, hp.2⟩
    · rintro ⟨hp, hnot, hc⟩
      by_cases hlt : p < r.start
      · exact .inl (by omega)
      · exact .inr ⟨by omega, hc⟩

theorem pairwise_offsets (h : Ahead cursor stop l) : (offsets stop cursor l).Pairwise (· < ·) := by
  induction l generalizing cursor with
  | nil => exact List.pairwise_lt_range'
  | cons r l ih =>
    have hr := h.canonical.head
    refine List.pairwise_append.2 ⟨List.pairwise_lt_range', ih h.tail, fun p hp q hq => ?_⟩
    obtain ⟨-, hp⟩ := List.mem_range'_1.1 hp
    obtain ⟨⟨hq, -⟩, -⟩ := h.tail.mem_offsets.1 hq
    have := (h.inside r List.mem_cons_self).1
    omega

/-- Together with the removed offsets this is all that is ahead. -/
theorem length_offsets (h : Ahead cursor stop l) :
    (offsets stop cursor l).length + total Span.length l = stop - cursor := by
  induction l generalizing cursor with
  | nil => simp [offsets]
  | cons r l ih =>
    obtain ⟨hle, hstop⟩ := h.inside r List.mem_cons_self
    have hr := h.canonical.head
    have := ih h.tail
    rw [offsets, List.length_append, List.length_range', total_cons, Span.length]
    omega

end Ahead

theorem Sound.ahead (h : v.Sound) : Ahead v.window.start v.window.stop v.removed :=
  ⟨h.window_le, h.inside, h.canonical⟩

theorem kept_eq (h : v.Sound) : v.kept = offsets v.window.stop v.window.start v.removed := by
  have hkept : v.kept.Pairwise (· < ·) := List.pairwise_lt_range.filter _
  have hoffsets := h.ahead.pairwise_offsets
  refine List.Perm.eq_of_pairwise (fun a b _ _ hab hba => absurd hab hba.not_gt) hkept hoffsets ?_
  refine (List.perm_ext_iff_of_nodup (hkept.imp ne_of_lt) (hoffsets.imp ne_of_lt)).2 fun p => ?_
  rw [mem_kept h, keeps_iff, h.ahead.mem_offsets]

end View

/-- A place in a text that no character goes over is the place of a cursor. -/
theorem OnBoundary.exists_cursor {text : String} {a : Nat} (h : OnBoundary text a) :
    ∃ c : Cursor, (Cursor.start text).Before c ∧ c.offset = a := by
  rw [OnBoundary, String.Pos.Raw.isValid_eq_true_iff,
    String.Pos.Raw.isValid_iff_exists_append] at h
  obtain ⟨front, back, rfl, ha⟩ := h
  have ha : a = front.utf8ByteSize := congrArg String.Pos.Raw.byteIdx ha
  refine ⟨⟨a, back.toList⟩, .of_passed (m := front.toList) (by simp [Cursor.start]) ?_, rfl⟩
  simp [Cursor.start, String.utf8Len_toList, ha]

theorem bytes_append (s t : String) : bytes (s ++ t) = bytes s ++ bytes t := by
  simp [bytes]

theorem length_bytes (s : String) : (bytes s).length = s.utf8ByteSize := by
  rw [bytes, Array.length_toList, ByteArray.size_data, String.size_toByteArray]

theorem filterMap_range' {α : Type} (l m n : List α) :
    (List.range' l.length m.length).filterMap ((l ++ m ++ n)[·]?) = m := by
  induction m generalizing l with
  | nil => rfl
  | cons a m ih =>
    have hhead : (l ++ a :: m ++ n)[l.length]? = some a := by simp
    have htail := ih (l ++ [a])
    rw [List.append_assoc l [a] m, List.singleton_append, List.length_append] at htail
    rw [List.length_cons, List.range'_succ, List.filterMap_cons, hhead]
    exact congrArg (a :: ·) htail

/-- The bytes of a slice are those of the text between its ends. -/
theorem bytes_slice {text : String} {a b : Nat} (ha : OnBoundary text a)
    (hb : OnBoundary text b) (hle : a ≤ b) :
    bytes (slice text a b) = (List.range' a (b - a)).filterMap ((bytes text)[·]?) := by
  obtain ⟨c, hc, rfl⟩ := ha.exists_cursor
  obtain ⟨d, hd, rfl⟩ := hb.exists_cursor
  obtain ⟨l, hl, hstart⟩ := hc.exists_passed
  obtain ⟨m, hm, hstop⟩ := (hc.of_offset_le hd hle).exists_passed
  have htext : text = String.ofList l ++ String.ofList m ++ String.ofList d.rest := by
    rw [← String.ofList_append, ← String.ofList_append, List.append_assoc, ← hm, ← hl]
    simp [Cursor.start]
  have hlength : ∀ cs : List Char, (bytes (String.ofList cs)).length = String.utf8Len cs := by
    intro cs
    rw [length_bytes, String.utf8ByteSize_ofList]
  have hl : c.offset = (bytes (String.ofList l)).length := by
    rw [hlength, hstart]
    exact Nat.zero_add _
  have hm' : d.offset - c.offset = (bytes (String.ofList m)).length := by
    rw [hlength]
    omega
  rw [slice_eq hc hm hstop, hm', hl, htext, bytes_append, bytes_append, filterMap_range']

namespace View

variable {v : View}

/-- The window and the removed ranges of a view begin and end between characters. -/
structure BetweenCharacters (v : View) : Prop where
  window : OnBoundary v.text v.window.start ∧ OnBoundary v.text v.window.stop
  removed : ∀ r ∈ v.removed, OnBoundary v.text r.start ∧ OnBoundary v.text r.stop

theorem bytes_pieces {text : String} {cursor stop : Nat} {l : List Span} (h : Ahead cursor stop l)
    (hcursor : OnBoundary text cursor) (hstop : OnBoundary text stop)
    (hl : ∀ r ∈ l, OnBoundary text r.start ∧ OnBoundary text r.stop) :
    bytes (pieces text stop cursor l) =
      (offsets stop cursor l).filterMap ((bytes text)[·]?) := by
  induction l generalizing cursor with
  | nil => exact bytes_slice hcursor hstop h.le
  | cons r l ih =>
    obtain ⟨⟨hstart, hbehind⟩, hl⟩ := List.forall_mem_cons.1 hl
    have hle := (h.inside r List.mem_cons_self).1
    rw [pieces, offsets, bytes_append, bytes_slice hcursor hstart hle, ih h.tail hbehind hl,
      List.filterMap_append]

/-- The text of a view is made of the bytes that it keeps. -/
theorem bytes_toText (h : v.Sound) (hv : v.BetweenCharacters) :
    bytes v.toText = v.kept.filterMap ((bytes v.text)[·]?) := by
  rw [kept_eq h]
  exact bytes_pieces h.ahead hv.window.1 hv.window.2 hv.removed

theorem length_filterMap_getElem? {α : Type} (l : List α) {ps : List Nat}
    (h : ∀ p ∈ ps, p < l.length) : (ps.filterMap (l[·]?)).length = ps.length := by
  induction ps with
  | nil => rfl
  | cons p ps ih =>
    obtain ⟨hp, h⟩ := List.forall_mem_cons.1 h
    rw [List.filterMap_cons, List.getElem?_eq_getElem hp]
    exact congrArg (· + 1) (ih h)

theorem length_kept (h : v.Sound) :
    v.kept.length + total Span.length v.removed = v.window.length := by
  rw [kept_eq h, h.ahead.length_offsets, Span.length]

theorem size_toText (h : v.Sound) (hv : v.BetweenCharacters) :
    v.toText.utf8ByteSize = v.kept.length := by
  rw [← length_bytes, bytes_toText h hv]
  refine length_filterMap_getElem? _ fun p hp => ?_
  rw [length_bytes]
  exact List.mem_range.1 (List.mem_filter.1 hp).1

-- ---------------------------------------------------------------------------
-- Views that are cut out of each other
-- ---------------------------------------------------------------------------

/-- What a view stands for is what it does. -/
structure Exact (v : View) : Prop where
  ascending : v.removed.Pairwise fun r s => r.stop < s.start
  nonempty : ∀ r ∈ v.removed, r.start < r.stop
  inside : ∀ r ∈ v.removed, v.window.start ≤ r.start ∧ r.stop ≤ v.window.stop
  /-- Some byte between two removed ranges is kept. -/
  separated : v.removed.Pairwise fun r s => ∃ p, v.keeps p = true ∧ r.stop ≤ p ∧ p < s.start
  snip : ∀ a b p, (v.snip a b).keeps p = true ↔ v.keeps p = true ∧ a ≤ p ∧ p < b
  remove : ∀ a b p, (v.remove a b).keeps p = true ↔ v.keeps p = true ∧ ¬(a ≤ p ∧ p < b)
  /-- There is enough to take the removed lengths from. -/
  total_le : total Span.length v.removed ≤ v.window.length
  length : v.length = v.kept.length
  bytes : v.BetweenCharacters →
    bytes v.toText = v.kept.filterMap ((bytes v.text)[·]?) ∧ v.toText.utf8ByteSize = v.length
  remove_comm : ∀ a b c d, (v.remove a b).remove c d = (v.remove c d).remove a b
  remove_remove : ∀ a b, (v.remove a b).remove a b = v.remove a b

/-- Where a removed range stops a byte is kept, unless the window stops there too. -/
theorem keeps_stop {r : Span} (h : v.Sound) (hr : r ∈ v.removed) (hlt : r.stop < v.window.stop) :
    v.keeps r.stop = true := by
  have hle := (h.inside r hr).1
  have hnonempty := h.canonical.nonempty r hr
  refine keeps_iff.2 ⟨by omega, ?_⟩
  rintro ⟨s, hs, hstart, hstop⟩
  have hne : r ≠ s := by
    rintro rfl
    exact absurd hstop (lt_irrefl _)
  let Apart (r s : Span) : Prop := r.stop < s.start ∨ s.stop < r.start
  have : Std.Symm Apart := ⟨fun _ _ => Or.symm⟩
  have hapart : v.removed.Pairwise Apart := h.canonical.ascending.imp .inl
  rcases hapart.forall hr hs hne with h | h
  · omega
  · omega

theorem Sound.exact (h : v.Sound) : v.Exact := by
  have hlength := length_kept h
  have heq : v.length = v.kept.length := by
    rw [View.length]
    omega
  constructor
  case ascending => exact h.canonical.ascending
  case nonempty => exact h.canonical.nonempty
  case inside => exact h.inside
  case separated =>
    refine h.canonical.ascending.imp_of_mem fun {r s} hr hs hlt => ⟨r.stop, ?_, le_rfl, hlt⟩
    have := (h.inside s hs).2
    have := h.canonical.nonempty s hs
    exact keeps_stop h hr (by omega)
  case snip => exact fun a b p => keeps_snip h
  case remove => exact fun a b p => keeps_remove h
  case total_le => omega
  case length => exact heq
  case bytes => exact fun hv => ⟨bytes_toText h hv, (size_toText h hv).trans heq.symm⟩
  case remove_comm => exact View.remove_comm h
  case remove_remove => exact View.remove_remove h

end View

/-- An edit of one of the views of a text, by its number. -/
inductive Edit where
  | snip (view start stop : Nat)
  | remove (view start stop : Nat)

namespace Edit

/-- A part that is cut out is the next view; a removal changes the view it is made on. -/
def apply (views : List View) : Edit → List View
  | .snip i start stop => views ++ (views[i]?.map (·.snip start stop)).toList
  | .remove i start stop => views.modify i (·.remove start stop)

/-- The views of a text after some edits. The first one shows the whole text. -/
def views (text : String) (edits : List Edit) : List View := edits.foldl apply [View.whole text]

/-- A property that cutting and removing keep is one of all views. -/
theorem forall_mem_apply {P : View → Prop} (hsnip : ∀ v a b, P v → P (v.snip a b))
    (hremove : ∀ v a b, P v → P (v.remove a b)) {views : List View} (h : ∀ v ∈ views, P v)
    (edit : Edit) : ∀ v ∈ edit.apply views, P v := by
  intro v hv
  cases edit with
  | snip i start stop =>
    rcases List.mem_append.1 hv with hv | hv
    · exact h v hv
    · obtain ⟨w, hw, rfl⟩ := Option.map_eq_some_iff.1 (Option.mem_toList.1 hv)
      exact hsnip w start stop (h w (List.mem_of_getElem? hw))
  | remove i start stop =>
    obtain ⟨j, hj⟩ := List.getElem?_of_mem hv
    rw [apply, List.getElem?_modify] at hj
    obtain ⟨w, hw, rfl⟩ := Option.map_eq_some_iff.1 hj
    have hw := h w (List.mem_of_getElem? hw)
    split
    · exact hremove w start stop hw
    · exact hw

theorem forall_mem_foldl {P : View → Prop} (hsnip : ∀ v a b, P v → P (v.snip a b))
    (hremove : ∀ v a b, P v → P (v.remove a b)) (edits : List Edit) {views : List View}
    (h : ∀ v ∈ views, P v) : ∀ v ∈ edits.foldl apply views, P v := by
  induction edits generalizing views with
  | nil => exact h
  | cons edit edits ih => exact ih (forall_mem_apply hsnip hremove h edit)

theorem sound_of_mem_views {text : String} {edits : List Edit} :
    ∀ v ∈ views text edits, v.text = text ∧ v.Sound := by
  refine forall_mem_foldl (fun v a b h => ⟨h.1, h.2.snip a b⟩)
    (fun v a b h => ⟨(v.text_remove a b).trans h.1, h.2.remove a b⟩) edits ?_
  rintro v hv
  obtain rfl := List.mem_singleton.1 hv
  exact ⟨rfl, View.sound_whole text⟩

theorem views_append (text : String) (edits : List Edit) (edit : Edit) :
    views text (edits ++ [edit]) = edit.apply (views text edits) := by
  rw [views, List.foldl_append]
  rfl

end Edit

/-- Every view of a text stands for the bytes that it keeps, and an edit concerns no view but the
one that it is made on: a part cut out is a new view behind the others, and a removal changes a
view in its place. -/
theorem views_exact (text : String) (edits : List Edit) :
    (∀ v ∈ Edit.views text edits, v.text = text ∧ v.Exact) ∧
      (∀ i a b v, (Edit.views text edits)[i]? = some v →
        Edit.views text (edits ++ [.snip i a b]) = Edit.views text edits ++ [v.snip a b]) ∧
      ∀ i a b j, (Edit.views text (edits ++ [.remove i a b]))[j]? =
        (Edit.views text edits)[j]?.map fun v => if i = j then v.remove a b else v := by
  refine ⟨fun v hv => ?_, fun i a b v hi => ?_, fun i a b j => ?_⟩
  · obtain ⟨htext, hsound⟩ := Edit.sound_of_mem_views v hv
    exact ⟨htext, hsound.exact⟩
  · rw [Edit.views_append, Edit.apply, hi]
    rfl
  · rw [Edit.views_append, Edit.apply, List.getElem?_modify]
    rfl

/-- A cut and two removals that touch, in a text with letters of two bytes. -/
theorem views_exact_accents :
    let edits : List Edit := [.snip 0 2 7, .remove 1 3 5, .remove 1 5 6, .remove 0 0 2]
    ((Edit.views "é=éa;" edits)[1]?.map fun v => (v.removed, v.toText, v.length)) =
        some ([⟨3, 6⟩], "=;", 2) ∧
      ∀ v ∈ Edit.views "é=éa;" edits, v.text = "é=éa;" ∧ v.Exact :=
  ⟨by decide +kernel, (views_exact _ _).1⟩

end ModuleBundler.Text

import Mathlib.Data.Nat.Basic
import Mathlib.Order.Basic
import ModuleBundler.Text.View

/-!
# ModuleBundler — lists of ranges

The ranges that are removed from a view are kept in ascending order, none of them empty and
with something between any two of them. A set of offsets has no more than one such list, so
what holds of the offsets that the list covers decides everything else.

* `Covers`, `Canonical` — the offsets of a list of ranges, and the lists in question.
* `Canonical.eq_of_covers` — the offsets determine the list.
* `Absorbed`, `absorbed_absorb` — a range takes in the ranges that it overlaps or touches.
* `canonical_insertRange` — a range that stands apart from all others is put in its place.
-/

namespace ModuleBundler.Text

theorem Span.contains_iff {s : Span} {p : Nat} :
    s.contains p = true ↔ s.start ≤ p ∧ p < s.stop := by
  rw [contains, Bool.and_eq_true, decide_eq_true_eq, decide_eq_true_eq]

-- ---------------------------------------------------------------------------
-- Offsets of ranges
-- ---------------------------------------------------------------------------

/-- Some range of a list holds an offset. -/
def Covers (l : List Span) (p : Nat) : Prop := ∃ r ∈ l, r.start ≤ p ∧ p < r.stop

/-- Ranges in ascending order, none of them empty, with something between them. -/
structure Canonical (l : List Span) : Prop where
  nonempty : ∀ r ∈ l, r.start < r.stop
  ascending : l.Pairwise fun r s => r.stop < s.start

variable {l m : List Span} {r s : Span} {p : Nat}

theorem not_covers_nil : ¬Covers [] p := by
  simp [Covers]

theorem covers_cons : Covers (r :: l) p ↔ (r.start ≤ p ∧ p < r.stop) ∨ Covers l p := by
  simp [Covers]

namespace Canonical

theorem nil : Canonical [] := ⟨by simp, .nil⟩

theorem cons (hr : r.start < r.stop) (hl : Canonical l) (h : ∀ s ∈ l, r.stop < s.start) :
    Canonical (r :: l) :=
  ⟨List.forall_mem_cons.2 ⟨hr, hl.nonempty⟩, List.pairwise_cons.2 ⟨h, hl.ascending⟩⟩

theorem head (h : Canonical (r :: l)) : r.start < r.stop := h.nonempty r List.mem_cons_self

theorem tail (h : Canonical (r :: l)) : Canonical l :=
  ⟨fun s hs => h.nonempty s (List.mem_cons_of_mem r hs), (List.pairwise_cons.1 h.ascending).2⟩

theorem lt_of_mem (h : Canonical (r :: l)) (hs : s ∈ l) : r.stop < s.start :=
  (List.pairwise_cons.1 h.ascending).1 s hs

theorem sublist (h : Canonical l) (hm : m.Sublist l) : Canonical m :=
  ⟨fun r hr => h.nonempty r (hm.subset hr), h.ascending.sublist hm⟩

/-- Behind the first range the later ones begin. -/
theorem lt_of_covers (h : Canonical (r :: l)) (hp : Covers l p) : r.stop < p := by
  obtain ⟨s, hs, hle, -⟩ := hp
  exact (h.lt_of_mem hs).trans_le hle

/-- A list covers nothing before its first range begins. -/
theorem le_of_covers (h : Canonical (r :: l)) (hp : Covers (r :: l) p) : r.start ≤ p := by
  rcases covers_cons.1 hp with hr | hp
  · exact hr.1
  · exact (h.head.trans (h.lt_of_covers hp)).le

/-- Where the first range of one list ends, the first range of a list that covers as much has
ended too. -/
theorem head_stop_le (hl : Canonical (r :: l)) (hstart : r.start = s.start)
    (h : ∀ p, Covers (s :: m) p → Covers (r :: l) p) :
    s.stop ≤ r.stop := by
  by_contra hlt
  have hinside : Covers (s :: m) r.stop :=
    covers_cons.2 (.inl ⟨hstart ▸ hl.head.le, not_le.1 hlt⟩)
  rcases covers_cons.1 (h _ hinside) with hr | hl'
  · exact absurd hr.2 (lt_irrefl _)
  · exact absurd (hl.lt_of_covers hl') (lt_irrefl _)

/-- The offsets that are covered determine the list. -/
theorem eq_of_covers (hl : Canonical l) (hm : Canonical m) (h : ∀ p, Covers l p ↔ Covers m p) :
    l = m := by
  induction l generalizing m with
  | nil =>
    cases m with
    | nil => rfl
    | cons s m =>
      exact absurd ((h s.start).2 (covers_cons.2 (.inl ⟨le_rfl, hm.head⟩))) not_covers_nil
  | cons r l ih =>
    cases m with
    | nil => exact absurd ((h r.start).1 (covers_cons.2 (.inl ⟨le_rfl, hl.head⟩))) not_covers_nil
    | cons s m =>
      have hstart : r.start = s.start :=
        le_antisymm (hl.le_of_covers ((h s.start).2 (covers_cons.2 (.inl ⟨le_rfl, hm.head⟩))))
          (hm.le_of_covers ((h r.start).1 (covers_cons.2 (.inl ⟨le_rfl, hl.head⟩))))
      have hstop : r.stop = s.stop :=
        le_antisymm (hm.head_stop_le hstart.symm fun p => (h p).1)
          (hl.head_stop_le hstart fun p => (h p).2)
      obtain rfl : r = s := by
        cases r
        cases s
        simp_all
      refine congrArg (r :: ·) (ih hl.tail hm.tail fun p => ⟨fun hp => ?_, fun hp => ?_⟩)
      · refine (covers_cons.1 ((h p).1 (covers_cons.2 (.inr hp)))).resolve_left fun hr => ?_
        exact absurd (hl.lt_of_covers hp) hr.2.not_gt
      · refine (covers_cons.1 ((h p).2 (covers_cons.2 (.inr hp)))).resolve_left fun hr => ?_
        exact absurd (hm.lt_of_covers hp) hr.2.not_gt

end Canonical

-- ---------------------------------------------------------------------------
-- Taking in ranges
-- ---------------------------------------------------------------------------

namespace View

/-- A range takes in some ranges of a list, and the others stand apart from what it melts
to. -/
structure Absorbed (l : List Span) (s : Span) (kept : List Span) (melted : Span) : Prop where
  sublist : kept.Sublist l
  apart : ∀ r ∈ kept, r.stop < melted.start ∨ melted.stop < r.start
  encloses : melted.start ≤ s.start ∧ s.stop ≤ melted.stop
  covers : ∀ p, (melted.start ≤ p ∧ p < melted.stop) ∨ Covers kept p ↔
    (s.start ≤ p ∧ p < s.stop) ∨ Covers l p
  lower : ∀ {a}, a ≤ s.start → (∀ r ∈ l, a ≤ r.start) → a ≤ melted.start
  upper : ∀ {b}, s.stop ≤ b → (∀ r ∈ l, r.stop ≤ b) → melted.stop ≤ b

theorem absorb_of_lt (h : ∀ r ∈ l, s.stop < r.start) : absorb l s = (l, s) := by
  induction l with
  | nil => rfl
  | cons r l ih =>
    rw [List.forall_mem_cons] at h
    simp [absorb, apart, h.1, ih h.2]

variable {kept : List Span} {melted : Span}

/-- Before a list nothing of it is taken in. -/
theorem Absorbed.of_lt (h : ∀ r ∈ l, s.stop < r.start) : Absorbed l s l s where
  sublist := .refl l
  apart _ hr := .inr (h _ hr)
  encloses := ⟨le_rfl, le_rfl⟩
  covers _ := .rfl
  lower ha _ := ha
  upper hb _ := hb

/-- A range in front of all others is not taken in. -/
theorem Absorbed.keep (h : Absorbed l s kept melted) (hbefore : r.stop < s.start)
    (hr : ∀ x ∈ l, r.stop < x.start) : Absorbed (r :: l) s (r :: kept) melted where
  sublist := h.sublist.cons_cons r
  apart := List.forall_mem_cons.2
    ⟨.inl (h.lower hbefore fun _ hx => hr _ hx), h.apart⟩
  encloses := h.encloses
  covers p := by rw [covers_cons, covers_cons, or_left_comm, h.covers p, or_left_comm]
  lower ha hle := h.lower ha (List.forall_mem_cons.1 hle).2
  upper hb hle := h.upper hb (List.forall_mem_cons.1 hle).2

/-- A range that is not apart is taken in. -/
theorem Absorbed.take (h : Absorbed l (s.cover r) kept melted) (hbefore : ¬r.stop < s.start)
    (hbehind : ¬s.stop < r.start) : Absorbed (r :: l) s kept melted where
  sublist := h.sublist.cons r
  apart := h.apart
  encloses := ⟨h.encloses.1.trans (min_le_left ..), (le_max_left ..).trans h.encloses.2⟩
  covers p := by
    rw [h.covers p, covers_cons, ← or_assoc]
    refine or_congr_left ?_
    simp only [Span.cover]
    omega
  lower ha hle := by
    obtain ⟨har, hle⟩ := List.forall_mem_cons.1 hle
    exact h.lower (by simp only [Span.cover]; omega) hle
  upper hb hle := by
    obtain ⟨hbr, hle⟩ := List.forall_mem_cons.1 hle
    exact h.upper (by simp only [Span.cover]; omega) hle

theorem absorbed_absorb (hl : Canonical l) (hs : s.start < s.stop) :
    Absorbed l s (absorb l s).1 (absorb l s).2 := by
  induction l generalizing s with
  | nil => exact .of_lt nofun
  | cons r l ih =>
    have hr := hl.head
    by_cases hbehind : s.stop < r.start
    · -- The list is in order, so nothing of it is taken in.
      have hlt : ∀ x ∈ r :: l, s.stop < x.start := by
        refine List.forall_mem_cons.2 ⟨hbehind, fun x hx => ?_⟩
        have := hl.lt_of_mem hx
        omega
      rw [absorb_of_lt hlt]
      exact .of_lt hlt
    by_cases hbefore : r.stop < s.start
    · have habsorb : absorb (r :: l) s = (r :: (absorb l s).1, (absorb l s).2) := by
        simp [absorb, apart, hbefore]
      rw [habsorb]
      exact (ih hl.tail hs).keep hbefore fun _ hx => hl.lt_of_mem hx
    · have hcover : (s.cover r).start < (s.cover r).stop := by
        simp only [Span.cover]
        omega
      have habsorb : absorb (r :: l) s = absorb l (s.cover r) := by
        simp [absorb, apart, hbefore, hbehind]
      rw [habsorb]
      exact (ih hl.tail hcover).take hbefore hbehind

theorem mem_insertRange : r ∈ insertRange s l ↔ r = s ∨ r ∈ l := by
  induction l with
  | nil => simp [insertRange]
  | cons x l ih =>
    rw [insertRange]
    split
    · simp
    · simp [ih, or_left_comm]

theorem covers_insertRange :
    Covers (insertRange s l) p ↔ (s.start ≤ p ∧ p < s.stop) ∨ Covers l p := by
  simp [Covers, mem_insertRange]

/-- A range that stands apart from all others finds its place among them. -/
theorem canonical_insertRange (hl : Canonical l) (hs : s.start < s.stop)
    (h : ∀ r ∈ l, r.stop < s.start ∨ s.stop < r.start) : Canonical (insertRange s l) := by
  induction l with
  | nil => exact .cons hs .nil (by simp)
  | cons r l ih =>
    have hr := hl.head
    obtain ⟨hapart, h⟩ := List.forall_mem_cons.1 h
    rw [insertRange]
    split
    · refine .cons hs hl (List.forall_mem_cons.2 ⟨by omega, fun x hx => ?_⟩)
      have := hl.lt_of_mem hx
      omega
    · refine .cons hr (ih hl.tail h) fun x hx => ?_
      rcases mem_insertRange.1 hx with rfl | hx
      · omega
      · exact hl.lt_of_mem hx

end View

end ModuleBundler.Text

import Mathlib.Data.String.Basic
import ModuleBundler.Text.Cursor
import ModuleBundler.Text.View

/-!
# ModuleBundler — cursors on one text

A cursor counts the bytes it has passed. As long as it only ever moves forward
the count stays right, and two cursors on a text say which part of the text lies
between them.

* `Cursor.Before` — one cursor is reached from another by going forward.
* `Cursor.Before.eq_of_offset` — on one text the offset determines the cursor.
* `slice_eq` — the slice between the offsets of two cursors is what lies between
  the cursors.
* `Cursor.at` — the cursor at an offset.
-/

namespace ModuleBundler.Text

open String (utf8Len)

namespace Cursor

/-- Going forward from `c` one comes to `d`: what is ahead of `d` is the end of
what is ahead of `c`, and the bytes in between were counted. -/
structure Before (c d : Cursor) : Prop where
  suffix : d.rest <:+ c.rest
  bytes : c.offset + utf8Len c.rest = d.offset + utf8Len d.rest

namespace Before

variable {c d e : Cursor}

theorem refl (c : Cursor) : c.Before c := ⟨List.suffix_rfl, rfl⟩

theorem trans (h : c.Before d) (h' : d.Before e) : c.Before e :=
  ⟨h'.suffix.trans h.suffix, h.bytes.trans h'.bytes⟩

theorem of_cons (offset : Nat) (ch : Char) (cs : List Char) :
    Before ⟨offset, ch :: cs⟩ ⟨offset + ch.utf8Size, cs⟩ := by
  refine ⟨List.suffix_cons ch cs, ?_⟩
  show offset + utf8Len (ch :: cs) = offset + ch.utf8Size + utf8Len cs
  rw [String.utf8Len_cons]
  omega

/-- What was passed on the way. -/
theorem exists_passed (h : c.Before d) :
    ∃ m, c.rest = m ++ d.rest ∧ d.offset = c.offset + utf8Len m := by
  obtain ⟨m, hm⟩ := h.suffix
  refine ⟨m, hm.symm, ?_⟩
  have hbytes := h.bytes
  rw [← hm, String.utf8Len_append] at hbytes
  omega

theorem of_passed {m : List Char} (hm : c.rest = m ++ d.rest)
    (ho : d.offset = c.offset + utf8Len m) : c.Before d := by
  refine ⟨⟨m, hm.symm⟩, ?_⟩
  rw [hm, ho, String.utf8Len_append]
  omega

theorem offset_le (h : c.Before d) : c.offset ≤ d.offset := by
  obtain ⟨m, -, hm⟩ := h.exists_passed
  omega

/-- A cursor that has passed no bytes has not moved. -/
theorem eq_of_offset_le (h : c.Before d) (hle : d.offset ≤ c.offset) : c = d := by
  obtain ⟨m, hm, hoff⟩ := h.exists_passed
  have hzero : utf8Len m = 0 := by omega
  rw [String.utf8Len_eq_zero] at hzero
  subst hzero
  cases c
  cases d
  simp_all [utf8Len]

/-- Two cursors on one text at one offset are the same cursor. -/
theorem eq_of_offset (hd : c.Before d) (he : c.Before e) (h : d.offset = e.offset) : d = e := by
  have hlen : utf8Len d.rest = utf8Len e.rest := by
    have := hd.bytes
    have := he.bytes
    omega
  rcases List.suffix_or_suffix_of_suffix hd.suffix he.suffix with hs | hs
  · exact (eq_of_offset_le ⟨hs, by omega⟩ h.le).symm
  · exact eq_of_offset_le ⟨hs, by omega⟩ h.ge

/-- On one text the offsets tell which cursor comes first. -/
theorem of_offset_le (hd : c.Before d) (he : c.Before e) (hle : d.offset ≤ e.offset) :
    d.Before e := by
  have hbytes : d.offset + utf8Len d.rest = e.offset + utf8Len e.rest :=
    hd.bytes.symm.trans he.bytes
  rcases List.suffix_or_suffix_of_suffix hd.suffix he.suffix with hs | hs
  · have heq : e = d := eq_of_offset_le ⟨hs, hbytes.symm⟩ hle
    exact heq ▸ refl d
  · exact ⟨hs, hbytes⟩

theorem offset_add_rest {text : String} (h : (Cursor.start text).Before c) :
    c.offset + utf8Len c.rest = text.utf8ByteSize := by
  have hbytes : 0 + utf8Len text.toList = c.offset + utf8Len c.rest := h.bytes
  rw [String.utf8Len_toList] at hbytes
  omega

theorem offset_le_size {text : String} (h : (Cursor.start text).Before c) :
    c.offset ≤ text.utf8ByteSize := by
  have hsum := h.offset_add_rest
  omega

/-- Where nothing is ahead the text ends. -/
theorem offset_eq_size {text : String} (h : (Cursor.start text).Before c) (hrest : c.rest = []) :
    c.offset = text.utf8ByteSize := by
  have hsum := h.offset_add_rest
  rw [hrest, String.utf8Len_nil] at hsum
  omega

/-- Where bytes are passed there are characters ahead. -/
theorem rest_ne_nil (h : c.Before d) (hlt : c.offset < d.offset) : c.rest ≠ [] := by
  intro hnil
  obtain ⟨m, hm, hoff⟩ := h.exists_passed
  rw [hnil] at hm
  obtain ⟨rfl, -⟩ := List.append_eq_nil_iff.1 hm.symm
  rw [String.utf8Len_nil] at hoff
  omega

theorem advance (c : Cursor) : c.Before c.advance := by
  unfold Cursor.advance
  split
  · exact refl c
  · case _ ch cs hrest =>
    have := of_cons c.offset ch cs
    rwa [← hrest] at this

theorem drop (n : Nat) (c : Cursor) : c.Before (c.drop n) := by
  induction n generalizing c with
  | zero => exact refl c
  | succ n ih => exact (advance c).trans (ih c.advance)

theorem skipWhile_go (p : Char → Bool) (offset : Nat) (cs : List Char) :
    Before ⟨offset, cs⟩ (skipWhile.go p offset cs) := by
  induction cs generalizing offset with
  | nil => exact refl _
  | cons ch cs ih =>
    unfold skipWhile.go
    split
    · exact (of_cons offset ch cs).trans (ih _)
    · exact refl _

theorem skipWhile (p : Char → Bool) (c : Cursor) : c.Before (c.skipWhile p) :=
  skipWhile_go p c.offset c.rest

end Before

/-- Moving past a character takes it. -/
theorem offset_advance_lt {c : Cursor} {ch : Char} {cs : List Char} (h : c.rest = ch :: cs) :
    c.offset < c.advance.offset := by
  have := ch.utf8Size_pos
  simp only [Cursor.advance, h]
  omega

theorem offset_skipWhile_lt {p : Char → Bool} {c : Cursor} {ch : Char} {cs : List Char}
    (h : c.rest = ch :: cs) (hp : p ch = true) : c.offset < (c.skipWhile p).offset := by
  have hpos := ch.utf8Size_pos
  have hgo : c.offset + ch.utf8Size ≤ (skipWhile.go p (c.offset + ch.utf8Size) cs).offset :=
    (Before.skipWhile_go p _ cs).offset_le
  simp only [Cursor.skipWhile, h, Cursor.skipWhile.go, if_pos hp]
  omega

/-- The cursor at an offset, from a list of characters that begins at an
earlier one. -/
def seek (limit offset : Nat) : List Char → Cursor
  | [] => ⟨offset, []⟩
  | ch :: cs =>
    if offset < limit then seek limit (offset + ch.utf8Size) cs else ⟨offset, ch :: cs⟩

/-- The cursor at an offset of a text. -/
def «at» (text : String) (offset : Nat) : Cursor := seek offset 0 text.toList

theorem seek_eq {d : Cursor} (offset : Nat) (cs : List Char) (h : Before ⟨offset, cs⟩ d) :
    seek d.offset offset cs = d := by
  induction cs generalizing offset with
  | nil =>
    obtain ⟨m, hm, hoff⟩ := h.exists_passed
    obtain ⟨rfl, hrest⟩ := List.append_eq_nil_iff.1 hm.symm
    cases d
    simp_all [seek, utf8Len]
  | cons ch cs ih =>
    have hpos := ch.utf8Size_pos
    unfold seek
    split
    · case isTrue hlt =>
      obtain ⟨m, hm, hoff⟩ := h.exists_passed
      match m, hm with
      | [], _ => simp only [utf8Len] at hoff; omega
      | _ :: m, hm =>
        obtain ⟨rfl, hcs⟩ := List.cons.inj hm
        rw [String.utf8Len_cons] at hoff
        exact ih _ (.of_passed hcs (by simp only [hoff]; omega))
    · case isFalse hlt => exact h.eq_of_offset_le (by simpa using hlt)

/-- A cursor on a text is the one at its offset. -/
theorem at_offset {text : String} {d : Cursor} (h : (Cursor.start text).Before d) :
    Cursor.at text d.offset = d :=
  seek_eq 0 text.toList h

end Cursor

-- ---------------------------------------------------------------------------
-- Slices between cursors
-- ---------------------------------------------------------------------------

theorem isValid_of_before {text : String} {c : Cursor} (h : (Cursor.start text).Before c) :
    String.Pos.Raw.isValid text ⟨c.offset⟩ = true := by
  obtain ⟨m, hm, hoff⟩ := h.exists_passed
  have htext : text = String.ofList m ++ String.ofList c.rest := by
    rw [← String.ofList_append, ← hm]
    simp [Cursor.start]
  rw [String.Pos.Raw.isValid_eq_true_iff, String.Pos.Raw.isValid_iff_exists_append]
  refine ⟨String.ofList m, String.ofList c.rest, htext, ?_⟩
  simp [hoff, Cursor.start]

/-- The text from one cursor to another is what is passed on the way. -/
theorem textTo_eq {c d : Cursor} {m : List Char} (hm : c.rest = m ++ d.rest)
    (ho : d.offset = c.offset + utf8Len m) : c.textTo d = String.ofList m := by
  have hgo : ∀ (m : List Char) (offset : Nat) (acc : String),
      Cursor.textUpTo.go (offset + utf8Len m) offset (m ++ d.rest) acc =
        acc ++ String.ofList m := by
    intro m
    induction m with
    | nil =>
      intro offset acc
      cases d.rest <;> simp [Cursor.textUpTo.go]
    | cons ch cs ih =>
      intro offset acc
      have hpos := ch.utf8Size_pos
      rw [String.utf8Len_cons, List.cons_append, Cursor.textUpTo.go, if_pos (by omega),
        show offset + (utf8Len cs + ch.utf8Size) = offset + ch.utf8Size + utf8Len cs by omega, ih]
      apply String.ext
      simp
  rw [Cursor.textTo, Cursor.textUpTo, ho, hm, hgo, String.empty_append]

/-- The slice between two cursors on a text is what the first one passes on its
way to the second. -/
theorem slice_eq {text : String} {c d : Cursor} {m : List Char}
    (hc : (Cursor.start text).Before c) (hm : c.rest = m ++ d.rest)
    (ho : d.offset = c.offset + utf8Len m) : slice text c.offset d.offset = String.ofList m := by
  have hd : c.Before d := .of_passed hm ho
  obtain ⟨l, hl, hoff⟩ := hc.exists_passed
  have htext : text = String.ofList (l ++ m ++ d.rest) := by
    rw [List.append_assoc, ← hm, ← hl]
    simp [Cursor.start]
  have hstart : c.offset = utf8Len l := by simpa [Cursor.start] using hoff
  have hle : c.offset ≤ d.offset := hd.offset_le
  have hguard : (decide (c.offset ≤ d.offset) && String.Pos.Raw.isValid text ⟨c.offset⟩ &&
      String.Pos.Raw.isValid text ⟨d.offset⟩) = true := by
    simp [hle, isValid_of_before hc, isValid_of_before (hc.trans hd)]
  unfold slice
  rw [if_pos hguard, htext, hstart, ho, hstart]
  exact String.extract_of_valid l m d.rest

end ModuleBundler.Text

import ModuleBundler.Module.Error
import ModuleBundler.Proofs.Faults
import ModuleBundler.Proofs.Views

/-!
# ModuleBundler — lines and columns are exact

A place is found by halving a table of the offsets where lines begin. It is the place that
counting gives: the line is the number of line feeds before it, and the column the number of
bytes since the last one, both from one on. Offsets are of bytes, so they may be inside of a
character; a line feed is one byte, which no other character has among its bytes.

* `bytesBefore` — the bytes before an offset.
* `WholeLines` — what a line begins behind.
* `startsIn`, `collect_eq` — the table as a list of what follows the line feeds.
* `rankIn_eq` — halving finds where the offsets in a table go beyond another one.
* `location_of_split` — the place in a line.
* `Location.Precedes` — the order of places.
* `location_exact` — places in terms of counts, and the places of faults.
-/

namespace ModuleBundler.Text

open String (utf8Len utf8EncodeChar)

-- ---------------------------------------------------------------------------
-- Bytes
-- ---------------------------------------------------------------------------

/-- The bytes of a text that lie before an offset. -/
def bytesBefore (text : String) (offset : Nat) : List UInt8 := (bytes text).take offset

/-- The bytes of characters. -/
def bytesOf (cs : List Char) : List UInt8 := cs.flatMap utf8EncodeChar

theorem bytesOf_cons (c : Char) (cs : List Char) :
    bytesOf (c :: cs) = utf8EncodeChar c ++ bytesOf cs :=
  List.flatMap_cons

theorem bytesOf_append (cs ds : List Char) : bytesOf (cs ++ ds) = bytesOf cs ++ bytesOf ds :=
  List.flatMap_append

theorem bytesOf_toList (text : String) : bytesOf text.toList = bytes text := by
  rw [bytes, ← String.utf8Encode_toList, List.utf8Encode, List.data_toByteArray,
    List.toList_toArray]
  rfl

theorem length_bytesOf (cs : List Char) : (bytesOf cs).length = utf8Len cs := by
  induction cs with
  | nil => rfl
  | cons c cs ih =>
    rw [bytesOf_cons, List.length_append, String.length_utf8EncodeChar, ih, String.utf8Len,
      Nat.add_comm]

/-- No character but the line feed has its byte. -/
theorem mem_utf8EncodeChar (c : Char) : 10 ∈ utf8EncodeChar c ↔ c = '\n' := by
  have hten : ∀ n, (10 : UInt8) = UInt8.ofNat n ↔ n % 256 = 10 := by
    intro n
    rw [← UInt8.toNat_inj]
    simp [eq_comm]
  have hval : c = '\n' ↔ c.val.toNat = 10 := by
    rw [Char.ext_iff, ← UInt32.toNat_inj]
    rfl
  unfold utf8EncodeChar
  dsimp only
  generalize c.val.toNat = v at *
  rw [hval]
  -- the bytes of a longer sequence are 128 and above
  split
  · rw [List.mem_singleton, hten]
    omega
  split
  · simp only [List.mem_cons, List.not_mem_nil, or_false, hten]
    omega
  split
  · simp only [List.mem_cons, List.not_mem_nil, or_false, hten]
    omega
  · simp only [List.mem_cons, List.not_mem_nil, or_false, hten]
    omega

-- ---------------------------------------------------------------------------
-- Lines
-- ---------------------------------------------------------------------------

/-- Nothing, or what ends with a line feed. Behind it a line begins. -/
def WholeLines {α : Type} (lf : α) (as : List α) : Prop := as = [] ∨ ∃ bs, as = bs ++ [lf]

/-- A text is some whole lines and what there is of the last one. -/
theorem exists_wholeLines {α : Type} [DecidableEq α] (lf : α) (as : List α) :
    ∃ above, as = above ++ (as.reverse.takeWhile (· ≠ lf)).reverse ∧ WholeLines lf above ∧
      lf ∉ (as.reverse.takeWhile (· ≠ lf)).reverse := by
  refine ⟨(as.reverse.dropWhile (· ≠ lf)).reverse, ?_, ?_, ?_⟩
  · rw [← List.reverse_append, List.takeWhile_append_dropWhile, List.reverse_reverse]
  · cases h : as.reverse.dropWhile (· ≠ lf) with
    | nil => exact .inl rfl
    | cons b bs =>
      have hb := List.head?_dropWhile_not (· ≠ lf) as.reverse
      rw [h] at hb
      obtain rfl : b = lf := by simpa using hb
      exact .inr ⟨bs.reverse, List.reverse_cons⟩
  · intro hmem
    rw [List.mem_reverse] at hmem
    simpa using List.all_eq_true.1 List.all_takeWhile _ hmem

-- ---------------------------------------------------------------------------
-- The table
-- ---------------------------------------------------------------------------

/-- The offsets that follow the line feeds among bytes, which begin at an offset. -/
def startsIn (offset : Nat) : List UInt8 → List Nat
  | [] => []
  | b :: bs => if b = 10 then (offset + 1) :: startsIn (offset + 1) bs else startsIn (offset + 1) bs

section

variable {bs cs above line rest : List UInt8} {offset : Nat}

theorem startsIn_append (offset : Nat) (bs cs : List UInt8) :
    startsIn offset (bs ++ cs) = startsIn offset bs ++ startsIn (offset + bs.length) cs := by
  induction bs generalizing offset with
  | nil => rfl
  | cons b bs ih =>
    have hlen : offset + (b :: bs).length = offset + 1 + bs.length := by
      rw [List.length_cons]
      omega
    rw [List.cons_append, startsIn, startsIn, hlen, ih]
    split <;> rfl

theorem startsIn_of_not_mem (h : 10 ∉ bs) (offset : Nat) : startsIn offset bs = [] := by
  induction bs generalizing offset with
  | nil => rfl
  | cons b bs ih =>
    rw [List.mem_cons, not_or] at h
    rw [startsIn, if_neg (Ne.symm h.1), ih h.2]

theorem length_startsIn (offset : Nat) (bs : List UInt8) :
    (startsIn offset bs).length = bs.count 10 := by
  induction bs generalizing offset with
  | nil => rfl
  | cons b bs ih =>
    rw [startsIn, List.count_cons]
    split
    · case isTrue hb => simp [hb, ih]
    · case isFalse hb => simp [hb, ih]

theorem of_mem_startsIn {n : Nat} (h : n ∈ startsIn offset bs) :
    offset < n ∧ n ≤ offset + bs.length := by
  induction bs generalizing offset with
  | nil => exact nomatch h
  | cons b bs ih =>
    rw [List.length_cons]
    rw [startsIn] at h
    split at h
    · rcases List.mem_cons.1 h with rfl | h
      · omega
      · have hn := ih h
        omega
    · have hn := ih h
      omega

/-- The table of a text lists what follows its line feeds. -/
theorem LineTable.collect_eq (offset : Nat) (starts : Array Nat) (cs : List Char) :
    (collect offset starts cs).toList = starts.toList ++ startsIn offset (bytesOf cs) := by
  induction cs generalizing offset starts with
  | nil => exact (List.append_nil _).symm
  | cons c cs ih =>
    rw [collect, ih, bytesOf_cons, startsIn_append, String.length_utf8EncodeChar,
      ← List.append_assoc]
    congr 1
    split
    · case isTrue hc =>
      subst hc
      rw [Array.toList_push]
      rfl
    · case isFalse hc =>
      rw [startsIn_of_not_mem (mt (mem_utf8EncodeChar c).1 hc), List.append_nil]

theorem LineTable.starts_ofText (text : String) :
    (ofText text).starts.toList = 0 :: startsIn 0 (bytes text) := by
  rw [ofText, collect_eq, bytesOf_toList]
  rfl

/-- The number of lines is that of the line feeds, and one. -/
theorem LineTable.lineCount_ofText (text : String) :
    (ofText text).lineCount = (bytes text).count 10 + 1 := by
  rw [lineCount, ← Array.length_toList, starts_ofText, List.length_cons, length_startsIn]

-- ---------------------------------------------------------------------------
-- Halving
-- ---------------------------------------------------------------------------

/-- Halving a range finds the place where the entries of a table go beyond an offset, if it
is in the range. -/
theorem LineTable.rankIn_eq {starts : Array Nat} {offset k : Nat}
    (hlow : ∀ i < k, starts.getD i 0 ≤ offset)
    (hhigh : ∀ i, k ≤ i → i < starts.size → offset < starts.getD i 0) {lo hi : Nat}
    (hlo : lo ≤ k) (hhi : k ≤ hi) (hsize : hi ≤ starts.size) :
    rankIn starts offset lo hi = k := by
  fun_induction rankIn starts offset lo hi with
  | case1 lo hi hlt mid hle ih =>
    -- the middle is not beyond the offset, so the place is behind it
    refine ih ?_ hhi hsize
    by_contra hk
    have hbeyond := hhigh mid (by omega) (by omega)
    omega
  | case2 lo hi hlt mid hle ih =>
    refine ih hlo ?_ (by omega)
    by_contra hk
    exact hle (hlow mid (by omega))
  | case3 lo hi hlt => omega

theorem LineTable.rankIn_le (starts : Array Nat) (offset lo hi : Nat) (h : lo ≤ hi) :
    rankIn starts offset lo hi ≤ hi := by
  fun_induction rankIn starts offset lo hi with
  | case1 lo hi hlt mid hle ih => exact ih (by omega)
  | case2 lo hi hlt mid hle ih =>
    have hmid := ih (by omega)
    omega
  | case3 lo hi hlt => exact h

-- ---------------------------------------------------------------------------
-- Places
-- ---------------------------------------------------------------------------

/-- The last of the line starts among bytes behind which a line begins. -/
theorem WholeLines.starts_eq (h : WholeLines 10 bs) :
    ∃ ns, ns.length = bs.count 10 ∧ 0 :: startsIn 0 bs = ns ++ [bs.length] := by
  rcases h with rfl | ⟨cs, rfl⟩
  · exact ⟨[], rfl, rfl⟩
  · refine ⟨0 :: startsIn 0 cs, ?_, ?_⟩
    · simp [length_startsIn]
    · rw [startsIn_append, List.length_append]
      simp [startsIn]

/-- The place of an offset on a line: below the lines above, and behind the bytes in front. -/
theorem LineTable.location_of_split {text : String}
    (htext : bytes text = above ++ (line ++ rest)) (habove : WholeLines 10 above)
    (hline : 10 ∉ line) :
    (ofText text).location (above.length + line.length) =
      ⟨above.count 10 + 1, line.length + 1⟩ := by
  obtain ⟨ns, hlen, hns⟩ := habove.starts_eq
  have hstarts : (ofText text).starts.toList =
      (0 :: startsIn 0 above) ++ startsIn (above.length + line.length) rest := by
    rw [starts_ofText, htext, startsIn_append, startsIn_append, startsIn_of_not_mem hline,
      List.nil_append, Nat.zero_add, List.cons_append]
  have hget : ∀ i, (ofText text).starts.getD i 0 = ((ofText text).starts.toList[i]?).getD 0 := by
    intro i
    rw [Array.getD_eq_getD_getElem?, Array.getElem?_toList]
  have hfront : (0 :: startsIn 0 above).length = above.count 10 + 1 := by
    rw [List.length_cons, length_startsIn]
  have hsize : (ofText text).starts.size = (ofText text).starts.toList.length := rfl
  have hrank : rankIn (ofText text).starts (above.length + line.length) 0
      (ofText text).starts.size = above.count 10 + 1 := by
    refine rankIn_eq (fun i hi => ?_) (fun i hi hlt => ?_) (Nat.zero_le _) ?_ (Nat.le_refl _)
    · -- the lines above and the line itself begin at or before the offset
      have hi : i < (0 :: startsIn 0 above).length := by omega
      rw [hget, hstarts, List.getElem?_append_left hi, List.getElem?_eq_getElem hi,
        Option.getD_some]
      rcases List.mem_cons.1 (List.getElem_mem hi) with hzero | hmem
      · omega
      · have hle := of_mem_startsIn hmem
        omega
    · -- the lines below begin behind it
      rw [hsize, hstarts, List.length_append] at hlt
      have hback : i - (0 :: startsIn 0 above).length <
          (startsIn (above.length + line.length) rest).length := by
        omega
      rw [hget, hstarts, List.getElem?_append_right (by omega), List.getElem?_eq_getElem hback,
        Option.getD_some]
      exact (of_mem_startsIn (List.getElem_mem hback)).1
    · rw [hsize, hstarts, List.length_append, hfront]
      omega
  have hbegin : (ofText text).starts.getD (above.count 10) 0 = above.length := by
    rw [hget, hstarts, hns, ← hlen]
    simp
  rw [location, hrank, Nat.add_sub_cancel, hbegin, Nat.add_sub_cancel_left]

end

section

variable {text : String} {offset later : Nat}

/-- How many line feeds lie before an offset. -/
def linesAbove (text : String) (offset : Nat) : Nat := (bytesBefore text offset).count 10

/-- How many bytes lie between the last line feed before an offset, or the beginning of the
text, and the offset. -/
def bytesInFront (text : String) (offset : Nat) : Nat :=
  ((bytesBefore text offset).reverse.takeWhile (· ≠ 10)).length

/-- The place of an offset is what counting gives. -/
theorem LineTable.location_eq (h : offset ≤ text.utf8ByteSize) :
    (ofText text).location offset = ⟨1 + linesAbove text offset, 1 + bytesInFront text offset⟩ := by
  obtain ⟨above, hsplit, habove, hnot⟩ := exists_wholeLines 10 (bytesBefore text offset)
  generalize hline : ((bytesBefore text offset).reverse.takeWhile (· ≠ 10)).reverse = line
    at hsplit hnot
  have hlen : above.length + line.length = offset := by
    rw [← List.length_append, ← hsplit, bytesBefore, List.length_take, length_bytes]
    omega
  have htext : bytes text = above ++ (line ++ (bytes text).drop offset) := by
    rw [← List.append_assoc, ← hsplit]
    exact (List.take_append_drop offset _).symm
  have hplace := location_of_split htext habove hnot
  have hcount : linesAbove text offset = above.count 10 := by
    rw [linesAbove, hsplit, List.count_append, List.count_eq_zero.2 hnot, Nat.add_zero]
  have hfront : bytesInFront text offset = line.length := by
    rw [← hline, List.length_reverse]
    rfl
  rw [← hlen, hplace, hlen, hcount, hfront, Nat.add_comm 1, Nat.add_comm 1]

/-- One place comes before another one: above it, or in front of it on the same line. -/
def Location.Precedes (a b : Location) : Prop :=
  a.line < b.line ∨ a.line = b.line ∧ a.column < b.column

theorem Location.Precedes.ne {a b : Location} (h : a.Precedes b) : a ≠ b := by
  rintro rfl
  rcases h with h | h
  · exact Nat.lt_irrefl _ h
  · exact Nat.lt_irrefl _ h.2

/-- Later offsets have later places. -/
theorem LineTable.location_precedes (h : offset < later) (hlater : later ≤ text.utf8ByteSize) :
    ((ofText text).location offset).Precedes ((ofText text).location later) := by
  rw [location_eq hlater, location_eq (by omega)]
  obtain ⟨n, rfl⟩ := Nat.exists_eq_add_of_lt h
  generalize hmid : ((bytes text).drop offset).take (n + 1) = mid
  have hbefore : bytesBefore text (offset + n + 1) = bytesBefore text offset ++ mid := by
    rw [bytesBefore, Nat.add_assoc, List.take_add, hmid]
    rfl
  have hlen : mid.length = n + 1 := by
    rw [← hmid, List.length_take, List.length_drop, length_bytes]
    omega
  have hcount : linesAbove text (offset + n + 1) = linesAbove text offset + mid.count 10 := by
    rw [linesAbove, hbefore, List.count_append]
    rfl
  by_cases hline : 10 ∈ mid
  · left
    have hpos := List.count_pos_iff.2 hline
    show 1 + linesAbove text offset < 1 + linesAbove text (offset + n + 1)
    omega
  · right
    have hzero := List.count_eq_zero.2 hline
    have hall : ∀ b ∈ mid.reverse, decide (b ≠ 10) = true := by
      intro b hb
      refine decide_eq_true ?_
      rintro rfl
      exact hline (List.mem_reverse.1 hb)
    have hfront : bytesInFront text (offset + n + 1) = mid.length + bytesInFront text offset := by
      rw [bytesInFront, hbefore, List.reverse_append, List.takeWhile_append_of_pos hall,
        List.length_append, List.length_reverse]
      rfl
    constructor
    · show 1 + linesAbove text offset = 1 + linesAbove text (offset + n + 1)
      omega
    · show 1 + bytesInFront text offset < 1 + bytesInFront text (offset + n + 1)
      omega

/-- Different offsets have different places. -/
theorem LineTable.location_inj (h : offset ≤ text.utf8ByteSize)
    (hlater : later ≤ text.utf8ByteSize) :
    (ofText text).location offset = (ofText text).location later ↔ offset = later := by
  constructor
  · intro heq
    rcases Nat.lt_trichotomy offset later with hlt | hlt | hlt
    · exact absurd heq (location_precedes hlt hlater).ne
    · exact hlt
    · exact absurd heq.symm (location_precedes hlt h).ne
  · rintro rfl
    rfl

/-- No place is below the last line. -/
theorem LineTable.location_line_le (text : String) (offset : Nat) :
    ((ofText text).location offset).line ≤ (ofText text).lineCount := by
  have hrank := rankIn_le (ofText text).starts offset 0 (ofText text).starts.size (Nat.zero_le _)
  have hpos := lineCount_ofText text
  show rankIn (ofText text).starts offset 0 (ofText text).starts.size - 1 + 1 ≤ _
  unfold lineCount at *
  omega

open Grammar in
/-- The place of an offset of a text is given by the line feeds before it and the bytes since
the last one. So later offsets have later places, none of them below the last line; and the
place of a fault is that of the token where the parser stopped, and of no other offset. -/
theorem location_exact (text : String) :
    (∀ offset ≤ text.utf8ByteSize, (LineTable.ofText text).location offset =
      ⟨1 + linesAbove text offset, 1 + bytesInFront text offset⟩) ∧
    (∀ offset later, offset < later → later ≤ text.utf8ByteSize →
      ((LineTable.ofText text).location offset).Precedes
        ((LineTable.ofText text).location later)) ∧
    (∀ offset, ((LineTable.ofText text).location offset).line ≤
      (LineTable.ofText text).lineCount) ∧
    ∀ file d, Node.parse text = .error d → ∃ s c location,
      program (read (text.utf8ByteSize + 1)) (.initial text) = .error d s ∧ s.Holds text c ∧
      BuildError.ofDiagnostic file text d = .parse file location d.message ∧
      ∀ offset ≤ text.utf8ByteSize, (LineTable.ofText text).location offset = location ↔
        offset = s.token.start.offset := by
  refine ⟨fun offset h => LineTable.location_eq h,
    fun offset later h hlater => LineTable.location_precedes h hlater,
    LineTable.location_line_le text, fun file d h => ?_⟩
  obtain ⟨s, c, hrun, hholds, hspan⟩ := parse_eq_error_token h
  refine ⟨s, c, (LineTable.ofText text).location s.token.start.offset, hrun, hholds, ?_, ?_⟩
  · rw [BuildError.ofDiagnostic, hspan]
    rfl
  · intro offset hle
    exact LineTable.location_inj hle (hholds.before.trans hholds.start).offset_le_size

end

end ModuleBundler.Text

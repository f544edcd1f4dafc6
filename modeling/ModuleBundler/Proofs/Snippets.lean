import ModuleBundler.Proofs.Locations
import ModuleBundler.Report

/-!
# ModuleBundler — where the mark of a report stands

A report shows the line of an error with a mark below it. The mark should stand below the
character where the token begins that the error is about. But the column of the error counts
bytes, and the mark is moved by as many characters, so behind characters of more than one byte
it stands too far to the right, if the line goes on there. And a text that ends with a line
feed has a last line for the line table, an empty one, but none for the report, which shows
nothing for errors there.

* `OnLine` — where an offset lies among the lines of a text.
* `line?_eq` — the line that is shown.
* `PointsAt` — a report that shows a line with a mark below a character.
* `report_pointsAt_iff` — when reports do so.
-/

namespace ModuleBundler

namespace Text

open String (utf8Len utf8EncodeChar)

-- ---------------------------------------------------------------------------
-- Lines
-- ---------------------------------------------------------------------------

/-- What follows a line: nothing, or a line feed and what is below. The carriage return in
front of a line feed is not part of the line either. -/
inductive LineEnds (line : List Char) : List Char → Prop
  | text : LineEnds line []
  | lf (below : List Char) (bare : ¬['\r'] <:+ line) : LineEnds line ('\n' :: below)
  | crlf (below : List Char) : LineEnds line ('\r' :: '\n' :: below)

/-- An offset of a text is on a line: below the lines above and behind what is in front. -/
structure OnLine (text : String) (offset : Nat) (above front line : List Char) : Prop where
  whole : WholeLines '\n' above
  offset_eq : offset = utf8Len above + utf8Len front
  front_prefix : front <+: line
  oneLine : '\n' ∉ line
  ends : ∃ rest, LineEnds line rest ∧ text.toList = above ++ (line ++ rest)

section

variable {text : String} {offset : Nat} {above front line rest : List Char}

/-- Lines that are passed are as many as their line feeds. -/
theorem linesFrom_lf (passed above rest : List Char) :
    ∃ ls, ls.length = above.count '\n' + 1 ∧
      linesFrom passed (above ++ '\n' :: rest) = ls ++ linesFrom [] rest := by
  induction above generalizing passed with
  | nil => exact ⟨[endedLine passed], rfl, rfl⟩
  | cons c cs ih =>
    rw [List.cons_append, linesFrom]
    by_cases hc : c = '\n'
    · obtain ⟨ls, hlen, heq⟩ := ih []
      refine ⟨endedLine passed :: ls, ?_, ?_⟩
      · rw [hc, List.count_cons_self, List.length_cons, hlen]
      · rw [if_pos hc, heq, List.cons_append]
    · obtain ⟨ls, hlen, heq⟩ := ih (c :: passed)
      refine ⟨ls, ?_, ?_⟩
      · rw [List.count_cons_of_ne hc, hlen]
      · rw [if_neg hc, heq]

theorem WholeLines.linesFrom_append (h : WholeLines '\n' above) (rest : List Char) :
    ∃ ls, ls.length = above.count '\n' ∧
      linesFrom [] (above ++ rest) = ls ++ linesFrom [] rest := by
  rcases h with rfl | ⟨cs, rfl⟩
  · exact ⟨[], rfl, rfl⟩
  · obtain ⟨ls, hlen, heq⟩ := linesFrom_lf [] cs rest
    refine ⟨ls, ?_, ?_⟩
    · rw [hlen, List.count_append, List.count_singleton_self]
    · rw [List.append_assoc, List.singleton_append, heq]

theorem linesFrom_append (h : '\n' ∉ line) (passed rest : List Char) :
    linesFrom passed (line ++ rest) = linesFrom (line.reverse ++ passed) rest := by
  induction line generalizing passed with
  | nil => rfl
  | cons c cs ih =>
    rw [List.mem_cons, not_or] at h
    rw [List.cons_append, linesFrom, if_neg (Ne.symm h.1), ih h.2, List.reverse_cons,
      List.append_assoc, List.singleton_append]

theorem endedLine_of_bare (h : ¬['\r'] <:+ line) : endedLine line.reverse = line := by
  unfold endedLine
  split
  · case _ cs hcs =>
    refine absurd ⟨cs.reverse, ?_⟩ h
    rw [← List.reverse_cons, ← hcs, List.reverse_reverse]
  · exact List.reverse_reverse line

/-- A line comes first among the lines from its beginning on, unless it is empty and the last
one. -/
theorem LineEnds.linesFrom_head (h : LineEnds line rest) (hline : '\n' ∉ line) :
    (linesFrom [] (line ++ rest)).head? = if line = [] ∧ rest = [] then none else some line := by
  rw [linesFrom_append hline, List.append_nil]
  cases h with
  | text =>
    cases line with
    | nil => rfl
    | cons c cs => simp [linesFrom]
  | lf below bare =>
    rw [linesFrom, if_pos rfl, endedLine_of_bare bare]
    simp
  | crlf below =>
    rw [linesFrom, if_neg (by decide), linesFrom, if_pos rfl]
    simp [endedLine]

/-- The line that is shown for an offset, if there is one. -/
theorem OnLine.line?_eq (h : OnLine text offset above front line) :
    line? text (above.count '\n' + 1) =
      if line = [] ∧ above = text.toList then none else some (String.ofList line) := by
  obtain ⟨rest, hends, htext⟩ := h.ends
  obtain ⟨ls, hlen, heq⟩ := h.whole.linesFrom_append (line ++ rest)
  have hhead := hends.linesFrom_head h.oneLine
  have hlast : above = text.toList ↔ line = [] ∧ rest = [] := by
    rw [htext]
    simp
  have hget : (linesFrom [] text.toList)[above.count '\n']? =
      if line = [] ∧ rest = [] then none else some line := by
    rw [htext, heq, ← hlen, List.getElem?_append_right (Nat.le_refl _), Nat.sub_self,
      ← List.head?_eq_getElem?, hhead]
  rw [line?, if_neg (Nat.succ_ne_zero _), Nat.add_sub_cancel, lines, List.getElem?_map, hget]
  by_cases hempty : line = [] ∧ rest = []
  · rw [if_pos hempty, if_pos ⟨hempty.1, hlast.2 hempty⟩]
    rfl
  · rw [if_neg hempty, if_neg fun h => hempty (hlast.1 h.2)]
    rfl

-- ---------------------------------------------------------------------------
-- Places of characters
-- ---------------------------------------------------------------------------

theorem count_bytesOf (cs : List Char) : (bytesOf cs).count 10 = cs.count '\n' := by
  induction cs with
  | nil => rfl
  | cons c cs ih =>
    rw [bytesOf_cons, List.count_append, ih]
    by_cases hc : c = '\n'
    · subst hc
      rw [List.count_cons_self, Nat.add_comm]
      rfl
    · rw [List.count_cons_of_ne hc, List.count_eq_zero.2 (mt (mem_utf8EncodeChar c).1 hc),
        Nat.zero_add]

theorem WholeLines.bytesOf (h : WholeLines '\n' above) : WholeLines 10 (bytesOf above) := by
  rcases h with rfl | ⟨cs, rfl⟩
  · exact .inl rfl
  · refine .inr ⟨Text.bytesOf cs, ?_⟩
    rw [bytesOf_append]
    rfl

/-- The place of an offset: its line from one on, and the bytes in front of it and one. -/
theorem OnLine.location_eq (h : OnLine text offset above front line) :
    (LineTable.ofText text).location offset = ⟨above.count '\n' + 1, utf8Len front + 1⟩ := by
  obtain ⟨rest, -, htext⟩ := h.ends
  obtain ⟨behind, rfl⟩ := h.front_prefix
  have hsplit : bytes text =
      bytesOf above ++ (bytesOf front ++ bytesOf (behind ++ rest)) := by
    rw [← bytesOf_toList, htext, bytesOf_append, List.append_assoc, bytesOf_append]
  have hfront : 10 ∉ bytesOf front := by
    have hline : '\n' ∉ front := fun hmem => h.oneLine (List.mem_append_left _ hmem)
    rw [← List.count_eq_zero, count_bytesOf]
    exact List.count_eq_zero.2 hline
  have hplace := LineTable.location_of_split hsplit h.whole.bytesOf hfront
  rwa [length_bytesOf, length_bytesOf, count_bytesOf, ← h.offset_eq] at hplace

/-- What is in front of a character goes on to the end of a line, if the character is not a line
feed. A line feed might be the second half of such an end. -/
theorem exists_lineEnds {rest : List Char} (hfront : '\n' ∉ front)
    (hhead : rest.head? ≠ some '\n') :
    ∃ line behind, front <+: line ∧ '\n' ∉ line ∧ LineEnds line behind ∧
      front ++ rest = line ++ behind := by
  have hsplit : rest.takeWhile (· ≠ '\n') ++ rest.dropWhile (· ≠ '\n') = rest :=
    List.takeWhile_append_dropWhile
  have hbody : '\n' ∉ rest.takeWhile (· ≠ '\n') := by
    intro hmem
    simpa using List.all_eq_true.1 List.all_takeWhile _ hmem
  generalize rest.takeWhile (· ≠ '\n') = body at hsplit hbody
  have hwhole : '\n' ∉ front ++ body := by
    rw [List.mem_append, not_or]
    exact ⟨hfront, hbody⟩
  cases htail : rest.dropWhile (· ≠ '\n') with
  | nil =>
    rw [htail, List.append_nil] at hsplit
    refine ⟨front ++ body, [], List.prefix_append _ _, hwhole, .text, ?_⟩
    rw [hsplit, List.append_nil]
  | cons c below =>
    have hc := List.head?_dropWhile_not (· ≠ '\n') rest
    rw [htail] at hc
    obtain rfl : c = '\n' := by simpa using hc
    rw [htail] at hsplit
    rcases List.eq_nil_or_concat' body with rfl | ⟨body, last, rfl⟩
    · exact absurd (congrArg List.head? hsplit.symm) hhead
    · by_cases hlast : last = '\r'
      · subst hlast
        refine ⟨front ++ body, _, List.prefix_append _ _, fun hmem => hwhole ?_, .crlf below, ?_⟩
        · rw [← List.append_assoc]
          exact List.mem_append_left _ hmem
        · rw [← hsplit]
          simp
      · refine ⟨_, _, List.prefix_append _ _, hwhole, .lf below fun hbare => hlast ?_, ?_⟩
        · obtain ⟨more, hmore⟩ := hbare
          rw [← List.append_assoc] at hmore
          exact (List.cons.inj (List.append_inj_right' hmore rfl)).1.symm
        · rw [← hsplit, List.append_assoc, List.append_assoc, List.append_assoc]

/-- An offset between characters is on a line, unless it is in front of a line feed. -/
theorem exists_onLine {c : Cursor} (h : (Cursor.start text).Before c)
    (hhead : c.rest.head? ≠ some '\n') :
    ∃ above front line, OnLine text c.offset above front line := by
  obtain ⟨passed, hpassed, hoffset⟩ := h.exists_passed
  change text.toList = passed ++ c.rest at hpassed
  change c.offset = 0 + utf8Len passed at hoffset
  obtain ⟨above, hsplit, habove, hfront⟩ := exists_wholeLines '\n' passed
  generalize (passed.reverse.takeWhile (· ≠ '\n')).reverse = front at hsplit hfront
  obtain ⟨line, behind, hprefix, hline, hends, heq⟩ := exists_lineEnds hfront hhead
  refine ⟨above, front, line, habove, ?_, hprefix, hline, behind, hends, ?_⟩
  · rw [hoffset, hsplit, String.utf8Len_append, Nat.zero_add]
  · rw [hpassed, hsplit, List.append_assoc, heq]

end

end Text

namespace Report

open Text
open String (utf8Len)

-- ---------------------------------------------------------------------------
-- Marks
-- ---------------------------------------------------------------------------

/-- Blanks as wide as the characters in front of a mark: tabs are kept. -/
def cover (front : List Char) : List Char := front.map fun c => if c = '\t' then '\t' else ' '

/-- A line as it is shown, with a mark below the character behind some others. -/
def shown (number : Nat) (line front : List Char) : String :=
  "\n\n  " ++ padded number ++ "   " ++ String.ofList line ++ "\n        " ++
    String.ofList (cover front ++ ['~'])

/-- A report that shows a line of a number, with a mark below the character behind `front`. -/
def PointsAt (report : String) (number : Nat) (line front : List Char) : Prop :=
  ∃ heading, report = heading ++ shown number line front

section

variable {front line : List Char}

theorem newline_not_mem_cover (front : List Char) : '\n' ∉ cover front := by
  intro hmem
  obtain ⟨c, -, hc⟩ := List.mem_map.1 hmem
  split at hc <;> exact absurd hc (by decide)

/-- What is shown ends with the line of the mark. -/
theorem shown_toList (number : Nat) (line front : List Char) :
    ∃ top, (shown number line front).toList =
      top ++ '\n' :: (List.replicate 8 ' ' ++ (cover front ++ ['~'])) := by
  refine ⟨("\n\n  " ++ padded number ++ "   " ++ String.ofList line).toList, ?_⟩
  have hindent : "\n        ".toList = '\n' :: List.replicate 8 ' ' := rfl
  rw [shown, String.toList_append, String.toList_append, hindent, String.toList_ofList,
    List.append_assoc, List.cons_append]

theorem getLast_shown (number : Nat) (line front : List Char) :
    (shown number line front).toList.getLast? = some '~' := by
  obtain ⟨top, htop⟩ := shown_toList number line front
  rw [htop]
  simp only [← List.append_assoc, ← List.cons_append, List.getLast?_concat]

/-- What stands behind the last line feed is given by the text. -/
theorem lastLine_unique {as bs xs ys : List Char} (h : as ++ '\n' :: xs = bs ++ '\n' :: ys)
    (hxs : '\n' ∉ xs) (hys : '\n' ∉ ys) : xs = ys := by
  have hlast : ∀ cs zs : List Char, '\n' ∉ zs →
      (cs ++ '\n' :: zs).reverse.takeWhile (· ≠ '\n') = zs.reverse := by
    intro cs zs hzs
    have hall : ∀ c ∈ zs.reverse, decide (c ≠ '\n') = true := by
      rintro c hc
      refine decide_eq_true ?_
      rintro rfl
      exact hzs (List.mem_reverse.1 hc)
    rw [List.reverse_append, List.reverse_cons, List.append_assoc,
      List.takeWhile_append_of_pos hall]
    simp
  have heq := hlast bs ys hys
  rw [← h, hlast as xs hxs] at heq
  exact List.reverse_injective heq

/-- A report has one mark only. -/
theorem cover_unique {heading heading' : String} {number number' : Nat}
    {line line' front front' : List Char}
    (h : heading ++ shown number line front = heading' ++ shown number' line' front') :
    cover front = cover front' := by
  obtain ⟨top, htop⟩ := shown_toList number line front
  obtain ⟨top', htop'⟩ := shown_toList number' line' front'
  have hlast : ∀ front : List Char, '\n' ∉ List.replicate 8 ' ' ++ (cover front ++ ['~']) := by
    intro front
    simp [newline_not_mem_cover]
  have hlist := congrArg String.toList h
  rw [String.toList_append, String.toList_append, htop, htop',
    ← List.append_assoc heading.toList, ← List.append_assoc heading'.toList] at hlist
  have hcover := lastLine_unique hlist (hlast _) (hlast _)
  exact List.append_cancel_right (List.append_cancel_left hcover)

theorem length_le_utf8Len (cs : List Char) : cs.length ≤ utf8Len cs := by
  induction cs with
  | nil => exact Nat.le_refl 0
  | cons c cs ih =>
    have hpos := c.utf8Size_pos
    rw [String.utf8Len_cons, List.length_cons]
    omega

/-- Bytes are as many as characters if every character is one byte. -/
theorem utf8Len_eq_length : utf8Len front = front.length ↔ ∀ c ∈ front, c.utf8Size = 1 := by
  induction front with
  | nil => exact iff_of_true rfl nofun
  | cons c cs ih =>
    have hpos := c.utf8Size_pos
    have htail := length_le_utf8Len cs
    rw [List.forall_mem_cons, ← ih, String.utf8Len_cons, List.length_cons]
    omega

/-- As many characters of a line as there are bytes in front of a place are those in front of
it, if these are single bytes or the line ends there. -/
theorem length_take_utf8Len (h : front <+: line) :
    (line.take (utf8Len front)).length = front.length ↔
      (∀ c ∈ front, c.utf8Size = 1) ∨ front = line := by
  have hwhole : front = line ↔ line.length = front.length :=
    ⟨fun heq => by rw [heq], fun hlen => h.eq_of_length hlen.symm⟩
  have hbytes := length_le_utf8Len front
  have hle := h.length_le
  rw [← utf8Len_eq_length, hwhole, List.length_take]
  omega

/-- So many characters cover as much as those in front only if they are them. -/
theorem cover_take_utf8Len (h : front <+: line) :
    cover (line.take (utf8Len front)) = cover front ↔
      (∀ c ∈ front, c.utf8Size = 1) ∨ front = line := by
  rw [← length_take_utf8Len h]
  constructor
  · intro heq
    simpa [cover] using congrArg List.length heq
  · intro hlen
    have hsame : line.take (utf8Len front) = front := by
      have hprefix := List.prefix_of_prefix_length_le (List.take_prefix _ line) h hlen.le
      exact hprefix.eq_of_length hlen
    rw [hsame]

end

-- ---------------------------------------------------------------------------
-- Reports
-- ---------------------------------------------------------------------------

/-- Every fault is worded as a sentence. -/
theorem message_getLast (fault : Grammar.SyntaxFault) :
    fault.message.toList.getLast? = some '.' := by
  cases fault with
  | token fault => cases fault <;> rfl
  | expected | expectedWord =>
    rw [Grammar.SyntaxFault.message, String.toList_append, List.getLast?_append]
    rfl
  | _ => rfl

section

variable {text : String} {file : Path} {textOf : Path → Option String} {d : Grammar.Diagnostic}
  {above front line : List Char}

/-- The report of a fault: where and what it is, and the line with as many characters covered as
there are bytes in front. -/
theorem report_eq (htext : textOf file = some text)
    (h : OnLine text d.span.start above front line) :
    ∃ heading, BuildError.report false textOf (.ofDiagnostic file text d) =
      heading ++ d.message ++ if line = [] ∧ above = text.toList then "" else
        shown (above.count '\n' + 1) line (line.take (utf8Len front)) := by
  have hsnippet : snippet? false text ⟨above.count '\n' + 1, utf8Len front + 1⟩ =
      if line = [] ∧ above = text.toList then none else
        some (shown (above.count '\n' + 1) line (line.take (utf8Len front))) := by
    rw [snippet?, h.line?_eq]
    split
    · rfl
    · simp [shown, marker, paint, cover]
  refine ⟨BuildError.placeText file ((LineTable.ofText text).location d.span.start) ++ " - " ++
    "error" ++ ": ", ?_⟩
  rw [BuildError.ofDiagnostic, h.location_eq]
  simp only [BuildError.report, htext, Option.bind_some, hsnippet]
  split <;> rfl

end

end Report

open Report Text in
/-- Every text that is refused has its fault on a line. Where its text is known, the report of the
fault shows this line with the mark below the character where the fault is, unless the line
is empty and the last one behind a line feed, or a character in front of the fault is of more
bytes than one and the line goes on. -/
theorem report_pointsAt_iff {text : String} {file : Path} {textOf : Path → Option String}
    {d : Grammar.Diagnostic} (h : Node.parse text = .error d) (htext : textOf file = some text) :
    (∃ above front line, OnLine text d.span.start above front line) ∧
      ∀ above front line, OnLine text d.span.start above front line →
        (PointsAt (BuildError.report false textOf (.ofDiagnostic file text d))
            (above.count '\n' + 1) line front ↔
          ¬(line = [] ∧ above = text.toList) ∧
            ((∀ c ∈ front, c.utf8Size = 1) ∨ front = line)) := by
  refine ⟨?_, fun above front line hline => ?_⟩
  · obtain ⟨s, c, -, hholds, hspan⟩ := Grammar.parse_eq_error_token h
    rw [hspan]
    refine exists_onLine (hholds.before.trans hholds.start) fun hhead => ?_
    exact absurd (hholds.token.head_ne hhead) (by decide)
  · obtain ⟨heading, hreport⟩ := report_eq htext hline
    rw [hreport]
    by_cases hempty : line = [] ∧ above = text.toList
    · -- nothing is shown, and what there is ends as a sentence
      rw [if_pos hempty]
      refine iff_of_false ?_ fun hnot => hnot.1 hempty
      rintro ⟨other, heq⟩
      have hend : (heading ++ d.message ++ "").toList.getLast? = some '.' := by
        rw [String.append_empty, String.toList_append, List.getLast?_append,
          Grammar.Diagnostic.message, message_getLast]
        rfl
      rw [heq, String.toList_append, List.getLast?_append, getLast_shown, Option.some_or] at hend
      exact absurd (Option.some.inj hend) (by decide)
    · rw [if_neg hempty, ← cover_take_utf8Len hline.front_prefix]
      constructor
      · rintro ⟨other, heq⟩
        exact ⟨hempty, cover_unique heq⟩
      · rintro ⟨-, hcover⟩
        refine ⟨heading ++ d.message, ?_⟩
        rw [shown, shown, hcover]

open Report Text in
/-- Behind a letter of two bytes the mark is one character too far to the right. -/
theorem report_pointsAt_iff_accent : ∃ d, Node.parse "let é = ;\n" = .error d ∧
    OnLine "let é = ;\n" d.span.start [] "let é = ".toList "let é = ;".toList ∧
    ∀ file, ¬PointsAt
      (BuildError.report false (fun _ => some "let é = ;\n") (.ofDiagnostic file "let é = ;\n" d))
      1 "let é = ;".toList "let é = ".toList := by
  have hfault : (Node.parse "let é = ;\n").map (fun _ => ()) =
      .error ⟨.expressionExpected, ⟨9, 10⟩⟩ := by
    decide +kernel
  cases hparse : Node.parse "let é = ;\n" with
  | ok tree =>
    rw [hparse] at hfault
    cases hfault
  | error d =>
    rw [hparse] at hfault
    obtain rfl := Except.error.inj hfault
    have hline : OnLine "let é = ;\n" 9 [] "let é = ".toList "let é = ;".toList :=
      ⟨.inl rfl, by decide, by decide, by decide, ['\n'], .lf [] (by decide), by decide⟩
    refine ⟨_, rfl, hline, fun file hpoints => ?_⟩
    obtain ⟨-, hsingle | hend⟩ := ((report_pointsAt_iff hparse rfl).2 _ _ _ hline).1 hpoints
    · exact absurd (hsingle 'é' (by decide +kernel)) (by decide)
    · exact absurd (congrArg List.length hend) (by decide +kernel)

end ModuleBundler

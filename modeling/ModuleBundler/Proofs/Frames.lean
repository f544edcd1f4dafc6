import ModuleBundler.Proofs.Specifiers
import ModuleBundler.Proofs.ParserEnds
import ModuleBundler.Proofs.TokenStream

/-!
# ModuleBundler — tokens of a framed text

A text may be framed: a word or a bracket is written before it and an assignment of a value
behind it. The tokens of the text are tokens of the framed text, so many bytes later. Only
where the text ends, or a literal or comment in it is not closed, does the frame come in.

* `Frame` — what is written around a text.
* `Cursor.within`, `Token.within` — a place and a token of a text in the framed text.
* `Token.after_within` — the next token of the framed text is that of the text.
* `Token.after_behind` — which token it is where the text has none.
* `Token.after_start_text` — which token stands before the text.
-/

namespace ModuleBundler

open Text
open String (utf8Len)

-- ---------------------------------------------------------------------------
-- Frames
-- ---------------------------------------------------------------------------

/-- What is written around a text: it is declared, or assigned to in parentheses. -/
inductive Frame where
  | declaration
  | assignment

namespace Frame

/-- What stands before the text. -/
def before : Frame → String
  | declaration => "let "
  | assignment => "("

/-- The characters behind the value that is assigned. -/
def closing : Frame → List Char
  | declaration => [';']
  | assignment => [')', ';']

/-- The characters behind the text. -/
def tail (F : Frame) : List Char := ' ' :: '=' :: ' ' :: 'v' :: F.closing

/-- The token that stands before the text. -/
def opener : Frame → TokenKind
  | .declaration => .word .letKw
  | .assignment => .punct .openParen

/-- The framed text. -/
def text (F : Frame) (inner : String) : String := F.before ++ inner ++ String.ofList F.tail

/-- How many bytes later the text begins. -/
def width (F : Frame) : Nat := F.before.utf8ByteSize

theorem width_pos (F : Frame) : 0 < F.width := by
  cases F <;> decide

theorem mem_tail {F : Frame} {c : Char} (h : c ∈ F.tail) : c ∈ [' ', '=', 'v', ')', ';'] := by
  cases F <;> simp only [tail, closing] at h <;> grind

end Frame

variable {F : Frame}

-- ---------------------------------------------------------------------------
-- Cursors
-- ---------------------------------------------------------------------------

namespace Text.Cursor

variable {c d : Cursor} {p : Char → Bool}

/-- A place of a text in the framed text. -/
def within (F : Frame) (c : Cursor) : Cursor := ⟨c.offset + F.width, c.rest ++ F.tail⟩

@[simp] theorem offset_within : (c.within F).offset = c.offset + F.width := rfl

@[simp] theorem rest_within : (c.within F).rest = c.rest ++ F.tail := rfl

theorem advance_within (h : c.rest ≠ []) : (c.within F).advance = c.advance.within F := by
  obtain ⟨offset, rest⟩ := c
  obtain ⟨ch, cs, rfl⟩ := List.exists_cons_of_ne_nil h
  simp [within, advance, Nat.add_right_comm]

theorem drop_within {n : Nat} (h : n ≤ c.rest.length) :
    (c.within F).drop n = (c.drop n).within F := by
  induction n generalizing c with
  | zero => rfl
  | succ n ih =>
    have hne : c.rest ≠ [] := by
      rintro hnil
      simp [hnil] at h
    obtain ⟨ch, cs, hcs⟩ := List.exists_cons_of_ne_nil hne
    rw [drop, drop, advance_within hne]
    refine ih ?_
    simp only [hcs, List.length_cons, Nat.add_le_add_iff_right] at h
    simpa [advance, hcs] using h

/-- No class of characters that holds in a run has the space behind the text. -/
theorem skipWhile_within (hp : p ' ' = false) :
    (c.within F).skipWhile p = (c.skipWhile p).within F := by
  obtain ⟨offset, rest⟩ := c
  show skipWhile.go p (offset + F.width) (rest ++ F.tail) = (skipWhile.go p offset rest).within F
  induction rest generalizing offset with
  | nil => simp [skipWhile.go, Frame.tail, hp, within]
  | cons ch cs ih =>
    rw [List.cons_append, skipWhile.go, skipWhile.go]
    split
    · rw [Nat.add_right_comm]
      exact ih _
    · rfl

theorem textTo_within (h : c.Before d) : (c.within F).textTo (d.within F) = c.textTo d := by
  obtain ⟨m, hm, hoff⟩ := h.exists_passed
  rw [textTo_eq hm hoff]
  exact textTo_eq (by simp [within, hm]) (by simp only [within, hoff]; omega)

theorem peek?_within (h : c.rest ≠ []) : (c.within F).peek? = c.peek? := by
  obtain ⟨ch, cs, hcs⟩ := List.exists_cons_of_ne_nil h
  simp [peek?, within, hcs]

/-- Where the text ends, the space behind it is ahead. -/
theorem any_peek?_within (hp : p ' ' = false) : (c.within F).peek?.any p = c.peek?.any p := by
  obtain ⟨offset, rest⟩ := c
  cases rest <;> simp [peek?, within, Frame.tail, hp]

end Text.Cursor

/-- A token of a text in the framed text. -/
def Token.within (F : Frame) (t : Token) : Token :=
  { t with start := t.start.within F, stop := t.stop.within F }

@[simp] theorem Token.kind_within (t : Token) : (t.within F).kind = t.kind := rfl

@[simp] theorem Token.isBindingName_within (t : Token) : (t.within F).isBindingName = t.isBindingName :=
  rfl

@[simp] theorem Token.afterLineBreak_within (t : Token) :
    (t.within F).afterLineBreak = t.afterLineBreak :=
  rfl

-- ---------------------------------------------------------------------------
-- Quoted text
-- ---------------------------------------------------------------------------

theorem Frame.hexDigits_append (most : Nat) (cs : List Char) :
    hexDigits most (cs ++ F.tail) = hexDigits most cs := by
  induction cs generalizing most with
  | nil => cases most <;> simp [hexDigits, tail, isHexDigit, isDigit]
  | cons c cs ih =>
    cases most with
    | zero => simp [hexDigits]
    | succ most =>
      have ih := ih most
      simp only [hexDigits] at ih
      simp [hexDigits, List.takeWhile_cons, ih]

theorem Frame.any_head?_append {p : Char → Bool} (hp : p ' ' = false) (cs : List Char) :
    (cs ++ F.tail).head?.any p = cs.head?.any p := by
  cases cs <;> simp [tail, hp]

/-- An escape ends before the text does. -/
theorem Frame.escape_append {cs : List Char} (h : cs ≠ []) :
    escape (cs ++ F.tail) = escape cs := by
  have hdigit : isDigit ' ' = false := by decide
  fun_cases escape cs
  case case1 => exact absurd rfl h
  case case8 cs hcs => simp only [List.cons_append, escape, any_head?_append hdigit, hcs, if_true]
  case case9 cs hcs =>
    simp only [List.cons_append, escape, any_head?_append hdigit, hcs]
    rfl
  case case10 cs digits => simp only [List.cons_append, escape, hexDigits_append, digits]
  case case11 cs digits closing =>
    have hclosing : ((cs ++ F.tail).drop digits.length).head? = some '}' ↔
        (cs.drop digits.length).head? = some '}' := by
      have hlen : digits.length ≤ cs.length :=
        ((List.takeWhile_sublist _).trans (List.take_sublist _ _)).length_le
      rw [List.drop_append_of_le_length hlen]
      cases cs.drop digits.length <;> simp [tail]
    simp only [List.cons_append, escape, hexDigits_append, closing, digits] at hclosing ⊢
    simp only [hclosing]
  case case12 cs hbrace digits =>
    have hbrace : ∀ ds, cs ++ F.tail ≠ '{' :: ds := by
      cases cs <;> simp_all [tail]
    simp only [List.cons_append, escape, hexDigits_append, digits]
  case case14 c cs _ _ _ _ _ _ _ _ _ hu hline =>
    have hbrace : ∀ ds, c = 'u' → cs ++ F.tail = '{' :: ds → False := fun _ h => absurd h hu
    have hline : ∀ ds, c = '\r' → cs ++ F.tail = '\n' :: ds → False := by
      cases cs <;> simp_all [tail]
    rw [List.cons_append, escape]
    all_goals assumption
  all_goals simp [escape]

theorem readString_open {quote : Char} {cs : List Char} (hquote : quote ∉ cs) (skip offset : Nat)
    (value : String) : (readString quote skip offset value cs).closed = false := by
  fun_induction readString quote skip offset value cs with
  | case1 => rfl
  | case2 => simp_all
  | case3 => simp_all
  | case4 => simp_all
  | case5 => rfl
  | case6 => simp_all

theorem Frame.readString_append {quote : Char} (hquote : quote ∉ F.tail) (skip offset : Nat)
    (value : String) (cs : List Char) :
    let q := readString quote skip offset value cs
    let q' := readString quote skip (offset + F.width) value (cs ++ F.tail)
    (q.closed = true → q' = { q with stop := q.stop.within F }) ∧
      (q.closed = false → q'.closed = false) := by
  induction cs generalizing skip offset value with
  | nil => exact ⟨fun h => Bool.noConfusion h, fun _ => readString_open hquote ..⟩
  | cons c cs ih =>
    rw [List.cons_append]
    cases skip with
    | succ k =>
      simp only [readString, Nat.add_right_comm]
      exact ih ..
    | zero =>
      simp only [readString, Nat.add_right_comm]
      split
      · exact ⟨fun _ => rfl, fun h => Bool.noConfusion h⟩
      split
      · cases cs with
        | nil => exact ⟨fun h => Bool.noConfusion h, fun _ => readString_open hquote ..⟩
        | cons d ds =>
          rw [escape_append (List.cons_ne_nil _ _)]
          exact ih ..
      split
      · exact ⟨fun h => Bool.noConfusion h, fun _ => rfl⟩
      · exact ih ..

theorem readTemplate_endOfText {cs : List Char} (hbacktick : '`' ∉ cs) (hdollar : '$' ∉ cs)
    (skip offset : Nat) (value : String) :
    (readTemplate skip offset value cs).ending = .endOfText := by
  fun_induction readTemplate skip offset value cs <;> simp_all

theorem readTemplate_cons {c : Char} {cs : List Char} (hbacktick : c ≠ '`') (hescape : c ≠ '\\')
    (hno : ∀ rest, c = '$' → cs ≠ '{' :: rest) (offset : Nat) (value : String) :
    readTemplate 0 offset value (c :: cs) =
      readTemplate 0 (offset + c.utf8Size) (value.push c) cs := by
  rw [readTemplate, if_neg hbacktick, if_neg hescape]
  exact fun rest hc hrest => hno rest hc hrest

theorem Frame.readTemplate_append (skip offset : Nat) (value : String) (cs : List Char) :
    let q := readTemplate skip offset value cs
    let q' := readTemplate skip (offset + F.width) value (cs ++ F.tail)
    (q.ending ≠ .endOfText → q' = { q with stop := q.stop.within F }) ∧
      (q.ending = .endOfText → q'.ending = .endOfText) := by
  have hend : ∀ skip offset value, (readTemplate skip offset value F.tail).ending = .endOfText :=
    readTemplate_endOfText (fun h => by simpa using mem_tail h) fun h => by simpa using mem_tail h
  induction cs generalizing skip offset value with
  | nil => exact ⟨fun h => absurd rfl h, fun _ => hend ..⟩
  | cons c cs ih =>
    rw [List.cons_append]
    cases skip with
    | succ k =>
      simp only [readTemplate, Nat.add_right_comm]
      exact ih ..
    | zero =>
      by_cases hbacktick : c = '`'
      · simp [readTemplate, hbacktick, Cursor.within, Nat.add_right_comm]
      by_cases hescape : c = '\\'
      · simp only [readTemplate, if_neg hbacktick, if_pos hescape, Nat.add_right_comm]
        cases cs with
        | nil => exact ⟨fun h => absurd rfl h, fun _ => hend ..⟩
        | cons d ds =>
          rw [escape_append (List.cons_ne_nil _ _)]
          exact ih ..
      · cases cs with
        | nil =>
          refine ⟨fun h => ?_, fun _ => ?_⟩
          · simp [readTemplate, hbacktick, hescape] at h
          · rw [readTemplate_cons hbacktick hescape fun rest _ h => ?_]
            · exact hend ..
            · simp [tail] at h
        | cons d ds =>
          by_cases hsub : c = '$' ∧ d = '{'
          · obtain ⟨rfl, rfl⟩ := hsub
            simp [readTemplate, Cursor.within, Nat.add_right_comm]
          · have hno : ∀ rest, c = '$' → d :: ds = '{' :: rest → False := by
              rintro rest rfl hrest
              exact hsub ⟨rfl, (List.cons.inj hrest).1⟩
            have hno' : ∀ rest, c = '$' → d :: ds ++ F.tail ≠ '{' :: rest := by
              rintro rest rfl hrest
              exact hsub ⟨rfl, (List.cons.inj hrest).1⟩
            rw [readTemplate_cons hbacktick hescape hno, readTemplate_cons hbacktick hescape hno',
              Nat.add_right_comm]
            exact ih ..

-- ---------------------------------------------------------------------------
-- Numerals
-- ---------------------------------------------------------------------------

def Numeral.within (F : Frame) (n : Numeral) : Numeral := { n with stop := n.stop.within F }

theorem digitsAt_within {p : Char → Bool} (hp : p ' ' = false) (c : Cursor) :
    digitsAt p (c.within F) = ⟨(digitsAt p c).stop.within F, (digitsAt p c).separator⟩ := by
  obtain ⟨offset, cs⟩ := c
  suffices h : ∀ begun separator,
      digitRun p begun separator (offset + F.width) (cs ++ F.tail) =
        ⟨(digitRun p begun separator offset cs).stop.within F,
          (digitRun p begun separator offset cs).separator⟩ from h false false
  induction cs generalizing offset with
  | nil => simp [digitRun, Frame.tail, hp, Cursor.within]
  | cons ch cs ih =>
    intro begun separator
    rw [List.cons_append, digitRun, digitRun, Nat.add_right_comm]
    split
    · exact ih ..
    split
    · exact ih ..
    · rfl

theorem readRadix_within {p : Char → Bool} (hp : p ' ' = false) (flags : TokenFlags) (c : Cursor) :
    readRadix p flags (c.within F) = (readRadix p flags c).within F := by
  simp [readRadix, digitsAt_within hp, Numeral.within]

theorem readFraction_within (n : Numeral) :
    readFraction (n.within F) = (readFraction n).within F := by
  obtain ⟨⟨offset, rest⟩, whole, flags, fault⟩ := n
  unfold readFraction
  cases rest with
  | nil => rfl
  | cons c cs =>
    by_cases hc : c = '.'
    · subst hc
      have hspace : isDigit ' ' = false := by decide
      simp [Numeral.within, Cursor.advance_within, digitsAt_within hspace]
    · simp [Numeral.within, hc]

theorem readExponent_within (n : Numeral) :
    readExponent (n.within F) = (readExponent n).within F := by
  have hsign : ∀ c : Cursor,
      (if (c.within F).peek? = some '+' || (c.within F).peek? = some '-' then
        (c.within F).advance else c.within F) =
      (if c.peek? = some '+' || c.peek? = some '-' then c.advance else c).within F := by
    intro c
    by_cases hnil : c.rest = []
    · simp [Cursor.peek?, hnil, Frame.tail]
    · rw [Cursor.peek?_within hnil, Cursor.advance_within hnil]
      split <;> rfl
  obtain ⟨⟨offset, rest⟩, whole, flags, fault⟩ := n
  unfold readExponent
  cases rest with
  | nil => rfl
  | cons c cs =>
    have hadvance : ∀ ch, (Cursor.within F ⟨offset, ch :: cs⟩).advance =
        (Cursor.advance ⟨offset, ch :: cs⟩).within F :=
      fun _ => Cursor.advance_within (List.cons_ne_nil _ _)
    by_cases hc : c = 'e' ∨ c = 'E'
    · rcases hc with rfl | rfl
      all_goals
        simp only [Numeral.within, Cursor.rest_within, List.cons_append, hadvance, hsign,
          digitsAt_within (show isDigit ' ' = false by decide)]
        simp
    · rw [not_or] at hc
      simp [Numeral.within, hc]

theorem readDecimal_within (flags : TokenFlags) (c : Cursor) :
    readDecimal flags (c.within F) = (readDecimal flags c).within F := by
  rw [readDecimal, readDecimal, ← readExponent_within, ← readFraction_within,
    digitsAt_within (by decide)]
  rfl

theorem radixDigits?_space {c : Char} {p : Char → Bool} (h : radixDigits? c = some p) :
    p ' ' = false := by
  unfold radixDigits? at h
  split at h <;> cases h <;> decide

theorem readNumeral_within (flags : TokenFlags) (c : Cursor) :
    readNumeral flags (c.within F) = (readNumeral flags c).within F := by
  obtain ⟨offset, rest⟩ := c
  unfold readNumeral
  match rest with
  | [] => exact readDecimal_within ..
  | [d] =>
    by_cases hd : d = '0'
    · subst hd
      exact readDecimal_within ..
    · simpa [hd] using readDecimal_within flags ⟨offset, _⟩
  | d :: r :: ds =>
    by_cases hd : d = '0'
    · subst hd
      simp only [Cursor.rest_within, List.cons_append]
      split
      · case _ p hp =>
        rw [Cursor.drop_within (by simp)]
        exact readRadix_within (radixDigits?_space hp) ..
      · exact readDecimal_within ..
    · simpa [hd] using readDecimal_within flags ⟨offset, _⟩

theorem scanNumber_within (flags : TokenFlags) (c : Cursor) :
    scanNumber flags (c.within F) = (scanNumber flags c).within F := by
  have hbefore := readNumeral_before flags c
  unfold scanNumber
  rw [readNumeral_within]
  generalize readNumeral flags c = n at hbefore ⊢
  have hbig : (n.stop.within F).peek? = some 'n' ↔ n.stop.peek? = some 'n' := by
    by_cases hnil : n.stop.rest = []
    · simp [Cursor.peek?, hnil, Frame.tail]
    · rw [Cursor.peek?_within hnil]
  have hword : (n.stop.within F).peek?.any isNameStart = n.stop.peek?.any isNameStart :=
    Cursor.any_peek?_within (by decide)
  simp only [Numeral.within, hbig, hword]
  split
  · rw [Cursor.textTo_within hbefore]
    rfl
  split
  · case _ h =>
    have hne : n.stop.rest ≠ [] := by
      rintro hnil
      simp [Cursor.peek?, hnil] at h
    rw [Cursor.advance_within hne, Cursor.textTo_within (hbefore.trans (.advance _))]
    rfl
  split <;>
  · rw [Cursor.textTo_within hbefore]
    rfl

-- ---------------------------------------------------------------------------
-- One token
-- ---------------------------------------------------------------------------

namespace Punctuator

variable {ch : Char}

/-- A space goes on with no punctuator: where one is met, what is told is told as at the end
of the text. -/
theorem read?_space_first (x y x' y' : Option Char) :
    read? ch (some ' ') x y = read? ch none x' y' := by
  unfold read?
  split <;> rfl

theorem read?_space_second (a : Char) (x x' : Option Char) :
    read? ch (some a) (some ' ') x = read? ch (some a) none x' := by
  have hspace : isDigit ' ' = false := by decide
  unfold read?
  split <;> try rfl
  all_goals grind

theorem read?_space_third (a b : Char) :
    read? ch (some a) (some b) (some ' ') = read? ch (some a) (some b) none := by
  unfold read?
  split <;> try rfl
  all_goals grind

/-- No punctuator goes on with the space behind the text. -/
theorem ahead?_append {cs : List Char} (h : cs ≠ []) : ahead? (cs ++ F.tail) = ahead? cs := by
  match cs, h with
  | [_], _ => exact read?_space_first (some '=') (some ' ') none none
  | [_, a], _ => exact read?_space_second a (some '=') none
  | [_, a, b], _ => exact read?_space_third a b
  | _ :: _ :: _ :: _ :: _, _ => rfl

theorem length_le_of_ahead? {p : Punctuator} {n : Nat} {cs : List Char}
    (h : ahead? cs = some (p, n)) : n ≤ cs.length := by
  obtain ⟨rfl, hahead⟩ := ahead?_eq_some h
  simpa only [String.length_toList] using hahead.length_le

end Punctuator

theorem scanPunctuator_within (flags : TokenFlags) {c : Cursor} (h : c.rest ≠ []) :
    scanPunctuator flags (c.within F) = (scanPunctuator flags c).within F := by
  unfold scanPunctuator
  rw [Cursor.rest_within, Punctuator.ahead?_append h]
  split
  · case _ p n hp =>
    rw [Cursor.drop_within (Punctuator.length_le_of_ahead? hp)]
    rfl
  · rw [Cursor.advance_within h]
    rfl

theorem scanWord_within (flags : TokenFlags) (c : Cursor) :
    scanWord flags (c.within F) = (scanWord flags c).within F := by
  unfold scanWord
  rw [Cursor.skipWhile_within (by decide)]
  dsimp only
  rw [Cursor.textTo_within (.skipWhile _ c)]
  rfl

theorem scanPrivateName_within (flags : TokenFlags) {c : Cursor} (h : c.rest ≠ []) :
    scanPrivateName flags (c.within F) = (scanPrivateName flags c).within F := by
  unfold scanPrivateName
  rw [Cursor.advance_within h]
  dsimp only
  rw [Cursor.any_peek?_within (by decide), Cursor.skipWhile_within (by decide),
    Cursor.textTo_within ((Cursor.Before.advance c).trans (.skipWhile _ _))]
  split <;> rfl

/-- Where a token of a text begins in the framed text. It is the same token, unless it is a
fault. -/
def Token.Framed (F : Frame) (t t' : Token) : Prop :=
  (t.kind ≠ .unknown → t' = t.within F) ∧ (t.kind = .unknown → t'.kind = .unknown)

namespace Token

variable {t t' : Token}

theorem Framed.of_eq (h : t' = t.within F) : t.Framed F t' :=
  ⟨fun _ => h, fun hk => by rw [h]; exact hk⟩

theorem scanString_framed (flags : TokenFlags) {c : Cursor} (h : c.rest ≠ []) {quote : Char}
    (hquote : quote ∉ F.tail) :
    Framed F (scanString flags c quote) (scanString flags (c.within F) quote) := by
  have hread := F.readString_append hquote 0 c.advance.offset "" c.advance.rest
  simp only [scanString, Cursor.advance_within h, Cursor.offset_within, Cursor.rest_within]
  generalize readString quote 0 c.advance.offset "" c.advance.rest = q at hread ⊢
  generalize readString quote 0 (c.advance.offset + F.width) "" (c.advance.rest ++ F.tail) = q'
    at hread ⊢
  cases hq : q.closed with
  | true =>
    obtain rfl := hread.1 hq
    exact .of_eq (by simp [hq, within])
  | false => simp [hread.2 hq, Framed]

theorem scanTemplate_framed (isFirst : Bool) (flags : TokenFlags) {c body : Cursor} :
    Framed F (scanTemplate isFirst flags c body)
      (scanTemplate isFirst flags (c.within F) (body.within F)) := by
  have hread := F.readTemplate_append 0 body.offset "" body.rest
  simp only [scanTemplate, Cursor.offset_within, Cursor.rest_within]
  generalize readTemplate 0 body.offset "" body.rest = q at hread ⊢
  generalize readTemplate 0 (body.offset + F.width) "" (body.rest ++ F.tail) = q' at hread ⊢
  cases hq : q.ending with
  | endOfText => simp [hread.2 hq, Framed]
  | _ =>
    obtain rfl := hread.1 (by simp [hq])
    exact .of_eq (by cases isFirst <;> simp [hq, within])

theorem scanAt_framed (flags : TokenFlags) {c : Cursor} (h : c.rest ≠ []) :
    Framed F (scanAt flags c) (scanAt flags (c.within F)) := by
  obtain ⟨ch, cs, hcs⟩ := List.exists_cons_of_ne_nil h
  have hdigit : (cs ++ F.tail).head?.any isDigit = cs.head?.any isDigit :=
    F.any_head?_append (by decide) cs
  have hrest : (c.within F).rest = ch :: (cs ++ F.tail) := by simp [hcs]
  unfold scanAt
  simp only [hcs, hrest, hdigit]
  split
  · case _ hquote =>
    exact scanString_framed flags h fun hmem => by
      have := Frame.mem_tail hmem
      simp only [Bool.or_eq_true, decide_eq_true_eq] at hquote
      rcases hquote with rfl | rfl <;> simp at this
  split
  · rw [Cursor.advance_within h]
    exact scanTemplate_framed ..
  split
  · exact .of_eq (scanNumber_within ..)
  split
  · exact .of_eq (scanPrivateName_within _ h)
  split
  · exact .of_eq (scanWord_within ..)
  · exact .of_eq (scanPunctuator_within _ h)

end Token

-- ---------------------------------------------------------------------------
-- The next token
-- ---------------------------------------------------------------------------

/-- A region of a text in the framed text. -/
def TriviaRegion.within (F : Frame) : TriviaRegion → TriviaRegion
  | blockOpening opening => blockOpening (opening.within F)
  | blockComment opening => blockComment (opening.within F)
  | region => region

/-- How trivia of a text go on in its framed texts. -/
inductive Trivia.Framed (gap : Trivia) (framed : Frame → Trivia) : Prop
  /-- A token of the text follows. -/
  | kept (more : gap.stop.rest ≠ []) (closed : gap.unclosed = none)
    (eq : ∀ F, framed F = { gap with stop := gap.stop.within F })
  /-- The text ends, and an equals sign follows. -/
  | ended (done : gap.stop.rest = []) (closed : ∀ F, (framed F).unclosed = none)
    (eq : ∀ F, (framed F).stop.rest = '=' :: ' ' :: 'v' :: F.closing)
  /-- The text ends in a comment that takes in what is behind it. -/
  | swallowing (done : gap.stop.rest = [])
    (end_or_open : ∀ F, (framed F).stop.rest = [] ∨ (framed F).unclosed ≠ none)

theorem skipTrivia_framed (region : TriviaRegion) (lineBreak : Bool) (offset : Nat)
    (cs : List Char) : (skipTrivia region lineBreak offset cs).Framed fun F =>
      skipTrivia (region.within F) lineBreak (offset + F.width) (cs ++ F.tail) := by
  induction cs generalizing region lineBreak offset with
  | nil =>
    have hequals : isLineBreak '=' = false ∧ isBlank '=' = false := by decide
    cases region with
    | outside =>
      exact .ended rfl (fun F => by cases F <;> rfl) fun F => by cases F <;> rfl
    | lineComment =>
      exact .swallowing rfl fun F => .inl (by cases F <;> rfl)
    | blockOpening opening =>
      exact .swallowing rfl fun F => .inr (by cases F <;> exact Option.some_ne_none _)
    | blockComment opening =>
      exact .swallowing rfl fun F => .inr (by cases F <;> exact Option.some_ne_none _)
    | blockClosing =>
      exact .ended rfl (fun F => by cases F <;> rfl) fun F => by cases F <;> rfl
  | cons c cs ih =>
    have hhead : ∀ (F : Frame) d, d = '/' ∨ d = '*' →
        ((cs ++ F.tail).head? = some d ↔ cs.head? = some d) := by
      rintro F d hd
      cases cs with
      | nil => rcases hd with rfl | rfl <;> simp [Frame.tail]
      | cons => simp
    have hslash := fun F => hhead F '/' (.inl rfl)
    have hstar := fun F => hhead F '*' (.inr rfl)
    cases region with
    | outside =>
      simp only [skipTrivia, TriviaRegion.within, List.cons_append, hslash, hstar,
        Nat.add_right_comm offset]
      by_cases hline : (c = '/' && cs.head? = some '/') = true
      · simp only [if_pos hline]
        exact ih .lineComment _ _
      by_cases hblock : (c = '/' && cs.head? = some '*') = true
      · simp only [if_neg hline, if_pos hblock]
        exact ih (.blockOpening ⟨offset, c :: cs⟩) _ _
      by_cases hbreak : isLineBreak c = true
      · simp only [if_neg hline, if_neg hblock, if_pos hbreak]
        exact ih .outside _ _
      by_cases hblank : isBlank c = true
      · simp only [if_neg hline, if_neg hblock, if_neg hbreak, if_pos hblank]
        exact ih .outside _ _
      · simp only [if_neg hline, if_neg hblock, if_neg hbreak, if_neg hblank]
        exact .kept (List.cons_ne_nil _ _) rfl fun _ => rfl
    | lineComment =>
      simp only [skipTrivia, TriviaRegion.within, List.cons_append, Nat.add_right_comm offset]
      by_cases hbreak : isLineBreak c = true
      · simp only [if_pos hbreak]
        exact ih .outside _ _
      · simp only [if_neg hbreak]
        exact ih .lineComment _ _
    | blockOpening opening =>
      simp only [skipTrivia, TriviaRegion.within, List.cons_append, Nat.add_right_comm offset]
      exact ih (.blockComment opening) _ _
    | blockComment opening =>
      simp only [skipTrivia, TriviaRegion.within, List.cons_append, hslash,
        Nat.add_right_comm offset]
      by_cases hclosing : (c = '*' && cs.head? = some '/') = true
      · simp only [if_pos hclosing]
        exact ih .blockClosing _ _
      · simp only [if_neg hclosing]
        exact ih (.blockComment opening) _ _
    | blockClosing =>
      simp only [skipTrivia, TriviaRegion.within, List.cons_append, Nat.add_right_comm offset]
      exact ih .outside _ _

namespace Token

variable {c : Cursor} {t : Token}

theorem skipInterpreterLine_of_pos (h : 0 < c.offset) : skipInterpreterLine c = c := by
  obtain ⟨offset, rest⟩ := c
  obtain ⟨n, rfl⟩ := Nat.exists_eq_succ_of_ne_zero h.ne'
  rfl

theorem gap_framed (hc : skipInterpreterLine c = c) :
    (gap c).Framed fun F => gap (c.within F) := by
  have hwithin : ∀ F : Frame, skipInterpreterLine (c.within F) = c.within F := fun F =>
    skipInterpreterLine_of_pos (Nat.add_pos_right _ F.width_pos)
  have hframed := skipTrivia_framed .outside false c.offset c.rest
  simp only [gap, hc, hwithin]
  exact hframed

/-- The next token of a text is the next one in the framed text. -/
theorem after_within (hc : skipInterpreterLine c = c) (h : (after c).Significant) :
    after (c.within F) = (after c).within F := by
  obtain ⟨hne, -⟩ := after_significant h
  cases gap_framed hc with
  | kept _ hclosed heq =>
    have hgap := heq F
    rw [after_of_closed hclosed] at h ⊢
    rw [after_of_closed (by rw [hgap]; exact hclosed), hgap]
    exact (scanAt_framed _ hne).1 h.known
  | ended hover => exact absurd hover hne
  | swallowing hover => exact absurd hover hne

theorem not_significant_iff {t : Token} :
    ¬t.Significant ↔ t.kind = .unknown ∨ t.kind = .endOfFile := by
  constructor
  · intro h
    by_contra hk
    rw [not_or] at hk
    exact h ⟨hk.1, hk.2⟩
  · rintro h ⟨hknown, hmore⟩
    exact h.elim hknown hmore

/-- Where a text has no next token, the framed texts go on with the equals sign, or with none
either. -/
theorem after_behind (hc : skipInterpreterLine c = c) (h : ¬(after c).Significant) :
    (∀ F, ¬(after (c.within F)).Significant) ∨
      ∀ F, (after (c.within F)).kind = .punct .assign ∧
        (after (c.within F)).stop.rest = ' ' :: 'v' :: F.closing := by
  cases gap_framed hc with
  | kept hne hclosed heq =>
    rw [after_of_closed hclosed] at h
    refine .inl fun F => not_significant_iff.2 (.inl ?_)
    have hgap := heq F
    rw [after_of_closed (by rw [hgap]; exact hclosed), hgap]
    refine (scanAt_framed _ hne).2 ?_
    by_contra hknown
    exact h ⟨hknown, fun hend => hne ((scanAt_kind_eq_endOfFile _ _).1 hend)⟩
  | ended hover hclosed heq =>
    refine .inr fun F => ?_
    rw [after_of_closed (hclosed F)]
    have hrest := heq F
    generalize (gap (c.within F)).stop = d at hrest
    obtain ⟨offset, rest⟩ := d
    subst hrest
    exact ⟨rfl, rfl⟩
  | swallowing hover hend =>
    refine .inl fun F => not_significant_iff.2 ?_
    cases hgap : (gap (c.within F)).unclosed with
    | some opening => exact .inl (by rw [after_of_unclosed hgap])
    | none =>
      have hrest := (hend F).resolve_right fun h => h hgap
      refine .inr ?_
      rw [after_of_closed hgap]
      exact (scanAt_kind_eq_endOfFile _ _).2 hrest

-- ---------------------------------------------------------------------------
-- What is behind the text
-- ---------------------------------------------------------------------------

section Behind

variable {cs : List Char}

theorem after_value (hc : c.rest = ' ' :: 'v' :: F.closing) :
    (after c).kind = .name ∧ (after c).stop.rest = F.closing := by
  obtain ⟨offset, rest⟩ := c
  obtain rfl : rest = _ := hc
  have hgap : gap ⟨offset, ' ' :: 'v' :: F.closing⟩ =
      ⟨false, ⟨offset + 1, 'v' :: F.closing⟩, none⟩ := by
    cases F <;> cases offset <;> rfl
  have hskip : Cursor.skipWhile isNamePart ⟨offset + 1, 'v' :: F.closing⟩ =
      ⟨offset + 2, F.closing⟩ := by
    cases F <;> rfl
  have hvalue : Cursor.textTo ⟨offset + 1, 'v' :: F.closing⟩ ⟨offset + 2, F.closing⟩ = "v" :=
    textTo_eq (List.singleton_append ..).symm rfl
  have hafter : after ⟨offset, ' ' :: 'v' :: F.closing⟩ =
      scanWord { lineBreak := false } ⟨offset + 1, 'v' :: F.closing⟩ := by
    rw [after_of_closed (by rw [hgap]), hgap]
    rfl
  rw [hafter, scanWord, hskip]
  dsimp only
  rw [hvalue]
  exact ⟨by decide, rfl⟩

theorem after_closeParen (hc : c.rest = ')' :: cs) :
    (after c).kind = .punct .closeParen ∧ (after c).stop.rest = cs := by
  obtain ⟨offset, rest⟩ := c
  obtain rfl : rest = _ := hc
  cases offset <;> exact ⟨rfl, rfl⟩

theorem after_semicolon (hc : c.rest = ';' :: cs) :
    (after c).kind = .punct .semicolon ∧ (after c).stop.rest = cs := by
  obtain ⟨offset, rest⟩ := c
  obtain rfl : rest = _ := hc
  cases offset <;> exact ⟨rfl, rfl⟩

theorem after_nothing (hc : c.rest = []) : (after c).kind = .endOfFile := by
  obtain ⟨offset, rest⟩ := c
  obtain rfl : rest = _ := hc
  exact after_end offset

end Behind

-- ---------------------------------------------------------------------------
-- What is before the text
-- ---------------------------------------------------------------------------

theorem after_space (offset : Nat) (h : 0 < offset) (cs : List Char) :
    after ⟨offset, ' ' :: cs⟩ = after ⟨offset + 1, cs⟩ := by
  have hblank : skipTrivia .outside false offset (' ' :: cs) =
      skipTrivia .outside false (offset + 1) cs := by
    rw [skipTrivia]
    rfl
  have hline : skipInterpreterLine ⟨offset, ' ' :: cs⟩ = ⟨offset, ' ' :: cs⟩ :=
    skipInterpreterLine_of_pos h
  have hline' : skipInterpreterLine ⟨offset + 1, cs⟩ = ⟨offset + 1, cs⟩ :=
    skipInterpreterLine_of_pos (Nat.succ_pos _)
  simp only [after, next, hline, hline', hblank]

theorem after_let (cs : List Char) :
    let t := after ⟨0, 'l' :: 'e' :: 't' :: ' ' :: cs⟩
    t.kind = .word .letKw ∧ t.stop = ⟨3, ' ' :: cs⟩ := by
  have hskip : Cursor.skipWhile isNamePart ⟨0, 'l' :: 'e' :: 't' :: ' ' :: cs⟩ =
      ⟨3, ' ' :: cs⟩ := rfl
  have hvalue : Cursor.textTo ⟨0, 'l' :: 'e' :: 't' :: ' ' :: cs⟩ ⟨3, ' ' :: cs⟩ = "let" :=
    textTo_eq (m := ['l', 'e', 't']) rfl rfl
  have hafter : after ⟨0, 'l' :: 'e' :: 't' :: ' ' :: cs⟩ =
      scanWord {} ⟨0, 'l' :: 'e' :: 't' :: ' ' :: cs⟩ := by
    rw [after_of_closed (by rfl)]
    rfl
  dsimp only
  rw [hafter, scanWord, hskip]
  dsimp only
  rw [hvalue]
  exact ⟨by decide, rfl⟩

theorem after_start_text (F : Frame) (text : String) :
    let t := after (.start (F.text text))
    t.kind = F.opener ∧ t.next = after ((Cursor.start text).within F) := by
  have hchars : (F.text text).toList = F.before.toList ++ (text.toList ++ F.tail) := by
    simp [Frame.text]
  dsimp only
  rw [next_eq, Cursor.start, hchars]
  cases F with
  | declaration =>
    obtain ⟨hkind, hstop⟩ := after_let (text.toList ++ Frame.declaration.tail)
    have hopen : Frame.declaration.before.toList ++ (text.toList ++ Frame.declaration.tail) =
        'l' :: 'e' :: 't' :: ' ' :: (text.toList ++ Frame.declaration.tail) := rfl
    rw [hopen, hstop, after_space 3 (by decide)]
    exact ⟨hkind, rfl⟩
  | assignment => exact ⟨rfl, rfl⟩

/-- Only at the beginning of a text there may be a line for an interpreter. -/
theorem skipInterpreterLine_of_significant {text : String}
    (h : (after ((Cursor.start text).within F)).Significant) :
    skipInterpreterLine (.start text) = .start text := by
  unfold skipInterpreterLine
  split
  · case _ cs hoffset hline =>
    have hwithin : (Cursor.start text).within F = ⟨F.width, '#' :: '!' :: (cs ++ F.tail)⟩ := by
      rw [Cursor.within, hline, hoffset, Nat.zero_add]
      rfl
    have hkind : (after ⟨F.width, '#' :: '!' :: (cs ++ F.tail)⟩).kind = .unknown := by
      cases F <;> rfl
    rw [hwithin] at h
    exact absurd hkind h.known
  · rfl

-- ---------------------------------------------------------------------------
-- Reading again
-- ---------------------------------------------------------------------------

theorem regexBody_within {inClass escaped : Bool} {offset : Nat} {cs : List Char} {stop : Cursor}
    (h : regexBody inClass escaped offset cs = .ok stop) :
    regexBody inClass escaped (offset + F.width) (cs ++ F.tail) = .ok (stop.within F) := by
  fun_induction regexBody inClass escaped offset cs with
  | case1 => cases h
  | case2 => cases h
  | case8 =>
    cases h
    simp_all +zetaDelta [regexBody, Nat.add_right_comm, Cursor.within]
  | _ => simp_all +zetaDelta [regexBody, Nat.add_right_comm]

theorem asRegex_within {t : Token} (h : t.asRegex.Significant) :
    (t.within F).asRegex = t.asRegex.within F := by
  have hkind : (t.within F).kind = t.kind := rfl
  have hstart : (t.within F).start = t.start.within F := rfl
  unfold asRegex at h ⊢
  rw [hkind, hstart]
  split at h
  · case isTrue hk =>
    simp only [if_pos hk]
    cases hbody : regexBody false false t.start.advance.offset t.start.advance.rest with
    | error stop =>
      dsimp only at h
      rw [hbody] at h
      exact absurd rfl h.known
    | ok slash =>
      have hne : t.start.rest ≠ [] := by
        intro hnil
        simp [Cursor.advance, hnil, regexBody] at hbody
      have hbefore : t.start.advance.Before slash := by
        have := regexBody_before false false t.start.advance.offset t.start.advance.rest
        rwa [hbody] at this
      simp only [Cursor.advance_within hne, Cursor.offset_within, Cursor.rest_within,
        regexBody_within hbody, Cursor.skipWhile_within (show isNamePart ' ' = false by decide)]
      rw [Cursor.textTo_within ((Cursor.Before.advance _).trans (hbefore.trans (.skipWhile _ _)))]
      rfl
  · case isFalse hk => simp only [if_neg hk]

theorem asTemplate_framed {t : Token} (hne : t.start.rest ≠ []) :
    Framed F t.asTemplate (t.within F).asTemplate := by
  unfold asTemplate
  show Framed F _ (if t.kind = _ then _ else _)
  split
  · show Framed F _ (scanTemplate false t.flags (t.start.within F) (t.start.within F).advance)
    rw [Cursor.advance_within hne]
    exact scanTemplate_framed ..
  · exact .of_eq rfl

end Token

end ModuleBundler

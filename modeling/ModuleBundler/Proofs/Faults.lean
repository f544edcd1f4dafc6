import ModuleBundler.Proofs.Composed
import ModuleBundler.Proofs.FirstText
import ModuleBundler.Proofs.ParserEnds
import ModuleBundler.Proofs.Programs

/-!
# ModuleBundler — what texts are refused for

A text is refused for one of its items, the first that cannot be read. The parser stops
there at a token, and the fault it reports is about this token. It is a token of the text,
perhaps read anew, and so it does not begin with a line terminator.

* `Token.ReadBehind.regexAnew`, `Token.ReadBehind.templateAnew` — tokens are not read anew twice.
* `Token.ReadBehind.head_ne` — no token begins with a line terminator.
* `parse_eq_error` — the item that a text is refused for.
* `State.holds_stable`, `parse_eq_error_token` — the token.
-/

namespace ModuleBundler

open Text (Cursor isLineBreak)

namespace Token

-- ---------------------------------------------------------------------------
-- Reading anew
-- ---------------------------------------------------------------------------

section

variable {c : Cursor} {t : Token}

theorem asRegex_of_not_punct (h : ∀ p, t.kind ≠ .punct p) : t.asRegex = t := by
  simp [asRegex, h]

theorem asTemplate_of_not_punct (h : ∀ p, t.kind ≠ .punct p) : t.asTemplate = t := by
  simp [asTemplate, h]

/-- What is read anew is no punctuator any more. -/
theorem asRegex_eq_or (t : Token) : t.asRegex = t ∨ ∀ p, t.asRegex.kind ≠ .punct p := by
  unfold asRegex
  split
  · refine .inr fun p => ?_
    dsimp only
    split <;> simp
  · exact .inl rfl

theorem asTemplate_eq_or (t : Token) : t.asTemplate = t ∨ ∀ p, t.asTemplate.kind ≠ .punct p := by
  unfold asTemplate
  split
  · refine .inr fun p => ?_
    unfold scanTemplate
    dsimp only
    split <;> simp
  · exact .inl rfl

/-- So reading it anew once more changes nothing. -/
theorem ReadBehind.regexAnew (h : t.ReadBehind c) : t.asRegex.ReadBehind c := by
  cases h with
  | next => exact .regex
  | regex =>
    rcases (after c).asRegex_eq_or with heq | hkind
    · rw [heq]
      exact .regex
    · rw [asRegex_of_not_punct hkind]
      exact .regex
  | template =>
    rcases (after c).asTemplate_eq_or with heq | hkind
    · rw [heq]
      exact .regex
    · rw [asRegex_of_not_punct hkind]
      exact .template

theorem ReadBehind.templateAnew (h : t.ReadBehind c) : t.asTemplate.ReadBehind c := by
  cases h with
  | next => exact .template
  | regex =>
    rcases (after c).asRegex_eq_or with heq | hkind
    · rw [heq]
      exact .template
    · rw [asTemplate_of_not_punct hkind]
      exact .regex
  | template =>
    rcases (after c).asTemplate_eq_or with heq | hkind
    · rw [heq]
      exact .template
    · rw [asTemplate_of_not_punct hkind]
      exact .template

/-- No token begins with a line terminator. -/
theorem ReadBehind.head_ne (h : t.ReadBehind c) {ch : Char}
    (hhead : t.start.rest.head? = some ch) : isLineBreak ch = false := by
  rw [h.start_eq] at hhead
  cases hgap : (gap c).unclosed with
  | some opening =>
    have hslash := skipTrivia_unclosed_head .outside false (skipInterpreterLine c).offset
      (skipInterpreterLine c).rest nofun opening hgap
    rw [after_of_unclosed hgap] at hhead
    obtain rfl := Option.some.inj (hslash.symm.trans hhead)
    decide
  | none =>
    rw [after_of_closed hgap, (scanAt_liesAt _ _).start_eq] at hhead
    obtain ⟨rest, hrest⟩ := List.head?_eq_some_iff.1 hhead
    exact (skipTrivia_stop .outside false _ hrest).1

end

end Token

namespace Grammar

-- ---------------------------------------------------------------------------
-- The item of a fault
-- ---------------------------------------------------------------------------

section

variable {α : Type} {ends : TokenKind → Bool} {item : Parser α} {s u : State} {d : Diagnostic}

/-- A list fails at one of its items, unless its rounds are used up. -/
theorem many_go_eq_error {n : Nat} {acc : List α} (h : many.go ends item n acc s = .error d u) :
    d.fault = .exhausted ∨ ∃ as t, Chain item s as t ∧ item t = .error d u := by
  induction n generalizing acc s with
  | zero =>
    cases h
    exact .inl rfl
  | succ n ih =>
    have hgo : many.go ends item (n + 1) acc s =
        (if ends s.token.kind then pure acc.reverse
          else item >>= fun a => many.go ends item n (a :: acc)) s := rfl
    rw [hgo] at h
    split at h
    · cases h
    · rcases bind_error h with hitem | ⟨a, t, hitem, hrest⟩
      · exact .inr ⟨[], s, .nil s, hitem⟩
      · rcases ih hrest with hfault | ⟨as, t', hchain, hlast⟩
        · exact .inl hfault
        · exact .inr ⟨a :: as, t', .cons hitem hchain, hlast⟩

end

/-- A text is refused for one of its items, which is read outside all phrases like the ones
before it. -/
theorem parse_eq_error {text : String} {d : Diagnostic} (h : Node.parse text = .error d) :
    ∃ items c t, (Cursor.start text).Before c ∧
      Chain (moduleItem (read (text.utf8ByteSize + 1))) (.between text (Cursor.start text)) items
        (.between text c) ∧
      moduleItem (read (text.utf8ByteSize + 1)) (.between text c) = .error d t := by
  have hends := readModule_ends (Nat.lt_succ_self text.utf8ByteSize)
  rw [Node.parse] at h
  rw [h] at hends
  rw [readModule_eq] at h
  split at h
  · cases h
  · case _ t herror =>
    cases h
    rcases many_go_eq_error herror with hfault | ⟨items, u, hchain, hitem⟩
    · exact absurd hfault hends.1
    · obtain ⟨c, rfl, hc, -⟩ := hchain.between (.refl _)
      exact ⟨items, c, t, hc, hchain, hitem⟩

-- ---------------------------------------------------------------------------
-- The token of a fault
-- ---------------------------------------------------------------------------

/-- The steps of a parser keep it on its text. -/
theorem State.holds_stable (text : String) :
    Stable fun s t => (∃ c, s.Holds text c) → ∃ c, t.Holds text c where
  refl _ := id
  trans h h' := h' ∘ h
  take _ := fun ⟨_, hs⟩ => ⟨_, hs.taken.holds⟩
  slash _ := fun ⟨c, hs⟩ => ⟨c, hs.before, hs.token.regexAnew, hs.size_eq⟩
  brace _ := fun ⟨c, hs⟩ => ⟨c, hs.before, hs.token.templateAnew, hs.size_eq⟩
  counted h := fun ⟨c, hs⟩ =>
    have ⟨d, ht⟩ := h ⟨c, hs.before, hs.token, hs.size_eq⟩
    ⟨d, ht.before, ht.token, ht.size_eq⟩
  within _ h := fun ⟨c, hs⟩ =>
    have ⟨d, ht⟩ := h ⟨c, hs.before, hs.token, hs.size_eq⟩
    ⟨d, ht.before, ht.token, ht.size_eq⟩

/-- The token that a text is refused for is the current one where the parser stops. -/
theorem parse_eq_error_token {text : String} {d : Diagnostic} (h : Node.parse text = .error d) :
    ∃ s c, program (read (text.utf8ByteSize + 1)) (.initial text) = .error d s ∧
      s.Holds text c ∧ d.span = s.token.span := by
  let whole : List Node → Parser Node := fun body s => .ok (.mk ⟨0, s.size⟩ (.program body)) s
  let items := many (· = .endOfFile) (moduleItem (read (text.utf8ByteSize + 1)))
  have hrun : program (read (text.utf8ByteSize + 1)) (.initial text) =
      (items >>= whole) (.between text (Cursor.start text)) := rfl
  have hcomposed : Composed (items >>= whole) := .first fun _ => .look _
  unfold Node.parse readModule at h
  split at h
  · cases h
  · case _ s herror =>
    cases h
    rw [hrun] at herror
    have hstart := (State.standsAfter_between (.refl (Cursor.start text))).holds
    have hleads := hcomposed.leads (State.holds_stable text) _ ⟨_, hstart⟩
    rw [stateAfter_of_error herror] at hleads
    obtain ⟨c, hholds⟩ := hleads
    exact ⟨s, c, by rw [hrun, herror], hholds, hcomposed.span_eq herror⟩

end Grammar

end ModuleBundler

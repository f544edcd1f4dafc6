import ModuleBundler.Proofs.Brackets
import ModuleBundler.Proofs.ParserEnds

/-!
# ModuleBundler — arrow functions and what is looked for ahead of them

Whether an opening parenthesis begins an arrow function is decided before its group is
parsed: the group is skipped by its brackets, and an arrow has to follow. The parser and the
search read the same tokens, with one exception. A brace that ends a substitution is read
again by both of them, but a slash that begins a regular expression is so by the parser
only. The search takes it for an operator and what is behind it for tokens, and a bracket
that is only text is counted there.

So the search finds the arrow behind every list of parameters, whatever stands in their
defaults, if it comes through the regular expressions among them. If it does not, an arrow
function may be refused.

* `Skips` — the steps of the search.
* `Token.IsPassed` — the search comes through a token.
* `beginsArrowFunction_parameters` — where parameters and an arrow follow, the search says so.
* `mistaken_regex` — a regular expression that the search does not come through.
-/

namespace ModuleBundler

open Text (Cursor)

-- ---------------------------------------------------------------------------
-- Steps of the search
-- ---------------------------------------------------------------------------

/-- Steps of the search for the end of a group, with the brackets that are open, from behind
one cursor to behind another one. -/
inductive Skips : List Token.Closer → Cursor → List Token.Closer → Cursor → Prop
  | refl (gs : List Token.Closer) (c : Cursor) : Skips gs c gs c
  | step {gs ms hs : List Token.Closer} {c d e : Cursor}
    (first : Token.groupStep gs (.after c) = .inl (ms, .after d)) (rest : Skips ms d hs e) :
    Skips gs c hs e

namespace Skips

variable {gs ms hs : List Token.Closer} {c d e : Cursor}

theorem single (h : Token.groupStep gs (.after c) = .inl (hs, .after d)) : Skips gs c hs d :=
  .step h (.refl hs d)

theorem trans (h : Skips gs c ms d) (h' : Skips ms d hs e) : Skips gs c hs e := by
  induction h with
  | refl => exact h'
  | step first _ ih => exact .step first (ih h')

/-- Behind some steps the search goes on as from there. -/
theorem skipGroup_eq (h : Skips gs c hs d) :
    ∃ n, ∀ m, Token.skipGroup (m + n) gs (.after c) = Token.skipGroup m hs (.after d) := by
  induction h with
  | refl => exact ⟨0, fun _ => rfl⟩
  | step first _ ih =>
    obtain ⟨n, hn⟩ := ih
    refine ⟨n + 1, fun m => ?_⟩
    rw [← Nat.add_assoc, Token.skipGroup_succ, first]
    exact hn m

end Skips

namespace Token

-- ---------------------------------------------------------------------------
-- Tokens on the way
-- ---------------------------------------------------------------------------

/-- The search comes through a token: as it reads what a regular expression consists of, all
brackets there are closed there, and it ends where the expression does. -/
def IsPassed (v : Token) : Prop :=
  v.kind = .regex → ∀ c gs, v.ReadBehind c → gs ≠ [] → Skips gs c gs v.stop

variable {gs hs : List Closer} {c d : Cursor} {t v : Token}

/-- Middles and tails of templates are found by reading again only. -/
theorem after_kind_ne_templateTail (c : Cursor) : (after c).kind ≠ .templateTail := by
  intro hk
  obtain ⟨ch, _, -, hheads⟩ := after_heads (.of_kind_eq hk rfl)
  rw [hk] at hheads
  exact hheads

/-- The search does to the brackets what the token does. -/
theorem groupStep_eq (hsig : t.Significant) (htail : t.kind ≠ .templateTail)
    (h : t.kind.shift gs = some hs) (hne : hs ≠ []) : groupStep gs t = .inl (hs, t.next) := by
  have hclose : ∀ c, close c gs = some hs → gs = c :: hs := fun _ => close_eq_some
  have hnonempty : hs.isEmpty = false := by simpa using hne
  unfold TokenKind.shift at h
  generalize hk : t.kind = k at h
  split at h
  case h_5 =>
    obtain rfl := hclose _ h
    simp [groupStep, hk, hnonempty]
  case h_6 =>
    obtain rfl := hclose _ h
    simp [groupStep, hk, hnonempty]
  case h_7 =>
    obtain rfl := hclose _ h
    simp [groupStep, hk]
  case h_8 =>
    obtain ⟨ms, hms, rfl⟩ := Option.map_eq_some_iff.1 h
    obtain rfl := close_eq_some hms
    simp [groupStep, hk]
  case h_9 => exact absurd hk htail
  case h_10 =>
    cases h
    have hknown := hsig.known
    have hmore := hsig.more
    unfold groupStep
    split <;> simp_all
  all_goals
    cases h
    simp [groupStep, hk]

/-- What a closing brace is read again as. -/
theorem asTemplate_kind (hbrace : t.kind = .punct .closeBrace)
    (hsig : t.asTemplate.Significant) :
    t.asTemplate.kind = .templateMiddle ∨ t.asTemplate.kind = .templateTail := by
  have hknown : t.asTemplate.kind ≠ .unknown := hsig.known
  unfold asTemplate at *
  rw [if_pos hbrace] at *
  unfold scanTemplate at *
  dsimp only at hknown ⊢
  split
  · exact .inr rfl
  · exact .inl rfl
  · case _ hend =>
    rw [hend] at hknown
    exact absurd rfl hknown

/-- What a slash is read again as. -/
theorem asRegex_kind (hsig : t.asRegex.Significant) : t.asRegex.kind = .regex ∨ t.asRegex = t := by
  have hknown := hsig.known
  unfold asRegex at *
  split
  · simp only [if_pos ‹_›] at hknown
    split at hknown <;> simp_all
  · exact .inr rfl

/-- A regular expression begins with a slash. -/
theorem ReadBehind.kind_ne_regex (h : v.ReadBehind c) (hslash : '/' ∉ c.rest) :
    v.kind ≠ .regex := by
  have hnext : (after c).kind ≠ .regex := by
    intro hk
    obtain ⟨ch, _, -, hheads⟩ := after_heads (.of_kind_eq hk rfl)
    rw [hk] at hheads
    exact hheads
  have hheads : ∀ p : Punctuator, p.text.toList.head? = some '/' → (after c).kind ≠ .punct p := by
    intro p hp hk
    obtain ⟨ch, cs, hrest, hheads⟩ := after_heads (.of_kind_eq hk rfl)
    rw [hk] at hheads
    obtain rfl : ch = '/' := Option.some.inj (hheads.symm.trans hp)
    obtain ⟨m, hm, -⟩ := (before_after_start c).exists_passed
    exact hslash (by simp [hm, hrest])
  cases h with
  | next => exact hnext
  | regex =>
    have hsame : (after c).asRegex = after c :=
      if_neg (by simp [hheads .slash rfl, hheads .slashAssign rfl])
    rw [hsame]
    exact hnext
  | template =>
    intro hk
    by_cases hbrace : (after c).kind = .punct .closeBrace
    · rcases asTemplate_kind hbrace (.of_kind_eq hk rfl) with h | h <;> cases hk.symm.trans h
    · rw [asTemplate, if_neg hbrace] at hk
      exact hnext hk

/-- A piece of a template is read again by the search as by the parser. -/
theorem groupStep_asTemplate (hbrace : t.kind = .punct .closeBrace)
    (hsig : t.asTemplate.Significant) (h : t.asTemplate.kind.shift gs = some hs) :
    groupStep gs t = .inl (hs, t.asTemplate.next) := by
  rcases asTemplate_kind hbrace hsig with hk | hk
  · rw [hk] at h
    obtain ⟨ms, hms, rfl⟩ := Option.map_eq_some_iff.1 h
    obtain rfl := close_eq_some hms
    simp [groupStep, hbrace, hk]
  · rw [hk] at h
    obtain rfl := close_eq_some h
    simp [groupStep, hbrace, hk]

/-- The search comes through a token that the parser takes, with the same brackets open. -/
theorem ReadBehind.skips (hv : v.ReadBehind c) (hsig : v.Significant) (hpassed : v.IsPassed)
    (h : v.kind.shift gs = some hs) (hgs : gs ≠ []) (hne : hs ≠ []) : Skips gs c hs v.stop := by
  have hnext : (after c).Significant → (after c).kind.shift gs = some hs →
      Skips gs c hs (after c).stop :=
    fun hsig h => .single (groupStep_eq hsig (after_kind_ne_templateTail c) h hne)
  generalize hw : v = w at hv
  cases hv with
  | next =>
    subst hw
    exact hnext hsig h
  | regex =>
    rcases asRegex_kind (hw ▸ hsig) with hk | heq
    · rw [← hw] at hk
      rw [hk] at h
      cases h
      exact hw ▸ hpassed hk c gs (hw ▸ .regex) hgs
    · rw [heq] at hw ⊢
      subst hw
      exact hnext hsig h
  | template =>
    by_cases hbrace : (after c).kind = .punct .closeBrace
    · subst hw
      exact .single (groupStep_asTemplate hbrace hsig h)
    · have heq : (after c).asTemplate = after c := if_neg hbrace
      rw [heq] at hw ⊢
      subst hw
      exact hnext hsig h

end Token

/-- The search comes through the tokens that a parser takes, if it comes through the regular
expressions among them. -/
theorem Reads.skips {gs hs : List Token.Closer} {c d : Cursor} {ts : List Token}
    (h : Reads c ts d) (hpassed : ∀ v ∈ ts, v.IsPassed) (hopen : openAfter gs ts = some hs)
    {outer : List Token.Closer} (hne : outer ≠ []) : Skips (gs ++ outer) c (hs ++ outer) d := by
  induction h generalizing gs with
  | nil c =>
    cases hopen
    exact .refl _ c
  | cons token significant _ ih =>
    obtain ⟨ms, hshift, hrest⟩ := openAfter_cons_eq_some.1 hopen
    have hfirst := token.skips significant (hpassed _ List.mem_cons_self)
      (TokenKind.shift_append hshift outer) (by simp [hne]) (by simp [hne])
    exact hfirst.trans (ih (fun v hv => hpassed v (List.mem_cons_of_mem _ hv)) hrest)

/-- Without slashes there are no regular expressions to come through. -/
theorem Reads.isPassed {c d : Cursor} {ts : List Token} (h : Reads c ts d)
    (hslash : '/' ∉ c.rest) : ∀ v ∈ ts, v.IsPassed := by
  induction h with
  | nil => exact fun _ hv => nomatch hv
  | @cons c _ v _ token _ _ ih =>
    have hbefore : c.Before v.stop := token.before_start.trans token.start_before_stop
    obtain ⟨m, hm, -⟩ := hbefore.exists_passed
    have hrest := ih fun hmem => hslash (by simp [hm, hmem])
    refine List.forall_mem_cons.2 ⟨fun hregex => ?_, hrest⟩
    exact absurd hregex (token.kind_ne_regex hslash)

namespace Grammar

-- ---------------------------------------------------------------------------
-- Parameters before an arrow
-- ---------------------------------------------------------------------------

/-- Whether a parser succeeds from a state on, and the state after it is of a kind. -/
def endsAt {α : Type} (p : Parser α) (s : State) (q : State → Bool) : Bool :=
  match p s with
  | .ok _ t => q t
  | .error _ _ => false

theorem exists_of_endsAt {α : Type} {p : Parser α} {s : State} {q : State → Bool}
    (h : endsAt p s q = true) : ∃ x t, p s = .ok x t ∧ q t = true := by
  unfold endsAt at h
  split at h
  · exact ⟨_, _, ‹_›, h⟩
  · cases h

/-- Whether an arrow follows on the same line. -/
def State.isBeforeArrow (s : State) : Bool :=
  s.token.kind = .punct .arrow && !s.token.afterLineBreak

section

variable {text : String} {k : Nat} {c : Cursor} {s t : State} {params : List Node}

/-- The search for the end of a group ends where the parameters in it do. -/
theorem skipGroup_parameters (hs : s.StandsAfter text c)
    (hparams : parameters (read k) s = .ok params t) :
    ∃ d ts, Later text c s t d ts ∧
      ((∀ v ∈ ts, v.IsPassed) → ∃ closing n, t.token = closing.next ∧
        ∀ m, Token.skipGroup (m + n) [] s.token = some closing) := by
  obtain ⟨_, s₁, hopening, h⟩ := bind_ok hparams
  obtain ⟨hopen, rfl⟩ := expect_ok hopening
  obtain ⟨list, s₂, hlist, h⟩ := bind_ok h
  obtain ⟨_, s₃, hclosing, h⟩ := bind_ok h
  obtain ⟨hclose, rfl⟩ := expect_ok hclosing
  cases h
  have hentries : ∀ s, Nests text [] [] s
      (allowIn (listUntil .closeParen (parameterEntry (read k)))) :=
    fun _ => .allowIn (.listUntil fun _ => .parameterEntry fun phrase _ => .read k phrase)
  have hfirst := later_advance hs (.of_kind_eq hopen rfl)
  obtain ⟨d, ts, hlater, hnest⟩ := (hentries _).ok hfirst.stands hlist
  have hlast := later_advance hlater.stands (.of_kind_eq hclose rfl)
  refine ⟨_, _, (hfirst.trans hlater).trans hlast, fun hpassed => ?_⟩
  have htoken : s₂.token = Token.after d := hlater.stands.token_eq
  have henter : Skips [] c [.paren] s.token.stop := by
    refine .single ?_
    rw [← hs.token_eq]
    simp [Token.groupStep, hopen, Token.next_eq]
  have hinside : Skips [.paren] s.token.stop [.paren] d :=
    hlater.reads.skips (fun v hv => hpassed v (by simp [hv])) hnest (by simp)
  obtain ⟨n, hn⟩ := (henter.trans hinside).skipGroup_eq
  refine ⟨s₂.token, n + 1, rfl, fun m => ?_⟩
  have hleave : Token.groupStep [.paren] (Token.after d) = .inr (some s₂.token) := by
    rw [← htoken]
    simp [Token.groupStep, hclose]
  rw [show m + (n + 1) = (m + 1) + n by omega, hs.token_eq, hn, Token.skipGroup_succ, hleave]

/-- Where an arrow function begins by its parenthesis, it is parsed as one. -/
theorem assignment_of_beginsArrowFunction (g : Reading) (hk : s.token.kind = .punct .openParen)
    (h : s.token.beginsArrowFunction (s.ahead + 1) = true) :
    assignment g s = nested (arrowFunction g) s := by
  have hahead : State.ahead { s with depth := s.depth + 1 } = s.ahead := rfl
  simp [assignment, nested, isAt, atArrowFunction, bind, EStateM.bind, hk, hahead, h]

/-- Where parameters are parsed and an arrow follows them on the line of their closing
parenthesis, it is seen in advance that an arrow function begins there, and so it is parsed as
one. The search for the arrow only has to come through the regular expressions among the
tokens of the parameters. -/
theorem beginsArrowFunction_parameters (hs : s.StandsAfter text c)
    (hk : s.token.kind = .punct .openParen) (hparams : parameters (read k) s = .ok params t)
    (harrow : t.isBeforeArrow = true) :
    ∃ d ts, Later text c s t d ts ∧
      ((∀ v ∈ ts, v.IsPassed) →
        s.token.beginsArrowFunction (s.ahead + 1) = true ∧
          ∀ g, assignment g s = nested (arrowFunction g) s) := by
  obtain ⟨d, ts, hlater, hsearch⟩ := skipGroup_parameters hs hparams
  refine ⟨d, ts, hlater, fun hpassed => ?_⟩
  obtain ⟨closing, n, hnext, hskip⟩ := hsearch hpassed
  have hgroup : s.token.isGroupBeforeArrow (s.ahead + 1 + n) = true := by
    rw [Token.isGroupBeforeArrow, hskip]
    show (closing.next.kind = .punct .arrow && !closing.next.afterLineBreak) = true
    rw [← hnext]
    exact harrow
  have hbegins : s.token.beginsArrowFunction (s.ahead + 1) = true := by
    have hahead : s.ahead = text.utf8ByteSize - (Token.after c).start.offset := by
      rw [State.ahead, hs.size_eq, hs.token_eq]
    rw [hs.token_eq, Token.beginsArrowFunction_enough hs.before (n := s.ahead + 1 + n)
      (by omega) (by omega), ← hs.token_eq]
    unfold Token.beginsArrowFunction
    rw [hk]
    exact hgroup
  exact ⟨hbegins, fun g => assignment_of_beginsArrowFunction g hk hbegins⟩

end

/-- Parameters with brackets in a string, in a template and in a function. -/
def bracketDefaults : String :=
  "(a = `(${[b]}`, c = function () \x7b\x7d, d = \")\") => a"

theorem beginsArrowFunction_bracketDefaults :
    let s := State.between bracketDefaults (.start bracketDefaults)
    endsAt (parameters (read 60)) s State.isBeforeArrow = true ∧
      s.token.beginsArrowFunction (s.ahead + 1) = true ∧
      ∀ g, assignment g s = nested (arrowFunction g) s := by
  intro s
  have hs : s.StandsAfter bracketDefaults (.start bracketDefaults) :=
    State.standsAfter_between (.refl _)
  have hends : endsAt (parameters (read 60)) s State.isBeforeArrow = true := by decide +kernel
  obtain ⟨params, t, hparams, harrow⟩ := exists_of_endsAt hends
  obtain ⟨d, ts, hlater, hbegins⟩ :=
    beginsArrowFunction_parameters hs (by decide +kernel) hparams harrow
  exact ⟨hends, hbegins (hlater.reads.isPassed (by decide +kernel))⟩

/-- A parenthesis in a regular expression is counted as a bracket, and the arrow function is
refused. With another character in its place it is accepted. -/
theorem mistaken_regex :
    let text := "(a = /)/) => a;"
    let s := State.between text (.start text)
    endsAt (parameters (read 16)) s State.isBeforeArrow = true ∧
      s.token.beginsArrowFunction (s.ahead + 1) = false ∧
      (Node.parse text).isOk = false ∧
      (Node.parse "(a = /b/) => a;").isOk = true := by
  decide +kernel

end Grammar

end ModuleBundler

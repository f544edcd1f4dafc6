import ModuleBundler.Proofs.Loops
import ModuleBundler.Proofs.Tokens

/-!
# ModuleBundler — parsers go forward

Between two tokens a parser on a text is at a cursor: the one where the last
token that was taken stops, and behind which the current token was read. A parser
that succeeds comes from one such cursor to a later one, and has taken the tokens
in between. A parser that fails reports a place on its text. Either way it leaves
the nesting and the `in` operator as it found them.

Nothing runs for ever: a phrase takes a token before it comes to a phrase inside
it, and so does each round of a loop before the next one, so a parser that is given
one round more than there are bytes ahead never fails for want of rounds.

* `State.StandsAfter` — a state at a cursor of a text.
* `State.between` — the state between the items of a module, `readModule_eq`.
* `Runs` — what holds of every rule, and the steps and loops that it is passed on by.
-/

namespace ModuleBundler.Grammar

open Text (Cursor Span)

-- ---------------------------------------------------------------------------
-- States on a text
-- ---------------------------------------------------------------------------

/-- A state on a text whose last token stops at a cursor, and whose current
token follows it. -/
structure State.StandsAfter (text : String) (c : Cursor) (s : State) : Prop where
  before : (Cursor.start text).Before c
  token_eq : s.token = Token.after c
  lastStop_eq : s.lastStop = c.offset
  size_eq : s.size = text.utf8ByteSize

/-- The state after a cursor of a text, outside all phrases. -/
def State.between (text : String) (c : Cursor) : State :=
  ⟨Token.after c, c.offset, 0, false, text.utf8ByteSize⟩

/-- The state after the current token is taken. -/
def State.taken (s : State) : State :=
  { s with token := s.token.next, lastStop := s.token.stop.offset }

/-- A span of a text that begins and ends between characters. -/
structure SpanLies (text : String) (span : Span) : Prop where
  start_le : span.start ≤ span.stop
  stop_le : span.stop ≤ text.utf8ByteSize
  startValid : String.Pos.Raw.isValid text ⟨span.start⟩ = true
  stopValid : String.Pos.Raw.isValid text ⟨span.stop⟩ = true

namespace State

variable {text : String} {c d : Cursor} {s t : State}

theorem standsAfter_between (h : (Cursor.start text).Before c) :
    (between text c).StandsAfter text c :=
  ⟨h, rfl, rfl, rfl⟩

/-- A state is given by its cursor, its nesting and what `in` is. -/
theorem StandsAfter.eq_between (h : s.StandsAfter text c) (hd : s.depth = 0)
    (hn : s.noIn = false) : s = between text c := by
  obtain ⟨-, htoken, hstop, hsize⟩ := h
  cases s
  simp_all [between]

theorem StandsAfter.setDepth (h : s.StandsAfter text c) (depth : Nat) :
    StandsAfter text c { s with depth := depth } :=
  ⟨h.before, h.token_eq, h.lastStop_eq, h.size_eq⟩

theorem StandsAfter.setNoIn (h : s.StandsAfter text c) (noIn : Bool) :
    StandsAfter text c { s with noIn := noIn } :=
  ⟨h.before, h.token_eq, h.lastStop_eq, h.size_eq⟩

/-- A state on a text whose current token may have been read anew. -/
structure Holds (text : String) (c : Cursor) (s : State) : Prop where
  before : (Cursor.start text).Before c
  token : s.token.ReadBehind c
  size_eq : s.size = text.utf8ByteSize

theorem StandsAfter.holds (h : s.StandsAfter text c) : s.Holds text c := by
  refine ⟨h.before, ?_, h.size_eq⟩
  rw [h.token_eq]
  exact .next

theorem StandsAfter.asRegex (h : s.StandsAfter text c) :
    Holds text c { s with token := s.token.asRegex } := by
  refine ⟨h.before, ?_, h.size_eq⟩
  show s.token.asRegex.ReadBehind c
  rw [h.token_eq]
  exact .regex

theorem StandsAfter.asTemplate (h : s.StandsAfter text c) :
    Holds text c { s with token := s.token.asTemplate } := by
  refine ⟨h.before, ?_, h.size_eq⟩
  show s.token.asTemplate.ReadBehind c
  rw [h.token_eq]
  exact .template

/-- A fault is reported at the current token. -/
theorem diagnostic_span (s : State) (fault : SyntaxFault) :
    (s.diagnostic fault).span = s.token.span := by
  unfold diagnostic
  split <;> rfl

namespace Holds

theorem start (h : s.Holds text c) : c.Before s.token.start := h.token.before_start

theorem stop (h : s.Holds text c) : s.token.start.Before s.token.stop :=
  h.token.start_before_stop

/-- Taking the current token leads behind it. -/
theorem taken (h : s.Holds text c) :
    StandsAfter text s.token.stop
      { s with token := s.token.next, lastStop := s.token.stop.offset } :=
  ⟨h.before.trans (h.start.trans h.stop), Token.next_eq _, rfl, h.size_eq⟩

theorem tokenLies (h : s.Holds text c) : SpanLies text s.token.span := by
  have hstart := h.before.trans h.start
  exact ⟨h.stop.offset_le, (hstart.trans h.stop).offset_le_size, Text.isValid_of_before hstart,
    Text.isValid_of_before (hstart.trans h.stop)⟩

/-- Whatever fault is reported lies on the text. -/
theorem spanLies (h : s.Holds text c) (fault : SyntaxFault) :
    SpanLies text (s.diagnostic fault).span := by
  rw [diagnostic_span]
  exact h.tokenLies

/-- Where tokens are taken on the way, fewer bytes are ahead. -/
theorem ahead_lt (hs : s.Holds text c) (ht : t.Holds text d) {ts : List Token}
    (h : Reads c ts d) (hne : ts ≠ []) : t.ahead < s.ahead := by
  have hlt := h.lt hne
  have hle := ht.start.offset_le
  have hend := ht.before.offset_le_size
  unfold ahead
  rw [hs.size_eq, ht.size_eq, hs.token.start_eq]
  omega

end Holds

/-- Without tokens on the way the state is at the same token. -/
theorem StandsAfter.ahead_eq (hs : s.StandsAfter text c) (ht : t.StandsAfter text c) :
    t.ahead = s.ahead := by
  unfold ahead
  rw [hs.size_eq, ht.size_eq, hs.token_eq, ht.token_eq]

end State

/-- A module is its items, which are read from the beginning of its text on. -/
theorem readModule_eq (n : Nat) (text : String) :
    readModule n text =
      match many (· = .endOfFile) (moduleItem (read n)) (.between text (Cursor.start text)) with
      | .ok items t => .ok (.mk ⟨0, t.size⟩ (.program items))
      | .error d _ => .error d := by
  let whole : List Node → Parser Node := fun body s => .ok (.mk ⟨0, s.size⟩ (.program body)) s
  have hrun : program (read n) (.initial text) =
      EStateM.bind (many (· = .endOfFile) (moduleItem (read n))) whole
        (.between text (Cursor.start text)) := rfl
  rw [readModule, hrun, EStateM.bind]
  cases many (· = .endOfFile) (moduleItem (read n)) (.between text (Cursor.start text)) with
  | ok items t => rfl
  | error d t => rfl

-- ---------------------------------------------------------------------------
-- Results of parsers
-- ---------------------------------------------------------------------------

section Results

variable {α β : Type} {p : Parser α} {f : α → Parser β} {s u : State} {a : α} {b : β}
  {e : Diagnostic}

/-- What a step after another one gives, if both succeed. -/
theorem bind_ok (h : (p >>= f) s = .ok b u) : ∃ a t, p s = .ok a t ∧ f a t = .ok b u := by
  have heq : (p >>= f) s = EStateM.bind p f s := rfl
  rw [heq, EStateM.bind] at h
  cases hp : p s with
  | ok a t => exact ⟨a, t, rfl, by simpa [hp] using h⟩
  | error e t => simp [hp] at h

/-- Of two steps that fail, the first one fails, or the second one after it. -/
theorem bind_error (h : (p >>= f) s = .error e u) :
    p s = .error e u ∨ ∃ a t, p s = .ok a t ∧ f a t = .error e u := by
  have heq : (p >>= f) s = EStateM.bind p f s := rfl
  rw [heq, EStateM.bind] at h
  cases hp : p s with
  | ok a t => exact .inr ⟨a, t, rfl, by simpa [hp] using h⟩
  | error e t => exact .inl (by simpa [hp] using h)

theorem nested_ok (h : nested p s = .ok a u) :
    ∃ t, p { s with depth := s.depth + 1 } = .ok a t ∧ u = { t with depth := t.depth - 1 } := by
  unfold nested at h
  split at h
  · cases hp : p { s with depth := s.depth + 1 } with
    | ok b t =>
      rw [hp] at h
      cases h
      exact ⟨t, rfl, rfl⟩
    | error e t =>
      rw [hp] at h
      cases h
  · cases h

/-- A phrase that counts as nested fails within, or for too many nestings. -/
theorem nested_error (h : nested p s = .error e u) :
    (∃ t, p { s with depth := s.depth + 1 } = .error e t ∧ u = { t with depth := t.depth - 1 }) ∨
      e = s.diagnostic .tooDeep ∧ u = s := by
  unfold nested at h
  split at h
  · cases hp : p { s with depth := s.depth + 1 } with
    | ok b t =>
      rw [hp] at h
      cases h
    | error e t =>
      rw [hp] at h
      cases h
      exact .inl ⟨t, rfl, rfl⟩
  · cases h
    exact .inr ⟨rfl, rfl⟩

theorem withIn_ok {noIn : Bool} (h : withIn noIn p s = .ok a u) :
    ∃ t, p { s with noIn := noIn } = .ok a t ∧ u = { t with noIn := s.noIn } := by
  unfold withIn at h
  cases hp : p { s with noIn := noIn } with
  | ok b t =>
    rw [hp] at h
    cases h
    exact ⟨t, rfl, rfl⟩
  | error e t =>
    rw [hp] at h
    cases h

theorem withIn_error {noIn : Bool} (h : withIn noIn p s = .error e u) :
    ∃ t, p { s with noIn := noIn } = .error e t ∧ u = { t with noIn := s.noIn } := by
  unfold withIn at h
  cases hp : p { s with noIn := noIn } with
  | ok b t =>
    rw [hp] at h
    cases h
  | error e t =>
    rw [hp] at h
    cases h
    exact ⟨t, rfl, rfl⟩

theorem accept_ok {k : TokenKind} {taken : Bool} (h : accept k s = .ok taken u) :
    s.token.kind = k ∧ taken = true ∧
        u = { s with token := s.token.next, lastStop := s.token.stop.offset } ∨
      s.token.kind ≠ k ∧ taken = false ∧ u = s := by
  obtain ⟨isThere, _, hat, h⟩ := bind_ok h
  cases hat
  by_cases hk : s.token.kind = k
  · rw [if_pos (by simpa using hk)] at h
    cases h
    exact .inl ⟨hk, rfl, rfl⟩
  · rw [if_neg (by simpa using hk)] at h
    cases h
    exact .inr ⟨hk, rfl, rfl⟩

theorem expect_ok {k : TokenKind} {x : Unit} (h : expect k s = .ok x u) :
    s.token.kind = k ∧ u = { s with token := s.token.next, lastStop := s.token.stop.offset } := by
  obtain ⟨taken, t, haccept, h⟩ := bind_ok h
  rcases accept_ok haccept with ⟨hk, rfl, rfl⟩ | ⟨-, rfl, -⟩
  · cases h
    exact ⟨hk, rfl⟩
  · cases h

end Results

-- ---------------------------------------------------------------------------
-- Runs
-- ---------------------------------------------------------------------------

/-- A state later on the text, in the same nesting, and the tokens taken on the way. -/
structure Later (text : String) (c : Cursor) (s t : State) (d : Cursor) (ts : List Token) :
    Prop where
  stands : t.StandsAfter text d
  reads : Reads c ts d
  depth_eq : t.depth = s.depth
  noIn_eq : t.noIn = s.noIn

/-- A fault that is reported on the text, in the same nesting. If there is less ahead
than a bound, it is not for want of rounds. -/
structure Refused (text : String) (bound : Nat) (s : State) (e : Diagnostic) (t : State) :
    Prop where
  lies : SpanLies text e.span
  enough : s.ahead < bound → e.fault ≠ .exhausted
  depth_eq : t.depth = s.depth
  noIn_eq : t.noIn = s.noIn

/-- How far a rule has come: `opening` before it has taken a token, `inside` when it
may have. Only then it may come to a phrase inside it. -/
inductive Stage where
  | opening
  | inside

/-- What has to be ahead at least for the rounds of the phrases inside to run out. -/
def Stage.bound (k : Nat) : Stage → Nat
  | .opening => k + 1
  | .inside => k

/-- Where tokens were taken, a rule is inside. -/
theorem Stage.lt_of_lt {k m n : Nat} (stage : Stage) (hlt : m < n) (h : n < stage.bound k) :
    m < Stage.inside.bound k := by
  cases stage with
  | opening => exact Nat.lt_of_lt_of_le hlt (Nat.le_of_lt_succ h)
  | inside => exact hlt.trans h

/-- Results of parsers that take a token before they succeed, and of such that may take
none. -/
def always {α : Type} (_ : α) : Bool := true

def never {α : Type} (_ : α) : Bool := false

/-- What holds of a parser from a state on, with some rounds for the phrases inside it.
If it succeeds it comes to a later cursor, and has taken a token if `takes` says so of its
result. If it fails it reports a fault on the text. -/
structure Runs (text : String) (k : Nat) (stage : Stage) {α : Type} (takes : α → Bool)
    (s : State) (p : Parser α) : Prop where
  ok : ∀ ⦃c x t⦄, s.StandsAfter text c → p s = .ok x t →
    ∃ d ts, Later text c s t d ts ∧ (takes x = true → ts ≠ [])
  error : ∀ ⦃c e t⦄, s.StandsAfter text c → p s = .error e t →
    Refused text (stage.bound k) s e t

section Later

variable {text : String} {c d e : Cursor} {s t u : State} {ts us : List Token}

theorem Later.refl (hs : s.StandsAfter text c) : Later text c s s c [] :=
  ⟨hs, .nil c, rfl, rfl⟩

theorem Later.trans (h : Later text c s t d ts) (h' : Later text d t u e us) :
    Later text c s u e (ts ++ us) :=
  ⟨h'.stands, h.reads.append h'.reads, h'.depth_eq.trans h.depth_eq, h'.noIn_eq.trans h.noIn_eq⟩

theorem Later.ahead_lt (hs : s.StandsAfter text c) (h : Later text c s t d ts)
    (hne : ts ≠ []) : t.ahead < s.ahead :=
  hs.holds.ahead_lt h.stands.holds h.reads hne

theorem Later.ahead_le (hs : s.StandsAfter text c) (h : Later text c s t d ts) :
    t.ahead ≤ s.ahead := by
  by_cases hne : ts = []
  · subst hne
    cases h.reads
    exact (hs.ahead_eq h.stands).le
  · exact (h.ahead_lt hs hne).le

/-- Taking the current token. -/
theorem later_advance (hs : s.StandsAfter text c) (hsig : s.token.Significant) :
    Later text c s { s with token := s.token.next, lastStop := s.token.stop.offset }
      s.token.stop [s.token] :=
  ⟨hs.holds.taken, .single hs.holds.token hsig, rfl, rfl⟩

variable {bound bound' : Nat} {e : Diagnostic}

theorem Refused.mono (h : Refused text bound s e t) (hle : bound' ≤ bound) :
    Refused text bound' s e t :=
  ⟨h.lies, fun hlt => h.enough (Nat.lt_of_lt_of_le hlt hle), h.depth_eq, h.noIn_eq⟩

/-- A fault after a step that came further. -/
theorem Refused.after (h : Refused text bound' t e u) (hdepth : t.depth = s.depth)
    (hnoIn : t.noIn = s.noIn) (hlt : s.ahead < bound → t.ahead < bound') :
    Refused text bound s e u :=
  ⟨h.lies, fun hs => h.enough (hlt hs), h.depth_eq.trans hdepth, h.noIn_eq.trans hnoIn⟩

theorem refused_fail (ht : t.Holds text c) {fault : SyntaxFault} (hfault : fault ≠ .exhausted)
    (hdepth : t.depth = s.depth) (hnoIn : t.noIn = s.noIn) :
    Refused text bound s (t.diagnostic fault) t := by
  refine ⟨ht.spanLies fault, fun _ => ?_, hdepth, hnoIn⟩
  unfold State.diagnostic
  split
  · exact nofun
  · exact hfault

end Later

namespace Runs

section Steps

variable {text : String} {k : Nat} {stage : Stage} {α β : Type} {takes : α → Bool}
  {takes' : β → Bool} {s : State} {p : Parser α} {f : α → Parser β}

-- ---------------------------------------------------------------------------
-- Steps
-- ---------------------------------------------------------------------------

theorem inside (h : Runs text k stage takes s p) : Runs text k .inside takes s p := by
  refine ⟨h.ok, fun c e t hs he => (h.error hs he).mono ?_⟩
  cases stage with
  | opening => exact Nat.le_succ k
  | inside => exact Nat.le_refl k

theorem any (h : Runs text k stage takes s p) : Runs text k stage never s p := by
  refine ⟨fun c x t hs hx => ?_, h.error⟩
  obtain ⟨d, ts, hlater, -⟩ := h.ok hs hx
  exact ⟨d, ts, hlater, nofun⟩

/-- One step after another one. If the first one took a token, the second one may be
inside, and need not take one. -/
theorem bind (hp : Runs text k stage takes s p)
    (htaken : ∀ x t, takes x = true → t.ahead < s.ahead → Runs text k .inside never t (f x))
    (hstay : ∀ x t, takes x = false → t.ahead ≤ s.ahead → Runs text k stage takes' t (f x)) :
    Runs text k stage takes' s (p >>= f) := by
  have hnext : ∀ {c x t d ts}, s.StandsAfter text c → Later text c s t d ts →
      (takes x = true → ts ≠ []) →
      ts = [] ∧ t.ahead = s.ahead ∧ Runs text k stage takes' t (f x) ∨
        ts ≠ [] ∧ t.ahead < s.ahead ∧ Runs text k .inside never t (f x) := by
    intro c x t d ts hs hlater htakes
    by_cases hts : ts = []
    · have hx : takes x = false := by
        by_contra hx
        exact htakes (by simpa using hx) hts
      subst hts
      have hstill := hlater.ahead_le hs
      cases hlater.reads
      exact .inl ⟨rfl, hs.ahead_eq hlater.stands, hstay x t hx hstill⟩
    · have hlt := hlater.ahead_lt hs hts
      refine .inr ⟨hts, hlt, ?_⟩
      cases hx : takes x with
      | true => exact htaken x t hx hlt
      | false => exact (hstay x t hx hlt.le).inside.any
  constructor
  · intro c y u hs h
    obtain ⟨x, t, hx, hy⟩ := bind_ok h
    obtain ⟨d, ts, hlater, htakes⟩ := hp.ok hs hx
    rcases hnext hs hlater htakes with ⟨rfl, -, hf⟩ | ⟨hts, -, hf⟩
    · obtain ⟨e, us, hlater', htakes'⟩ := hf.ok hlater.stands hy
      exact ⟨e, us, hlater.trans hlater', htakes'⟩
    · obtain ⟨e, us, hlater', -⟩ := hf.ok hlater.stands hy
      exact ⟨e, ts ++ us, hlater.trans hlater', fun _ => by simp [hts]⟩
  · intro c e u hs h
    rcases bind_error h with he | ⟨x, t, hx, he⟩
    · exact hp.error hs he
    · obtain ⟨d, ts, hlater, htakes⟩ := hp.ok hs hx
      rcases hnext hs hlater htakes with ⟨-, heq, hf⟩ | ⟨-, hlt, hf⟩
      · exact (hf.error hlater.stands he).after hlater.depth_eq hlater.noIn_eq
          fun h => heq.trans_lt h
      · exact (hf.error hlater.stands he).after hlater.depth_eq hlater.noIn_eq
          (stage.lt_of_lt hlt)

/-- A step after one that takes a token. -/
theorem first (hp : Runs text k stage always s p)
    (hf : ∀ x t, Runs text k .inside never t (f x)) : Runs text k stage takes' s (p >>= f) :=
  hp.bind (fun x t _ _ => hf x t) fun _ _ h => nomatch h

/-- A step after one that may take none. -/
theorem andThen (hp : Runs text k stage never s p)
    (hf : ∀ x t, Runs text k stage takes' t (f x)) : Runs text k stage takes' s (p >>= f) :=
  hp.bind (fun _ _ h => nomatch h) fun x t _ _ => hf x t

/-- Looking at the state takes nothing, and what is seen is known of the state. -/
theorem look {v : State → α} (h : Runs text k stage takes' s (f (v s))) :
    Runs text k stage takes' s ((fun s => .ok (v s) s) >>= f) :=
  ⟨fun _ _ _ hs hy => h.ok hs hy, fun _ _ _ hs he => h.error hs he⟩

theorem done {v : State → α} : Runs text k stage never s fun s => .ok (v s) s := by
  refine ⟨fun c x t hs hx => ?_, fun c e t hs he => nomatch he⟩
  cases hx
  exact ⟨c, [], .refl hs, nofun⟩

theorem pure {x : α} (hx : takes x = false) :
    Runs text k stage takes s (Pure.pure x : Parser α) := by
  refine ⟨fun c y t hs hy => ?_, fun c e t hs he => nomatch he⟩
  cases hy
  exact ⟨c, [], .refl hs, fun htrue => by rw [hx] at htrue; exact nomatch htrue⟩

theorem fail {fault : SyntaxFault} (hfault : fault ≠ .exhausted) :
    Runs text k stage takes s (Grammar.fail fault : Parser α) := by
  refine ⟨fun c x t hs hx => (nomatch hx), fun c e t hs he => ?_⟩
  cases he
  exact refused_fail hs.holds hfault rfl rfl

theorem ite {c : Prop} [Decidable c] {p q : Parser α} (hp : c → Runs text k stage takes s p)
    (hq : ¬c → Runs text k stage takes s q) : Runs text k stage takes s (if c then p else q) := by
  split
  · exact hp ‹_›
  · exact hq ‹_›

theorem map (hp : Runs text k stage always s p) (f : α → β) :
    Runs text k stage always s (f <$> p) := by
  rw [map_eq_pure_bind]
  exact hp.first fun _ _ => .pure rfl

theorem advance (hs : s.token.Significant) : Runs text k stage always s Grammar.advance := by
  refine ⟨fun c x t h hx => ?_, fun c e t h he => nomatch he⟩
  cases hx
  exact ⟨_, _, later_advance h hs, fun _ => List.cons_ne_nil _ _⟩

theorem nested (hp : Runs text k stage takes { s with depth := s.depth + 1 } p) :
    Runs text k stage takes s (Grammar.nested p) := by
  constructor
  · intro c x u hs h
    obtain ⟨t, ht, rfl⟩ := nested_ok h
    obtain ⟨d, ts, hlater, htakes⟩ := hp.ok (hs.setDepth _) ht
    have hdepth : t.depth = s.depth + 1 := hlater.depth_eq
    refine ⟨d, ts, ⟨hlater.stands.setDepth _, hlater.reads, ?_, hlater.noIn_eq⟩, htakes⟩
    show t.depth - 1 = s.depth
    omega
  · intro c e u hs h
    rcases nested_error h with ⟨t, ht, rfl⟩ | ⟨rfl, rfl⟩
    · obtain ⟨hlies, henough, hdepth, hnoIn⟩ := hp.error (hs.setDepth _) ht
      have hdepth : t.depth = s.depth + 1 := hdepth
      refine ⟨hlies, henough, ?_, hnoIn⟩
      show t.depth - 1 = s.depth
      omega
    · exact refused_fail hs.holds nofun rfl rfl

theorem withIn {noIn : Bool} (hp : Runs text k stage takes { s with noIn := noIn } p) :
    Runs text k stage takes s (Grammar.withIn noIn p) := by
  constructor
  · intro c x u hs h
    obtain ⟨t, ht, rfl⟩ := withIn_ok h
    obtain ⟨d, ts, hlater, htakes⟩ := hp.ok (hs.setNoIn _) ht
    exact ⟨d, ts, ⟨hlater.stands.setNoIn _, hlater.reads, hlater.depth_eq, rfl⟩, htakes⟩
  · intro c e u hs h
    obtain ⟨t, ht, rfl⟩ := withIn_error h
    obtain ⟨hlies, henough, hdepth, -⟩ := hp.error (hs.setNoIn _) ht
    exact ⟨hlies, henough, hdepth, rfl⟩

theorem allowIn (hp : Runs text k stage takes { s with noIn := false } p) :
    Runs text k stage takes s (Grammar.allowIn p) :=
  hp.withIn

-- ---------------------------------------------------------------------------
-- Tokens of a kind
-- ---------------------------------------------------------------------------

variable {κ : TokenKind}

/-- A token of a kind is taken if it is there. -/
theorem accept (hκ : κ.isSignificant = true) :
    Runs text k stage id s (Grammar.accept κ) :=
  .look <| .ite
    (fun h => .first (.advance (.of_kind_eq (of_decide_eq_true h) hκ)) fun _ _ => .pure rfl)
    fun _ => .pure rfl

/-- What follows a token that may be there, and what stands in its place. -/
theorem accepting (hκ : κ.isSignificant = true) {p q : Parser β}
    (hp : ∀ t, Runs text k .inside never t p) (hq : ∀ t, Runs text k stage takes' t q) :
    Runs text k stage takes' s (Grammar.accept κ >>= fun taken => if taken then p else q) := by
  refine (accept hκ).bind (fun taken t htaken _ => ?_) fun taken t htaken _ => ?_
  · obtain rfl : taken = true := htaken
    exact hp t
  · obtain rfl : taken = false := htaken
    exact hq t

theorem expect (hκ : κ.isSignificant = true) :
    Runs text k stage always s (Grammar.expect κ) := by
  refine (accept hκ).bind (fun taken t htaken _ => ?_) fun taken t htaken _ => ?_
  · obtain rfl : taken = true := htaken
    exact .pure rfl
  · obtain rfl : taken = false := htaken
    exact .fail nofun

-- ---------------------------------------------------------------------------
-- Loops
-- ---------------------------------------------------------------------------

/-- A loop whose rounds take a token whenever they go on ends within as many rounds as
there are bytes ahead, and one more. -/
theorem loop {σ : Type} {round : σ → Parser (σ ⊕ β)}
    (hround : ∀ x t, Runs text k .inside Sum.isLeft t (round x)) {n : Nat} (hn : s.ahead < n)
    (x : σ) : Runs text k .inside never s (Grammar.loop round n x) := by
  induction n generalizing s x with
  | zero => exact absurd hn (Nat.not_lt_zero _)
  | succ n ih =>
    refine (hround x s).bind (fun r t hr hlt => ?_) fun r t hr _ => ?_
    · cases r with
      | inl y => exact ih (by omega) y
      | inr b => exact nomatch hr
    · cases r with
      | inl y => exact nomatch hr
      | inr b => exact .pure rfl

theorem manyRound {ends : TokenKind → Bool} {item : Parser α}
    (hitem : ∀ t, Runs text k .inside always t item) (acc : List α) :
    Runs text k .inside Sum.isLeft s (Grammar.manyRound ends item acc) :=
  .look <| .ite (fun _ => .pure rfl) fun _ => .first (hitem _) fun _ _ => .pure rfl

theorem many {ends : TokenKind → Bool} {item : Parser α}
    (hitem : ∀ t, Runs text k .inside always t item) :
    Runs text k .inside never s (Grammar.many ends item) := by
  refine .look ?_
  rw [many_go_eq]
  exact .loop (fun acc _ => manyRound hitem acc) (Nat.lt_succ_self _) _

theorem listRound {closing : Punctuator} {entry : Parser (Entry α)}
    (hentry : ∀ t, Runs text k .inside always t entry) (acc : List α) :
    Runs text k .inside Sum.isLeft s (Grammar.listRound closing entry acc) := by
  refine .look (.ite (fun _ => .pure rfl) fun _ => .first (hentry _) fun e t => ?_)
  cases e with
  | plain x =>
    exact .look (.ite (fun _ => .first (.expect rfl) fun _ _ => .pure rfl) fun _ => .pure rfl)
  | whole x => exact .pure rfl
  | last x => exact .pure rfl

theorem listUntil {closing : Punctuator} {entry : Parser (Entry α)}
    (hentry : ∀ t, Runs text k .inside always t entry) :
    Runs text k .inside never s (Grammar.listUntil closing entry) := by
  refine .look ?_
  rw [listUntil_go_eq]
  exact .loop (fun acc _ => listRound hentry acc) (Nat.lt_succ_self _) _

theorem separatedRound {item : Parser α} (hitem : ∀ t, Runs text k .inside always t item)
    (acc : List α) : Runs text k .inside Sum.isLeft s (Grammar.separatedRound item acc) :=
  (accept rfl).bind
    (fun taken t htaken _ => by
      obtain rfl : taken = true := htaken
      exact .first (hitem t) fun _ _ => .pure rfl)
    fun taken t htaken _ => by
      obtain rfl : taken = false := htaken
      exact .pure rfl

/-- The rounds are counted before the first item is read, so they are more than enough
for the items after it. -/
theorem separated {item : Parser α} (hitem : ∀ t, Runs text k stage always t item) :
    Runs text k stage always s (Grammar.separated item) := by
  refine .look ((hitem s).bind (fun x t _ hlt => ?_) fun _ _ h => nomatch h)
  rw [separated_go_eq]
  exact .loop (fun acc _ => separatedRound (fun t => (hitem t).inside) acc) (by omega) _

end Steps

-- ---------------------------------------------------------------------------
-- Tokens that are read anew
-- ---------------------------------------------------------------------------

section Anew

variable {text : String} {k : Nat} {stage : Stage} {c : Cursor} {s t : State} {g : Reading}

/-- A slash is read anew, and then it is a regular expression or a fault. -/
theorem regex : Runs text k stage always s Grammar.regex := by
  constructor
  · intro c n t hs h
    obtain ⟨_, s', hread, h⟩ := bind_ok h
    cases hread
    obtain ⟨isRegex, _, hat, h⟩ := bind_ok h
    cases hat
    split at h
    · case _ hk =>
      have hk : s.token.asRegex.kind = .regex := by simpa using hk
      cases h
      exact ⟨_, _, ⟨hs.asRegex.taken, .single hs.asRegex.token (.of_kind_eq hk rfl), rfl, rfl⟩,
        fun _ => List.cons_ne_nil _ _⟩
    · cases h
  · intro c e t hs h
    rcases bind_error h with h | ⟨_, s', hread, h⟩
    · cases h
    cases hread
    rcases bind_error h with h | ⟨isRegex, _, hat, h⟩
    · cases h
    cases hat
    split at h
    · cases h
    · cases h
      exact refused_fail hs.asRegex nofun rfl rfl

/-- A state later on the text whose current token may have been read anew. -/
structure LaterAnew (text : String) (c : Cursor) (s t : State) (d : Cursor) (ts : List Token) :
    Prop where
  holds : t.Holds text d
  reads : Reads c ts d
  significant : t.token.Significant
  depth_eq : t.depth = s.depth
  noIn_eq : t.noIn = s.noIn

section Substitutions

variable (he : ∀ t, Runs text k .inside always t (expression g))

/-- The brace that closes a substitution is read anew as a piece of the template. -/
theorem pieceRound_ok {quasis : List String} {expressions : List Node} {r}
    (hs : s.StandsAfter text c) (h : Grammar.pieceRound quasis expressions s = .ok r t) :
    LaterAnew text c s t c [] := by
  obtain ⟨_, s', hread, h⟩ := bind_ok h
  cases hread
  obtain ⟨piece, _, hcur, h⟩ := bind_ok h
  cases hcur
  have hanew : State.Holds text c { s with token := s.token.asTemplate } := hs.asTemplate
  dsimp only at h
  generalize hk : s.token.asTemplate.kind = kind at h
  split at h
  · case _ =>
    cases h
    exact ⟨hanew, .nil c, .of_kind_eq hk rfl, rfl, rfl⟩
  · case _ =>
    cases h
    exact ⟨hanew, .nil c, .of_kind_eq hk rfl, rfl, rfl⟩
  · cases h

theorem pieceRound_error {quasis : List String} {expressions : List Node} {e bound}
    (hs : s.StandsAfter text c) (h : Grammar.pieceRound quasis expressions s = .error e t) :
    Refused text bound s e t := by
  rcases bind_error h with h | ⟨_, s', hread, h⟩
  · cases h
  cases hread
  rcases bind_error h with h | ⟨piece, _, hcur, h⟩
  · cases h
  cases hcur
  dsimp only at h
  generalize s.token.asTemplate.kind = kind at h
  split at h
  · cases h
  · cases h
  · cases h
    exact refused_fail hs.asTemplate nofun rfl rfl

include he

theorem substituted : Runs text k .inside always s (Grammar.substituted g) :=
  .first (.allowIn (he _)) fun _ _ => .look <| .ite (fun _ => .fail nofun) fun _ => .pure rfl

/-- A round takes the piece before the substitution, and the one behind it is the current
token. -/
theorem substitutionRound_ok {x : List String × List Node} {r} (hs : s.Holds text c)
    (hsig : s.token.Significant) (h : Grammar.substitutionRound g x s = .ok r t) :
    ∃ d ts, LaterAnew text c s t d ts ∧ ts ≠ [] := by
  obtain ⟨_, s₁, hadv, h⟩ := bind_ok h
  cases hadv
  obtain ⟨e, s₂, hexp, h⟩ := bind_ok h
  obtain ⟨d, ts, hlater, -⟩ := (substituted he).ok hs.taken hexp
  have hpiece := pieceRound_ok hlater.stands h
  refine ⟨d, s.token :: ts, ⟨hpiece.holds, .cons hs.token hsig hlater.reads, hpiece.significant,
    hpiece.depth_eq.trans hlater.depth_eq, hpiece.noIn_eq.trans hlater.noIn_eq⟩,
    List.cons_ne_nil _ _⟩

theorem substitutionRound_error {x : List String × List Node} {e} (hs : s.Holds text c)
    (hsig : s.token.Significant) (h : Grammar.substitutionRound g x s = .error e t) :
    Refused text (stage.bound k) s e t := by
  rcases bind_error h with h | ⟨_, s₁, hadv, h⟩
  · cases h
  cases hadv
  have hlt := hs.ahead_lt hs.taken.holds (.single hs.token hsig) (List.cons_ne_nil _ _)
  rcases bind_error h with h | ⟨e, s₂, hexp, h⟩
  · exact ((substituted he).error hs.taken h).after rfl rfl (stage.lt_of_lt hlt)
  · obtain ⟨d, ts, hlater, -⟩ := (substituted he).ok hs.taken hexp
    have hle := hlater.ahead_le hs.taken
    exact (pieceRound_error hlater.stands h).after hlater.depth_eq hlater.noIn_eq
      fun h => (Nat.lt_of_le_of_lt hle hlt).trans h

/-- The last piece is the current token behind all substitutions. -/
theorem substitutions_ok {n : Nat} {x parts : List String × List Node} (hs : s.Holds text c)
    (hsig : s.token.Significant)
    (h : Grammar.loop (Grammar.substitutionRound g) n x s = .ok parts t) :
    ∃ d ts, LaterAnew text c s t d ts := by
  induction n generalizing c s x with
  | zero => cases h
  | succ n ih =>
    obtain ⟨r, u, hround, h⟩ := bind_ok h
    obtain ⟨d, ts, hlater, -⟩ := substitutionRound_ok he hs hsig hround
    cases r with
    | inl y =>
      obtain ⟨e, us, hlater'⟩ := ih hlater.holds hlater.significant h
      exact ⟨e, ts ++ us, hlater'.holds, hlater.reads.append hlater'.reads, hlater'.significant,
        hlater'.depth_eq.trans hlater.depth_eq, hlater'.noIn_eq.trans hlater.noIn_eq⟩
    | inr b =>
      cases h
      exact ⟨d, ts, hlater⟩

theorem substitutions_error {n : Nat} {x : List String × List Node} {e} (hn : s.ahead < n)
    (hs : s.Holds text c) (hsig : s.token.Significant)
    (h : Grammar.loop (Grammar.substitutionRound g) n x s = .error e t) :
    Refused text (stage.bound k) s e t := by
  induction n generalizing c s x with
  | zero => exact absurd hn (Nat.not_lt_zero _)
  | succ n ih =>
    rcases bind_error h with h | ⟨r, u, hround, h⟩
    · exact substitutionRound_error he hs hsig h
    · obtain ⟨d, ts, hlater, hne⟩ := substitutionRound_ok he hs hsig hround
      have hlt := hs.ahead_lt hlater.holds hlater.reads hne
      cases r with
      | inl y =>
        exact (ih (by omega) hlater.holds hlater.significant h).after hlater.depth_eq
          hlater.noIn_eq fun h => hlt.trans h
      | inr b => cases h

/-- A template takes its pieces, and what is substituted between them. -/
theorem templateLiteral (hsig : s.token.Significant) :
    Runs text k stage always s (Grammar.templateLiteral g) := by
  constructor
  · intro c n t hs h
    obtain ⟨start, _, hpos, h⟩ := bind_ok h
    cases hpos
    obtain ⟨first, _, hcur, h⟩ := bind_ok h
    cases hcur
    split at h
    · obtain ⟨bound, _, hrounds, h⟩ := bind_ok h
      cases hrounds
      obtain ⟨parts, u, hsub, h⟩ := bind_ok h
      rw [substitutions_eq] at hsub
      obtain ⟨d, ts, hlater⟩ := substitutions_ok he hs.holds hsig hsub
      cases h
      exact ⟨_, ts ++ [u.token], ⟨hlater.holds.taken,
        hlater.reads.append (.single hlater.holds.token hlater.significant), hlater.depth_eq,
        hlater.noIn_eq⟩, fun _ => by simp⟩
    · cases h
      exact ⟨_, _, later_advance hs hsig, fun _ => List.cons_ne_nil _ _⟩
  · intro c e t hs h
    rcases bind_error h with h | ⟨start, _, hpos, h⟩
    · cases h
    cases hpos
    rcases bind_error h with h | ⟨first, _, hcur, h⟩
    · cases h
    cases hcur
    split at h
    · rcases bind_error h with h | ⟨bound, _, hrounds, h⟩
      · cases h
      cases hrounds
      rcases bind_error h with h | ⟨parts, u, hsub, h⟩
      · rw [substitutions_eq] at h
        exact substitutions_error he (Nat.lt_succ_self _) hs.holds hsig h
      · cases h
    · cases h

end Substitutions

end Anew

end Runs

end ModuleBundler.Grammar

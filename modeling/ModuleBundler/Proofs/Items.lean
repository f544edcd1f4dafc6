import ModuleBundler.Proofs.Rules
import ModuleBundler.Proofs.Spans

/-!
# ModuleBundler — where the items of a module lie

An item of a module reaches from the beginning of its first token to the end of
its last one. The declaration in an export begins later, but it begins as a
token does, too.

* `TokenWithin` — an offset where a token begins that is neither the end of the
  text nor a fault.
* `Exports` — the declaration in an export.
* `WordsFrom` — the words in front of it.
* `ItemLies`, `moduleItem_lies` — where an item lies, and what it exports.
-/

namespace ModuleBundler.Grammar

open Text (Cursor)

-- ---------------------------------------------------------------------------
-- Phrases of the grammar
-- ---------------------------------------------------------------------------

section Phrases

variable {text : String} {c d : Cursor} {s t : State} {n : Node}

/-- A reading of one round more is a rule over the reading before. -/
theorem read_ok {k : Nat} {phrase : Phrase} (h : read k phrase s = .ok n t) :
    ∃ k', rule (read k') phrase s = .ok n t := by
  cases k with
  | zero => cases h
  | succ k => exact ⟨k, h⟩

theorem makes_read_statement (k : Nat) : MakesHere (read k .statement) := by
  intro s n t h
  obtain ⟨k', h⟩ := read_ok h
  exact makes_statement h

theorem starts_read_assignment (k : Nat) : StartsHere (read k .assignment) := by
  intro s n t h
  obtain ⟨k', h⟩ := read_ok h
  exact starts_assignment h

/-- What `export default` exports begins at the current token. -/
theorem starts_defaultValue (k : Nat) : StartsHere (defaultValue (read k)) := by
  intro s n u h
  obtain ⟨token, _, hcur, h⟩ := bind_ok h
  cases hcur
  have hfunction : ∀ isAsync nameRequired, Starts s.token.start.offset
      (functionDeclaration (read k) s.token.start.offset isAsync nameRequired) :=
    fun _ _ => .bind fun _ => .nodeFrom _
  generalize s.token.kind = kind at h
  split at h
  · exact hfunction _ _ h
  · exact StartsHere.position (fun _ => .bind fun _ => .nodeFrom _) h
  · split at h
    · exact Starts.bind (fun _ => hfunction _ _) h
    · obtain ⟨e, t, he, h⟩ := bind_ok h
      obtain ⟨v, hv, rfl⟩ := withIn_ok he
      obtain ⟨_, w, -, h⟩ := bind_ok h
      cases h
      have hstart := starts_read_assignment k hv
      exact hstart

-- ---------------------------------------------------------------------------
-- Items
-- ---------------------------------------------------------------------------

/-- Where a token begins that is taken later. -/
structure TokenWithin (text : String) (start : Nat) (c : Cursor) (stop : Nat) : Prop where
  before : (Cursor.start text).Before c
  significant : (Token.after c).Significant
  start_eq : start = (Token.after c).start.offset
  lt : (Token.after c).start.offset < stop

/-- A node that a rule makes begins with a token that the rule takes. -/
theorem tokenWithin_of_ok {k : Nat} {stage : Stage} {p : Parser Node}
    (hruns : Runs text k stage always s p) (hstarts : StartsHere p) (hs : s.StandsAfter text c)
    (h : p s = .ok n t) : TokenWithin text n.span.start c t.lastStop := by
  obtain ⟨d, ts, hlater, htaken⟩ := hruns.ok hs h
  have hne := htaken rfl
  refine ⟨hs.before, hlater.reads.significant hne, ?_, ?_⟩
  · rw [hstarts h, hs.token_eq]
  · rw [hlater.stands.lastStop_eq]
    exact hlater.reads.lt hne

/-- What is exported, with the meaning it has without the words in front. -/
def Exports (n declaration : Node) : Prop :=
  (∃ specifiers source, n.form = .exportNamed (some declaration) specifiers source) ∨
    n.form = .exportDefault declaration

/-- Keywords that are read one after the other, the first one at a token, up to a cursor. -/
inductive WordsFrom : Token → List Keyword → Cursor → Prop
  | last {t : Token} {k : Keyword} (h : t.kind = .word k) : WordsFrom t [k] t.stop
  | more {t : Token} {k : Keyword} {ks : List Keyword} {c : Cursor} (h : t.kind = .word k)
    (rest : WordsFrom t.next ks c) : WordsFrom t (k :: ks) c

/-- The words in front of what an export declaration exports. -/
def exportWords (n : Node) : List Keyword :=
  match n.form with
  | .exportDefault _ => [.exportKw, .defaultKw]
  | _ => [.exportKw]

theorem not_exports {start stop : Nat} {form : Form Node} {declaration : Node}
    (hnamed : ∀ d specifiers source, form ≠ .exportNamed (some d) specifiers source)
    (hdefault : ∀ d, form ≠ .exportDefault d) :
    ¬Exports (.mk ⟨start, stop⟩ form) declaration := by
  rintro (⟨specifiers, source, h⟩ | h)
  · exact hnamed _ _ _ h
  · exact hdefault _ h

/-- An exported declaration is a statement. -/
theorem exportedDeclaration_lies {k start : Nat} (hs : s.StandsAfter text c)
    (h : exportedDeclaration (read k) start s = .ok n t) :
    n.span = ⟨start, t.lastStop⟩ ∧ exportWords n = [.exportKw] ∧
      ∀ declaration, Exports n declaration →
        TokenWithin text declaration.span.start c t.lastStop := by
  obtain ⟨declaration, u, hd, h⟩ := bind_ok h
  cases h
  refine ⟨rfl, rfl, ?_⟩
  rintro _ (⟨specifiers, source, hform⟩ | hform)
  · obtain ⟨hsome, -, -⟩ := Form.exportNamed.inj hform
    obtain rfl := Option.some.inj hsome
    refine tokenWithin_of_ok (.read k _ s) ?_ hs hd
    intro s n t h
    rw [(makes_read_statement k h).1]
  · cases hform

theorem exportAll_lies {start : Nat} (h : exportAll start s = .ok n t) :
    n.span = ⟨start, t.lastStop⟩ ∧ ∀ declaration, ¬Exports n declaration := by
  have hend : ∀ {exported u}, (do
      let source ← fromClause
      nodeFrom start (.exportAll exported source) : Parser Node) u = .ok n t →
      n.span = ⟨start, t.lastStop⟩ ∧ ∀ declaration, ¬Exports n declaration := by
    intro exported u h
    obtain ⟨source, v, -, h⟩ := bind_ok h
    cases h
    exact ⟨rfl, fun _ => not_exports nofun nofun⟩
  obtain ⟨_, u, -, h⟩ := bind_ok h
  obtain ⟨named, v, -, h⟩ := bind_ok h
  split at h
  · obtain ⟨exported, w, -, h⟩ := bind_ok h
    exact hend h
  · obtain ⟨exported, w, -, h⟩ := bind_ok h
    exact hend h

theorem exportList_lies {start : Nat} (h : exportList start s = .ok n t) :
    n.span = ⟨start, t.lastStop⟩ ∧ ∀ declaration, ¬Exports n declaration := by
  obtain ⟨_, u, -, h⟩ := bind_ok h
  obtain ⟨specifiers, v, -, h⟩ := bind_ok h
  obtain ⟨_, w, -, h⟩ := bind_ok h
  obtain ⟨hasSource, w, -, h⟩ := bind_ok h
  split at h
  · obtain ⟨source, x, -, h⟩ := bind_ok h
    cases h
    exact ⟨rfl, fun _ => not_exports nofun nofun⟩
  · obtain ⟨_, x, -, h⟩ := bind_ok h
    cases h
    exact ⟨rfl, fun _ => not_exports nofun nofun⟩

theorem exportDeclaration_lies {k : Nat} (hs : s.StandsAfter text c)
    (h : exportDeclaration (read k) s = .ok n t) :
    n.span = ⟨s.token.start.offset, t.lastStop⟩ ∧ ∀ declaration, Exports n declaration →
      ∃ e, s.token.start.Before e ∧ WordsFrom s.token (exportWords n) e ∧
        TokenWithin text declaration.span.start e t.lastStop := by
  obtain ⟨start, _, hpos, h⟩ := bind_ok h
  cases hpos
  obtain ⟨_, u, hexport, h⟩ := bind_ok h
  obtain ⟨hkind, rfl⟩ := expect_ok hexport
  obtain ⟨token, _, hcur, h⟩ := bind_ok h
  cases hcur
  have hu := later_advance hs (.of_kind_eq hkind rfl)
  have hdeclaration : ∀ {m}, exportedDeclaration (read k) s.token.start.offset
      { s with token := s.token.next, lastStop := s.token.stop.offset } = .ok m t →
      m.span = ⟨s.token.start.offset, t.lastStop⟩ ∧ ∀ declaration, Exports m declaration →
        ∃ e, s.token.start.Before e ∧ WordsFrom s.token (exportWords m) e ∧
          TokenWithin text declaration.span.start e t.lastStop := by
    intro m h
    obtain ⟨hspan, hwords, hexports⟩ := exportedDeclaration_lies hu.stands h
    rw [hwords]
    exact ⟨hspan, fun d hd => ⟨_, hs.holds.stop, .last hkind, hexports d hd⟩⟩
  dsimp only at h
  generalize hnext : s.token.next.kind = kind at h
  split at h
  · obtain ⟨hspan, hnone⟩ := exportAll_lies h
    exact ⟨hspan, fun d hd => absurd hd (hnone d)⟩
  · obtain ⟨hspan, hnone⟩ := exportList_lies h
    exact ⟨hspan, fun d hd => absurd hd (hnone d)⟩
  · obtain ⟨_, v, hadv, h⟩ := bind_ok h
    cases hadv
    obtain ⟨value, w, hvalue, h⟩ := bind_ok h
    cases h
    refine ⟨rfl, ?_⟩
    rintro _ (⟨specifiers, source, hform⟩ | hform)
    · cases hform
    · obtain rfl := Form.exportDefault.inj hform
      have hv := hu.stands.holds
      exact ⟨_, hs.holds.stop.trans (hv.start.trans hv.stop), .more hkind (.last hnext),
        tokenWithin_of_ok (.defaultValue fun phrase t => .read k phrase t) (starts_defaultValue k)
          hv.taken hvalue⟩
  · exact hdeclaration h
  · exact hdeclaration h
  · exact hdeclaration h
  · exact hdeclaration h
  · exact hdeclaration h
  · split at h
    · exact hdeclaration h
    · cases h
  · cases h

theorem importDeclaration_lies (h : importDeclaration s = .ok n t) :
    n.span = ⟨s.token.start.offset, t.lastStop⟩ ∧ ∀ declaration, ¬Exports n declaration := by
  obtain ⟨start, _, hpos, h⟩ := bind_ok h
  cases hpos
  obtain ⟨_, u, -, h⟩ := bind_ok h
  obtain ⟨bare, v, -, h⟩ := bind_ok h
  split at h
  · obtain ⟨source, w, -, h⟩ := bind_ok h
    obtain ⟨_, x, -, h⟩ := bind_ok h
    cases h
    exact ⟨rfl, fun _ => not_exports nofun nofun⟩
  · obtain ⟨specifiers, w, -, h⟩ := bind_ok h
    obtain ⟨source, x, -, h⟩ := bind_ok h
    cases h
    exact ⟨rfl, fun _ => not_exports nofun nofun⟩

/-- Where an item lies: from its first token to its last one, and likewise, but
beginning behind the words in front, what it exports. -/
structure ItemLies (text : String) (s t : State) (n : Node) : Prop where
  significant : s.token.Significant
  span_eq : n.span = ⟨s.token.start.offset, t.lastStop⟩
  exported : ∀ declaration, Exports n declaration →
    ∃ e, s.token.start.Before e ∧ WordsFrom s.token (exportWords n) e ∧
      TokenWithin text declaration.span.start e t.lastStop

theorem statement_lies {k : Nat} (hsig : s.token.Significant)
    (h : read k .statement s = .ok n t) : ItemLies text s t n := by
  obtain ⟨hspan, hform⟩ := makes_read_statement k h
  refine ⟨hsig, hspan, ?_⟩
  rintro d (⟨specifiers, source, hd⟩ | hd)
  · simp [Node.isLink, Node.isExport, hd] at hform
  · simp [Node.isLink, Node.isExport, hd] at hform

theorem moduleItem_lies {k : Nat} (hs : s.StandsAfter text c)
    (h : moduleItem (read k) s = .ok n t) : ItemLies text s t n := by
  have hsig : s.token.Significant := by
    obtain ⟨d, ts, hlater, htaken⟩ := (Runs.moduleItem fun phrase t => .read k phrase t).ok hs h
    rw [hs.token_eq]
    exact hlater.reads.significant (htaken rfl)
  obtain ⟨token, _, hcur, h⟩ := bind_ok h
  cases hcur
  generalize s.token.kind = kind at h
  split at h
  · split at h
    · exact statement_lies hsig h
    · obtain ⟨hspan, hnone⟩ := importDeclaration_lies h
      exact ⟨hsig, hspan, fun d hd => absurd hd (hnone d)⟩
  · obtain ⟨hspan, hexports⟩ := exportDeclaration_lies hs h
    exact ⟨hsig, hspan, hexports⟩
  · exact statement_lies hsig h

end Phrases

end ModuleBundler.Grammar

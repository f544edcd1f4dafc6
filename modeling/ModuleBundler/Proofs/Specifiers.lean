import ModuleBundler.Proofs.Collisions

/-!
# ModuleBundler — how the names of imports and exports are written

An import of a whole module imports the name `*`, which is not the name of anything: it
tells that the specifier begins with a star. A name of a list may also be written as a
string, and then it may be any text at all. So the name `*` of a specifier is either a
star or the text of a string, and which one it is can be seen from its first character.

* `TokenKind.Heads`, `Token.after_heads` — what tokens begin with.
* `ImportSpecifier.Written`, `ExportSpecifier.Written` — what the name `*` tells about how
  a specifier is written.
* `YieldsAt` — what holds of the results of a parser on a text.
* `Node.written_of_parse` — the specifiers of an accepted text are so.
-/

namespace ModuleBundler

open Text (Cursor Span)

-- ---------------------------------------------------------------------------
-- First characters
-- ---------------------------------------------------------------------------

/-- What a token of a kind may begin with, where it is of use here. Some kinds come only
from reading again. -/
def TokenKind.Heads (c : Char) : TokenKind → Prop
  | .string => c = '"' ∨ c = '\''
  | .name | .word _ => Text.isNameStart c = true
  | .punct p => p.text.toList.head? = some c
  | .regex | .templateMiddle | .templateTail => False
  | _ => True

theorem Punctuator.head?_of_ahead? {p : Punctuator} {n : Nat} {c : Char} {cs : List Char}
    (h : ahead? (c :: cs) = some (p, n)) : p.text.toList.head? = some c := by
  obtain ⟨-, hahead⟩ := ahead?_eq_some h
  cases htext : p.text.toList with
  | nil =>
    have hlength : p.text.length = 0 := by rw [← String.length_toList, htext, List.length_nil]
    exact absurd hlength p.text_ne_empty
  | cons d ds =>
    rw [htext, List.cons_prefix_cons] at hahead
    rw [hahead.1]
    rfl

theorem scanAt_heads (flags : TokenFlags) {c : Cursor} {ch : Char} {cs : List Char}
    (h : c.rest = ch :: cs) : (scanAt flags c).kind.Heads ch := by
  simp only [scanAt, h]
  split
  · case isTrue hquote =>
    rw [Bool.or_eq_true, decide_eq_true_eq, decide_eq_true_eq] at hquote
    unfold scanString
    dsimp only
    split
    · exact hquote
    · exact trivial
  split
  · unfold scanTemplate
    dsimp only
    split <;> exact trivial
  split
  · unfold scanNumber
    dsimp only
    split
    · exact trivial
    split
    · exact trivial
    split <;> exact trivial
  split
  · unfold scanPrivateName
    dsimp only
    split <;> exact trivial
  split
  · case isTrue hname =>
    unfold scanWord TokenKind.ofWord
    dsimp only
    split <;> exact hname
  · unfold scanPunctuator
    rw [h]
    split
    · exact Punctuator.head?_of_ahead? ‹_›
    · exact trivial

namespace Token

variable {c : Cursor}

/-- A token begins as its kind does. -/
theorem after_heads (h : (after c).Significant) :
    ∃ ch cs, (after c).start.rest = ch :: cs ∧ (after c).kind.Heads ch := by
  obtain ⟨hrest, flags, heq⟩ := after_significant h
  obtain ⟨ch, cs, hcs⟩ := List.exists_cons_of_ne_nil hrest
  refine ⟨ch, cs, ?_, ?_⟩
  · rw [heq, (scanAt_liesAt flags _).start_eq, hcs]
  · rw [heq]
    exact scanAt_heads flags hcs

/-- A word begins with a letter, in the text and in its value. -/
theorem value_ne_star (h : (after c).kind.isNameOrKeyword = true) : (after c).value ≠ "*" := by
  intro hstar
  obtain ⟨m, hm, hoff⟩ := (after_start_before c).exists_passed
  rw [(kind_of_isNameOrKeyword h).2] at hstar
  have hvalue : String.ofList m = "*" := (Text.textTo_eq hm hoff).symm.trans hstar
  obtain rfl : m = ['*'] := by
    rw [← String.toList_ofList (l := m), hvalue]
    rfl
  obtain ⟨ch, cs, hrest, hheads⟩ := after_heads (.of_kind TokenKind.isNameOrKeyword h rfl rfl)
  obtain rfl : '*' = ch := (List.cons.inj (hm.symm.trans hrest)).1
  have hname : Text.isNameStart '*' = true := by
    generalize (after c).kind = kind at h hheads
    cases kind <;> first | exact hheads | cases h
  exact absurd hname (by decide)

theorem isNameOrKeyword_of_isBindingName {t : Token} (h : t.isBindingName = true) :
    t.kind.isNameOrKeyword = true := by
  rcases kind_of_isBindingName h with hk | ⟨k, hk, -⟩ <;> rw [hk] <;> rfl

end Token

-- ---------------------------------------------------------------------------
-- Specifiers
-- ---------------------------------------------------------------------------

/-- A place in a text begins with a character. -/
def BeginsWith (text : String) (span : Span) (ch : Char) : Prop :=
  (Cursor.at text span.start).peek? = some ch

instance (text : String) (span : Span) (ch : Char) : Decidable (BeginsWith text span ch) :=
  inferInstanceAs (Decidable (_ = _))

/-- A place in a text begins with a quotation mark. -/
def BeginsQuoted (text : String) (span : Span) : Prop :=
  BeginsWith text span '"' ∨ BeginsWith text span '\''

/-- A specifier that imports a whole module: `* as`, and a name. -/
def ImportSpecifier.IsNamespace (text : String) (i : ImportSpecifier) : Prop :=
  BeginsWith text i.span '*'

instance (text : String) (i : ImportSpecifier) : Decidable (i.IsNamespace text) :=
  inferInstanceAs (Decidable (BeginsWith ..))

/-- What an import specifier tells about how it is written. -/
structure ImportSpecifier.Written (text : String) (i : ImportSpecifier) : Prop where
  imported_of_isNamespace : i.IsNamespace text → i.imported = "*"
  of_imported : i.imported = "*" → i.IsNamespace text ∨ BeginsQuoted text i.span
  localName_ne : i.localName ≠ "*"

/-- What a name of an export list tells about how it is written. -/
def ExportSpecifier.Written (text : String) (e : ExportSpecifier) : Prop :=
  e.localName = "*" → BeginsQuoted text e.span

/-- The specifiers of a node are as they tell. -/
def Node.Written (text : String) (n : Node) : Prop :=
  match n.form with
  | .importDeclaration specifiers _ => Each (ImportSpecifier.Written text) specifiers
  | .exportNamed _ specifiers _ => Each (ExportSpecifier.Written text) specifiers
  | _ => True

theorem Node.written_of_not_isLink {text : String} {n : Node} (h : n.isLink = false) :
    n.Written text := by
  obtain ⟨span, form⟩ := n
  cases form <;> first | exact trivial | cases h

namespace Grammar

theorem Yields.nodeFrom {P : Node → Prop} {start : Nat} {form : Form Node}
    (h : ∀ span, P (.mk span form)) : Yields P (Grammar.nodeFrom start form) := by
  intro s n t hn
  cases hn
  exact h _

-- ---------------------------------------------------------------------------
-- Results on a text
-- ---------------------------------------------------------------------------

/-- From a state on a text, a parser gives only results with a property. -/
structure YieldsAt {α : Type} (text : String) (P : α → Prop) (s : State) (p : Parser α) :
    Prop where
  ok : ∀ ⦃c x t⦄, s.StandsAfter text c → p s = .ok x t → P x

namespace YieldsAt

variable {text : String} {α β : Type} {P : α → Prop} {Q : β → Prop} {s : State} {p : Parser α}
  {takes : α → Bool}

/-- What is known of the cursor of a state may be used. -/
theorem standing (h : ∀ c, s.StandsAfter text c → YieldsAt text P s p) : YieldsAt text P s p :=
  ⟨fun c _ _ hs hx => (h c hs).ok hs hx⟩

theorem of_yields (h : Yields P p) : YieldsAt text P s p := ⟨fun _ _ _ _ hx => h hx⟩

theorem fail {fault : SyntaxFault} : YieldsAt text P s (Grammar.fail fault) :=
  ⟨fun _ _ _ _ h => nomatch h⟩

theorem done {v : State → α} (h : P (v s)) : YieldsAt text P s fun s => .ok (v s) s := by
  refine ⟨fun c x t hs hx => ?_⟩
  cases hx
  exact h

theorem pure {x : α} (h : P x) : YieldsAt text P s (Pure.pure x : Parser α) := done h

theorem look {v : State → α} {f : α → Parser β} (h : YieldsAt text Q s (f (v s))) :
    YieldsAt text Q s ((fun s => .ok (v s) s) >>= f) :=
  ⟨fun _ _ _ hs hy => h.ok hs hy⟩

theorem bind {f : α → Parser β} (hruns : Runs text 0 .inside takes s p) (hp : YieldsAt text P s p)
    (hf : ∀ x t, P x → YieldsAt text Q t (f x)) : YieldsAt text Q s (p >>= f) := by
  refine ⟨fun c y u hs h => ?_⟩
  obtain ⟨x, t, hx, hy⟩ := bind_ok h
  obtain ⟨d, ts, hlater, -⟩ := hruns.ok hs hx
  exact (hf x t (hp.ok hs hx)).ok hlater.stands hy

/-- A step whose result does not matter. -/
theorem skip {f : α → Parser β} (hruns : Runs text 0 .inside takes s p)
    (hf : ∀ x t, YieldsAt text Q t (f x)) : YieldsAt text Q s (p >>= f) :=
  .bind (P := fun _ => True) hruns ⟨fun _ _ _ _ _ => trivial⟩ fun x t _ => hf x t

theorem ite {c : Prop} [Decidable c] {p q : Parser α} (hp : c → YieldsAt text P s p)
    (hq : ¬c → YieldsAt text P s q) : YieldsAt text P s (if c then p else q) := by
  split
  · exact hp ‹_›
  · exact hq ‹_›

theorem map {f : α → β} (hp : YieldsAt text P s p) (hf : ∀ x, P x → Q (f x)) :
    YieldsAt text Q s (f <$> p) := by
  refine ⟨fun c y t hs h => ?_⟩
  rw [map_eq_pure_bind] at h
  obtain ⟨x, u, hx, h⟩ := bind_ok h
  cases h
  exact hf x (hp.ok hs hx)

/-- A loop whose rounds keep what is known of all that they gather. -/
theorem loop {σ : Type} {R : σ → Prop} {round : σ → Parser (σ ⊕ β)} {takes : σ ⊕ β → Bool}
    (hruns : ∀ x t, Runs text 0 .inside takes t (round x))
    (hround : ∀ x t, R x → YieldsAt text (Sum.elim R Q) t (round x)) {n : Nat} {x : σ}
    (hx : R x) : YieldsAt text Q s (Grammar.loop round n x) := by
  induction n generalizing s x with
  | zero => exact ⟨fun _ _ _ _ h => nomatch h⟩
  | succ n ih =>
    refine .bind (hruns x s) (hround x s hx) fun r t hr => ?_
    cases r with
    | inl y => exact ih hr
    | inr b => exact .pure hr

/-- A list all of whose entries have a property. -/
theorem listUntil {closing : Punctuator} {item : Parser α}
    (hruns : ∀ t, Runs text 0 .inside always t item) (hitem : ∀ t, YieldsAt text P t item) :
    YieldsAt text (Each P) s (Grammar.listUntil closing (.plain <$> item)) := by
  have hentry : ∀ t, Runs text 0 .inside always t (Entry.plain <$> item) :=
    fun t => .map (hruns t) _
  refine .look ?_
  rw [listUntil_go_eq]
  refine .loop (fun acc _ => .listRound hentry acc) (fun acc t hacc => ?_) (each_nil (Q := P))
  refine .look <| .ite (fun _ => .pure (each_reverse.2 hacc)) fun _ => ?_
  refine .bind (P := fun e => ∃ x, e = .plain x ∧ P x) (hentry t)
    (.map (hitem t) fun x hx => ⟨x, rfl, hx⟩) fun e u he => ?_
  obtain ⟨x, rfl, hx⟩ := he
  have hmore : Each P (x :: acc) := each_cons.2 ⟨hx, hacc⟩
  exact .look <| .ite (fun _ => .skip (.expect rfl) fun _ _ => .pure hmore) fun _ => .pure hmore

end YieldsAt

-- ---------------------------------------------------------------------------
-- Names
-- ---------------------------------------------------------------------------

section Names

variable {text : String} {c : Cursor} {s : State}

theorem beginsWith_token (hs : s.StandsAfter text c) {stop : Nat} {ch : Char} :
    BeginsWith text ⟨s.token.start.offset, stop⟩ ch ↔ s.token.start.peek? = some ch := by
  rw [BeginsWith, hs.token_eq, Cursor.at_offset (hs.before.trans (Token.before_after_start c))]

/-- What may be seen of the current token. -/
theorem heads_token (hs : s.StandsAfter text c) (hsig : s.token.Significant) :
    ∃ ch, s.token.start.peek? = some ch ∧ s.token.kind.Heads ch := by
  rw [hs.token_eq] at hsig ⊢
  obtain ⟨ch, cs, hrest, hheads⟩ := Token.after_heads hsig
  exact ⟨ch, by rw [Cursor.peek?, hrest]; rfl, hheads⟩

theorem not_beginsWith_star (hs : s.StandsAfter text c) {stop : Nat}
    (h : s.token.kind = .string ∨ s.token.kind.isNameOrKeyword = true) :
    ¬ BeginsWith text ⟨s.token.start.offset, stop⟩ '*' := by
  have hsig : s.token.Significant :=
    h.elim (.of_kind_eq · rfl) (.of_kind TokenKind.isNameOrKeyword · rfl rfl)
  obtain ⟨ch, hpeek, hheads⟩ := heads_token hs hsig
  rw [beginsWith_token hs, hpeek]
  intro hstar
  obtain rfl : ch = '*' := Option.some.inj hstar
  rcases h with hk | hk
  · rw [hk] at hheads
    rcases hheads with h | h <;> exact absurd h (by decide)
  · have hname : Text.isNameStart '*' = true := by
      generalize s.token.kind = kind at hk hheads
      cases kind <;> first | exact hheads | cases hk
    exact absurd hname (by decide)

theorem yieldsAt_bindingName : YieldsAt text (· ≠ "*") s bindingName := by
  refine ⟨fun c x t hs h => ?_⟩
  obtain ⟨_, _, hcur, h⟩ := bind_ok h
  cases hcur
  split at h
  · rename_i hbinding
    cases h
    rw [hs.token_eq] at hbinding ⊢
    exact Token.value_ne_star (Token.isNameOrKeyword_of_isBindingName hbinding)
  · cases h

/-- A name of a list that begins at a token does not begin with a star, and it is a star
only if it is a string. -/
structure NameWritten (text : String) (t : Token) (name : String) : Prop where
  not_star : ∀ stop, ¬ BeginsWith text ⟨t.start.offset, stop⟩ '*'
  quoted : name = "*" → ∀ stop, BeginsQuoted text ⟨t.start.offset, stop⟩
  binding : t.isBindingName = true → name ≠ "*"

theorem yieldsAt_exportName : YieldsAt text (NameWritten text s.token) s exportName := by
  refine ⟨fun c x t hs h => ?_⟩
  obtain ⟨_, _, hat, h⟩ := bind_ok h
  cases hat
  split at h
  · rename_i hstring
    have hkind : s.token.kind = .string := of_decide_eq_true hstring
    refine ⟨fun _ => not_beginsWith_star hs (.inl hkind), fun _ stop => ?_, fun hbinding => ?_⟩
    · obtain ⟨ch, hpeek, hheads⟩ := heads_token hs (.of_kind_eq hkind rfl)
      rw [hkind] at hheads
      rw [BeginsQuoted, beginsWith_token hs, beginsWith_token hs, hpeek]
      exact hheads.imp (congrArg some) (congrArg some)
    · have hword := Token.isNameOrKeyword_of_isBindingName hbinding
      rw [hkind] at hword
      cases hword
  · obtain ⟨_, _, hk, h⟩ := bind_ok h
    cases hk
    split at h
    · rename_i hword
      cases h
      have hvalue : s.token.value ≠ "*" := by
        rw [hs.token_eq] at hword ⊢
        exact Token.value_ne_star hword
      exact ⟨fun _ => not_beginsWith_star hs (.inr hword), fun h => absurd h hvalue,
        fun _ => hvalue⟩
    · cases h

-- ---------------------------------------------------------------------------
-- Declarations
-- ---------------------------------------------------------------------------

theorem yieldsAt_importSpecifier :
    YieldsAt text (ImportSpecifier.Written text) s importSpecifier := by
  refine .look <| .look <| .bind .exportName yieldsAt_exportName fun imported t himported => ?_
  have hwritten : ∀ {localName : String} {u : State}, localName ≠ "*" →
      YieldsAt text (ImportSpecifier.Written text) u
        (importSpecifierFrom s.token.start.offset imported localName) := fun hne =>
    .done ⟨fun hstar => absurd hstar (himported.not_star _),
      fun hstar => .inr (himported.quoted hstar _), hne⟩
  refine .skip (.accept rfl) fun taken u => .ite (fun _ => ?_) fun _ =>
    .ite (fun hbinding => ?_) fun _ => .fail
  · exact .bind .bindingName yieldsAt_bindingName fun _ _ hname => hwritten hname
  · exact hwritten (himported.binding hbinding)

theorem yieldsAt_namedImports :
    YieldsAt text (Each (ImportSpecifier.Written text)) s namedImports :=
  .skip (.expect rfl) fun _ _ =>
    .bind (.listUntil fun _ => .map .importSpecifier _)
      (.listUntil (fun _ => .importSpecifier) fun _ => yieldsAt_importSpecifier) fun _ _ h =>
      .skip (.expect rfl) fun _ _ => .pure h

theorem yieldsAt_namespaceImport (hstar : s.token.kind = .punct .star) :
    YieldsAt text (ImportSpecifier.Written text) s namespaceImport := by
  refine .standing fun c hs => ?_
  have hbegins : ∀ stop, BeginsWith text ⟨s.token.start.offset, stop⟩ '*' := by
    intro stop
    obtain ⟨ch, hpeek, hheads⟩ := heads_token hs (.of_kind_eq hstar rfl)
    rw [hstar] at hheads
    rw [beginsWith_token hs, hpeek]
    exact hheads.symm
  refine .look <| .skip (.advance (.of_kind_eq hstar rfl)) fun _ _ => .skip (.expect rfl)
    fun _ _ => .bind .bindingName yieldsAt_bindingName fun _ _ hname => .done ?_
  exact ⟨fun _ => rfl, fun _ => .inl (hbegins _), hname⟩

theorem yieldsAt_furtherImports :
    YieldsAt text (Each (ImportSpecifier.Written text)) s furtherImports := by
  refine .look ?_
  split
  · case _ hk => exact .map (yieldsAt_namespaceImport hk) fun _ h => by simpa using h
  · exact yieldsAt_namedImports
  · exact .fail

theorem yieldsAt_importSpecifiers :
    YieldsAt text (Each (ImportSpecifier.Written text)) s importSpecifiers := by
  refine .look <| .ite (fun hbinding => .look <| .standing fun c hs => ?_)
    fun _ => yieldsAt_furtherImports
  have hdefault : "default" ≠ "*" := by decide
  have hfirst : ∀ {localName stop}, localName ≠ "*" → ImportSpecifier.Written text
      ⟨"default", localName, ⟨s.token.start.offset, stop⟩⟩ := fun hne =>
    ⟨fun hstar => absurd hstar
        (not_beginsWith_star hs (.inr (Token.isNameOrKeyword_of_isBindingName hbinding))),
      fun hstar => absurd hstar hdefault, hne⟩
  refine .bind .bindingName yieldsAt_bindingName fun localName u hname => ?_
  refine .bind (P := ImportSpecifier.Written text) .done (.done (hfirst hname)) fun i v hi => ?_
  refine .skip (.accept rfl) fun taken w => .ite (fun _ => ?_) fun _ => .pure (by simpa using hi)
  exact .bind .furtherImports yieldsAt_furtherImports fun is _ his =>
    .pure (each_cons.2 ⟨hi, his⟩)

theorem yieldsAt_importDeclaration :
    YieldsAt text (Node.Written text) s importDeclaration :=
  .look <| .skip (.expect rfl) fun _ _ => .look <| .ite
    (fun _ => .skip .stringText fun _ _ => .skip .endOfStatement fun _ _ => .done each_nil)
    fun _ => .bind .importSpecifiers yieldsAt_importSpecifiers fun _ _ h =>
      .skip .fromClause fun _ _ => .done h

theorem yieldsAt_exportSpecifier :
    YieldsAt text (ExportSpecifier.Written text) s exportSpecifier := by
  refine .look <| .bind .exportName yieldsAt_exportName fun localName t hname => ?_
  have hwritten : ∀ {exported : String} {u : State}, YieldsAt text (ExportSpecifier.Written text) u
      fun s' => .ok ⟨localName, exported, ⟨s.token.start.offset, s'.lastStop⟩⟩ s' :=
    .done (P := ExportSpecifier.Written text) fun hstar => hname.quoted hstar _
  exact .skip (.accept rfl) fun taken u => .ite
    (fun _ => .skip .exportName fun _ _ => hwritten) fun _ => hwritten

theorem yieldsAt_exportList (start : Nat) :
    YieldsAt text (Node.Written text) s (exportList start) :=
  .skip (.expect rfl) fun _ _ =>
    .bind (.listUntil fun _ => .map .exportSpecifier _)
      (.listUntil (fun _ => .exportSpecifier) fun _ => yieldsAt_exportSpecifier) fun _ _ h =>
    .skip (.expect rfl) fun _ _ => .look <| .ite
      (fun _ => .skip .fromClause fun _ _ => .done h)
      fun _ => .skip .endOfStatement fun _ _ => .done h

end Names

section Items

variable {text : String} {s : State} {k : Nat}

theorem written_exportAll {start : Nat} : Yields (Node.Written text) (exportAll start) := by
  have hsource : ∀ exported, Yields (Node.Written text) (do
      let source ← fromClause
      nodeFrom start (.exportAll exported source)) :=
    fun _ => .next fun _ => .nodeFrom fun _ => trivial
  exact .next fun _ => .next fun _ => .ite (.next fun _ => hsource _) (hsource _)

theorem yieldsAt_exportDeclaration :
    YieldsAt text (Node.Written text) s (exportDeclaration (read k)) := by
  refine .look <| .skip (.expect rfl) fun _ t => .look ?_
  have hdeclaration : ∀ start, Yields (Node.Written text) (exportedDeclaration (read k) start) :=
    fun _ => .next fun _ => .nodeFrom fun _ => each_nil
  split
  · exact .of_yields written_exportAll
  · exact yieldsAt_exportList _
  · exact .of_yields (.next fun _ => .next fun _ => .nodeFrom fun _ => trivial)
  · exact .of_yields (hdeclaration _)
  · exact .of_yields (hdeclaration _)
  · exact .of_yields (hdeclaration _)
  · exact .of_yields (hdeclaration _)
  · exact .of_yields (hdeclaration _)
  · exact .ite (fun _ => .of_yields (hdeclaration _)) fun _ => .fail
  · exact .fail

theorem yieldsAt_moduleItem : YieldsAt text (Node.Written text) s (moduleItem (read k)) := by
  have hstatement : Yields (Node.Written text) (read k .statement) := fun _ _ _ h =>
    Node.written_of_not_isLink (makes_read_statement k h).2
  refine .look ?_
  split
  · exact .ite (fun _ => .of_yields hstatement) fun _ => yieldsAt_importDeclaration
  · exact yieldsAt_exportDeclaration
  · exact .of_yields hstatement

end Items

end Grammar

/-- The specifiers of all items of an accepted text are as they tell. -/
theorem Node.written_of_parse {text : String} {tree : Node} (h : Node.parse text = .ok tree)
    {body : List Node} (hbody : tree.form = .program body) {n : Node} (hn : n ∈ body) :
    n.Written text := by
  obtain ⟨ns, t, rfl, hchain, -⟩ := Grammar.parse_eq_ok.1 h
  obtain rfl : ns = body := Form.program.inj hbody
  obtain ⟨d, u, hd, hread⟩ := hchain.exists_read (.refl _) hn
  exact Grammar.yieldsAt_moduleItem.ok (Grammar.State.standsAfter_between hd) hread

/-- The specifiers of all statements of a module are as they tell. -/
theorem Statement.written_of_mem {text : String} {moduleId : Nat} {st : Statement}
    (hst : st ∈ statementsOf text moduleId) : st.node.Written text := by
  obtain ⟨tree, body, hparse, hbody, view, i, node, hnode, rfl⟩ := exists_ofNode_of_mem hst
  exact Node.written_of_parse hparse hbody hnode

end ModuleBundler

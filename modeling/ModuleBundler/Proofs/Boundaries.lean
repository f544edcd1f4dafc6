import ModuleBundler.Proofs.Programs
import ModuleBundler.Proofs.Shaking

/-!
# ModuleBundler — the boundaries of statements in a bundle

The statements of a bundle stand one below the other, and nothing but a line
break stands between them. That does not always end a statement: where the
text of one goes on with the first token of the next, the two are read as one.
So a bundle need not have the statements it was made of. Whether it does can be
told line by line, by reading one item where each text stands.

* `Divides` — a text whose statements are given texts.
* `separate` — whether each text is an item where it stands.
* `divides_iff` — the two are the same.
* `build_divides_iff` — which bundles have the statements they were made of, and
  `build_divides_iff_index`, one that has not.
-/

namespace ModuleBundler

open Grammar
open Text (Cursor slice slice_eq)
open String (utf8Len)

/-- Texts one below the other, each on lines of its own. -/
def lines (texts : List String) : String := String.join (texts.map (· ++ "\n"))

/-- A text that is a module whose statements are the given texts, in order. -/
def Divides (code : String) (texts : List String) : Prop :=
  ∃ tree, Node.parse code = .ok tree ∧ (tree.statements code).map (·.view.toText) = texts

/-- The item that is read next where another one stops. -/
def itemBehind (code : String) (stop : Nat) : Except Diagnostic Node :=
  match moduleItem (read (code.utf8ByteSize + 1)) (.between code (.at code stop)) with
  | .ok n _ => .ok n
  | .error d _ => .error d

/-- Whether the item that is read behind the line break before an offset, or at
the beginning, reaches from the offset over the given number of bytes. -/
def isItem (code : String) (start length : Nat) : Bool :=
  match itemBehind code (start - 1) with
  | .ok n => n.span = ⟨start, start + length⟩
  | .error _ => false

/-- Whether each of the texts that stand one below the other from an offset on is
an item of its own. -/
def separate (code : String) (start : Nat) : List String → Bool
  | [] => true
  | text :: texts =>
    isItem code start text.utf8ByteSize &&
      separate code (start + text.utf8ByteSize + 1) texts

-- ---------------------------------------------------------------------------
-- Lines
-- ---------------------------------------------------------------------------

theorem lines_cons (text : String) (texts : List String) :
    (lines (text :: texts)).toList = text.toList ++ '\n' :: (lines texts).toList := by
  rw [lines, List.map_cons, String.join_cons, String.toList_append, String.toList_append,
    List.append_assoc]
  rfl

/-- A cursor where an item stops, before a line that begins at an offset: it
stands before a line break, unless it is at the beginning. -/
structure BeforeLine (code : String) (c : Cursor) (start : Nat) (rest : List Char) : Prop where
  before : (Cursor.start code).Before c
  next : c = ⟨0, rest⟩ ∧ start = 0 ∨ c.rest = '\n' :: rest ∧ start = c.offset + 1

namespace BeforeLine

variable {code : String} {c : Cursor} {start : Nat} {rest : List Char}

theorem at_eq (h : BeforeLine code c start rest) : Cursor.at code (start - 1) = c := by
  have hstart : start - 1 = c.offset := by
    rcases h.next with ⟨rfl, rfl⟩ | ⟨-, rfl⟩
    · rfl
    · omega
  rw [hstart]
  exact Cursor.at_offset h.before

/-- A line that begins as a token does begins with the next token. -/
theorem start_eq (h : BeforeLine code c start rest) (hrest : Begins rest) :
    (Token.after c).start = ⟨start, rest⟩ := by
  rcases h.next with ⟨rfl, rfl⟩ | ⟨hline, rfl⟩
  · exact Token.start_after_of_begins hrest
  · have hc : c = ⟨c.offset, '\n' :: rest⟩ := by
      rw [← hline]
    rw [hc]
    exact Token.start_after_line hrest

/-- Behind the last line is the end of the text. -/
theorem ends (h : BeforeLine code c start []) : (Token.after c).kind = .endOfFile := by
  rcases h.next with ⟨rfl, -⟩ | ⟨hline, -⟩
  · exact Token.after_end 0
  · have hc : c = ⟨c.offset, ['\n']⟩ := by
      rw [← hline]
    rw [hc]
    exact Token.after_last_line _

section

variable {text : String} (h : BeforeLine code c start (text.toList ++ '\n' :: rest))
include h

/-- The end of a line stands before the next one. -/
theorem stop :
    BeforeLine code ⟨start + text.utf8ByteSize, '\n' :: rest⟩ (start + text.utf8ByteSize + 1)
      rest := by
  have hlen : utf8Len text.toList = text.utf8ByteSize := String.utf8Len_toList text
  refine ⟨h.before.trans ?_, .inr ⟨rfl, rfl⟩⟩
  rcases h.next with ⟨rfl, rfl⟩ | ⟨hline, rfl⟩
  · refine .of_passed rfl ?_
    rw [hlen]
  · refine .of_passed (m := '\n' :: text.toList) hline ?_
    rw [String.utf8Len_cons, hlen]
    show c.offset + 1 + text.utf8ByteSize = c.offset + (text.utf8ByteSize + 1)
    omega

/-- An item that is read before a line begins where the line does. -/
theorem item_span (htext : BeginsToken text) {k : Nat} {n : Node} {t : State}
    (hn : moduleItem (read k) (.between code c) = .ok n t) :
    ∃ d, t = .between code d ∧ (Cursor.start code).Before d ∧
      (Cursor.start code).Before ⟨start, text.toList ++ '\n' :: rest⟩ ∧ start < d.offset ∧
      n.span = ⟨start, d.offset⟩ := by
  obtain ⟨d, rfl, hcd, hlies, hlt⟩ := moduleItem_between h.before hn
  obtain ⟨hne, tail, htail⟩ := htext
  have hbegins : Begins (text.toList ++ '\n' :: rest) :=
    htail.append_newline (mt String.toList_eq_nil_iff.1 hne)
  have hstart := h.start_eq hbegins
  have hline := h.before.trans (Token.before_after_start c)
  rw [hstart] at hline hlt
  refine ⟨d, rfl, h.before.trans hcd, hline, hlt, ?_⟩
  rw [hlies.span_eq]
  show Text.Span.mk (Token.after c).start.offset d.offset = _
  rw [hstart]

/-- An item that is read before a line is the text of the line exactly if it
reaches over it, and then it stops where the line does. -/
theorem item_iff (htext : BeginsToken text) {k : Nat} {n : Node} {t : State}
    (hn : moduleItem (read k) (.between code c) = .ok n t) :
    (slice code n.span.start n.span.stop = text ↔
        n.span = ⟨start, start + text.utf8ByteSize⟩) ∧
      (n.span = ⟨start, start + text.utf8ByteSize⟩ →
        t = .between code ⟨start + text.utf8ByteSize, '\n' :: rest⟩) := by
  obtain ⟨d, rfl, hd, hline, hlt, hspan⟩ := h.item_span htext hn
  refine ⟨⟨?_, ?_⟩, ?_⟩
  · intro hslice
    obtain ⟨m, hm, hoff⟩ := (hline.of_offset_le hd hlt.le).exists_passed
    have hpassed := slice_eq hline hm hoff
    rw [hspan] at hslice
    rw [hslice] at hpassed
    rw [hspan, hoff, hpassed, String.utf8ByteSize_ofList]
  · intro heq
    have hoff : start + text.utf8ByteSize = start + utf8Len text.toList := by
      rw [String.utf8Len_toList]
    have hpassed := slice_eq (d := ⟨start + text.utf8ByteSize, '\n' :: rest⟩) hline rfl hoff
    rw [String.ofList_toList] at hpassed
    rw [heq]
    exact hpassed
  · intro heq
    rw [hspan] at heq
    rw [hd.eq_of_offset h.stop.before (congrArg Text.Span.stop heq)]

end

end BeforeLine

-- ---------------------------------------------------------------------------
-- Statements
-- ---------------------------------------------------------------------------

section

variable {code : String} {c : Cursor} {start : Nat} {rest : List Char} {texts : List String}

/-- The texts of the statements of a tree are the slices that its items reach
over. -/
theorem map_statements {span : Text.Span} {ns : List Node} {t : State} {k : Nat}
    (hc : (Cursor.start code).Before c)
    (h : Chain (moduleItem (read k)) (.between code c) ns t) :
    ((Node.mk span (.program ns)).statements code).map (·.view.toText) =
      ns.map fun n => slice code n.span.start n.span.stop := by
  show (ns.mapIdx (Statement.ofNode 0 (.whole code))).map (·.view.toText) = _
  refine List.ext_getElem? fun i => ?_
  rw [List.getElem?_map, List.getElem?_mapIdx, List.getElem?_map, Option.map_map]
  cases hn : ns[i]? with
  | none => rfl
  | some n =>
    obtain ⟨d, e, hd, he, hlies, hlt⟩ := h.mem_lies hc (List.mem_of_getElem? hn)
    show some (Statement.ofNode 0 (.whole code) i n).view.toText =
      some (slice code n.span.start n.span.stop)
    rw [Statement.view_eq hd he hlies hlt, hlies.span_eq]
    rfl

/-- An item stands over a line exactly if there is one that is the text of the
line. -/
theorem isItem_iff (h : BeforeLine code c start rest) (length : Nat) :
    isItem code start length = true ↔
      ∃ n t, moduleItem (read (code.utf8ByteSize + 1)) (.between code c) = .ok n t ∧
        n.span = ⟨start, start + length⟩ := by
  unfold isItem itemBehind
  rw [h.at_eq]
  cases moduleItem (read (code.utf8ByteSize + 1)) (.between code c) with
  | ok n t =>
    simp only [decide_eq_true_eq]
    refine ⟨fun hspan => ⟨n, t, rfl, hspan⟩, ?_⟩
    rintro ⟨n', t', heq, hspan⟩
    cases heq
    exact hspan
  | error d t =>
    refine ⟨nofun, ?_⟩
    rintro ⟨n, t', heq, -⟩
    cases heq

/-- Lines are read as the items that they are made of exactly if each of them is
an item where it stands. -/
theorem chain_iff (htexts : ∀ text ∈ texts, BeginsToken text)
    (h : BeforeLine code c start (lines texts).toList) :
    (∃ ns t, Chain (moduleItem (read (code.utf8ByteSize + 1))) (.between code c) ns t ∧
        t.token.kind = .endOfFile ∧
        ns.map (fun n => slice code n.span.start n.span.stop) = texts) ↔
      separate code start texts = true := by
  induction texts generalizing c start with
  | nil => exact ⟨fun _ => rfl, fun _ => ⟨[], _, .nil _, h.ends, rfl⟩⟩
  | cons text texts ih =>
    rw [lines_cons] at h
    have htext := htexts text (.head _)
    have hrest := ih (fun other hmem => htexts other (.tail _ hmem)) h.stop
    rw [separate, Bool.and_eq_true, isItem_iff h]
    constructor
    · rintro ⟨_, t, hchain, hends, hmap⟩
      cases hchain with
      | nil => cases hmap
      | @cons _ u _ n ns hn hchain =>
        obtain ⟨hslice, hmap⟩ := List.cons.inj hmap
        obtain ⟨hiff, hstop⟩ := h.item_iff htext hn
        have hspan := hiff.1 hslice
        rw [hstop hspan] at hchain
        exact ⟨⟨n, u, hn, hspan⟩, hrest.1 ⟨ns, t, hchain, hends, hmap⟩⟩
    · rintro ⟨⟨n, u, hn, hspan⟩, hseparate⟩
      obtain ⟨ns, t, hchain, hends, hmap⟩ := hrest.2 hseparate
      obtain ⟨hiff, hstop⟩ := h.item_iff htext hn
      rw [← hstop hspan] at hchain
      refine ⟨n :: ns, t, .cons hn hchain, hends, ?_⟩
      rw [List.map_cons, hiff.2 hspan, hmap]

/-- Lines that begin as tokens do are the statements of their text exactly if
each of them is an item where it stands. -/
theorem divides_iff (htexts : ∀ text ∈ texts, BeginsToken text) :
    Divides (lines texts) texts ↔ separate (lines texts) 0 texts = true := by
  have hstart : (Cursor.start (lines texts)).Before (Cursor.start (lines texts)) := .refl _
  rw [← chain_iff htexts ⟨hstart, .inl ⟨rfl, rfl⟩⟩]
  constructor
  · rintro ⟨tree, hparse, hmap⟩
    obtain ⟨ns, t, rfl, hchain, hends⟩ := parse_eq_ok.1 hparse
    rw [map_statements hstart hchain] at hmap
    exact ⟨ns, t, hchain, hends, hmap⟩
  · rintro ⟨ns, t, hchain, hends, hmap⟩
    refine ⟨_, parse_eq_ok.2 ⟨ns, t, rfl, hchain, hends⟩, ?_⟩
    rw [map_statements hstart hchain]
    exact hmap

end

-- ---------------------------------------------------------------------------
-- Bundles
-- ---------------------------------------------------------------------------

/-- The text that a statement of a module has in a bundle begins as a token
does. -/
theorem beginsToken_of_read {path : Path} {text : String} {id : Nat} {m : Module}
    {i : Nat} {st : Statement} (hm : Module.read path text id = .ok m)
    (hst : m.statement? i = some st) : BeginsToken st.emittedText := by
  unfold Module.read at hm
  split at hm
  · cases hm
  case _ tree hparse =>
  obtain ⟨ns, t, rfl, hchain, -⟩ := parse_eq_ok.1 hparse
  dsimp only at hm
  generalize hb : Bindings.ofStatements path _ = bindings at hm
  cases bindings with
  | error e => cases hm
  | ok bindings =>
    cases hm
    have hget : (ns.mapIdx (Statement.ofNode id (.whole text)))[i]? = some st := by
      rw [← List.getElem?_toArray]
      exact hst
    rw [List.getElem?_mapIdx] at hget
    obtain ⟨n, hn, rfl⟩ := Option.map_eq_some_iff.1 hget
    obtain ⟨d, e, hd, he, hlies, hlt⟩ := hchain.mem_lies (.refl _) (List.mem_of_getElem? hn)
    exact Statement.beginsToken_emittedText hd he hlies hlt

theorem Store.Holds.beginsToken {sources : Sources} {u : Store} {ref : StatementRef}
    {st : Statement} (h : u.Holds ref st) (hu : u.Coherent sources) :
    BeginsToken st.emittedText := by
  obtain ⟨m, hm, hst⟩ := h
  have hload := hu.loaded hm
  unfold Sources.moduleOf at hload
  cases htext : sources.read m.path with
  | error e =>
    rw [htext] at hload
    cases hload
  | ok text =>
    rw [htext] at hload
    exact beginsToken_of_read hload hst

theorem Store.Coherent.beginsToken_emittedText {sources : Sources} {u : Store}
    (hu : u.Coherent sources) {refs : List StatementRef} {sts : List Statement}
    (h : List.Forall₂ u.Holds refs sts) :
    ∀ text ∈ sts.map Statement.emittedText, BeginsToken text := by
  induction h with
  | nil => exact nofun
  | cons hholds _ ih =>
    intro text hmem
    rcases List.mem_cons.1 hmem with rfl | hmem
    · exact hholds.beginsToken hu
    · exact ih text hmem

/-- A bundle is made of the statements that its entry needs, one below the other.
Their texts are the statements of the bundle exactly if each of them is an item
where it stands. -/
theorem build_divides_iff (files : FileTable) {entry : Path} {code : String} {u : Store}
    (h : build files.sources entry .empty = .ok code u) :
    ∃ refs sts, entryRefs files.sources entry .empty = .ok refs u ∧
      List.Forall₂ u.Holds refs.toList sts ∧ code = lines (sts.map Statement.emittedText) ∧
      (Divides code (sts.map Statement.emittedText) ↔
        separate code 0 (sts.map Statement.emittedText) = true) := by
  have hspec := entryRefs_spec files.lawful_sources entry
  rw [build_eq] at h
  obtain ⟨refs, t, hrefs, hgenerate⟩ := Bundling.bind_eq_ok.1 h
  rw [hrefs] at hspec
  obtain ⟨hcoherent, -, hheld, -, -⟩ := hspec
  obtain ⟨sts, hsts, hok⟩ := generate_ok fun ref hr => hheld ref (Array.mem_toList_iff.1 hr)
  rw [hok] at hgenerate
  cases hgenerate
  have hlines : String.join (sts.map (·.emittedText ++ "\n")) =
      lines (sts.map Statement.emittedText) := by
    rw [lines, List.map_map]
    rfl
  refine ⟨refs, sts, hrefs, hsts, hlines, ?_⟩
  rw [hlines]
  exact divides_iff (hcoherent.beginsToken_emittedText hsts)

/-- Two statements with a list of exports between them, which a bundle drops. -/
def indexFiles : FileTable :=
  ⟨[(.ofText "a.js", .holds "let a = 1\nexport { a }\n[2]\n")]⟩

/-- The module of the two statements. -/
def indexModule : Module :=
  (indexFiles.sources.moduleOf (.ofText "a.js")).toOption.getD default

theorem moduleOf_index : indexFiles.sources.moduleOf (.ofText "a.js") = .ok indexModule :=
  eq_ok_of_isOk (by decide +kernel)

theorem entryRefs_index : ∃ u m,
    entryRefs indexFiles.sources (.ofText "a.js") .empty = .ok #[⟨0, 0⟩, ⟨0, 2⟩] u ∧
      u.modules[0]? = some m ∧ m.Alike indexModule := by
  obtain ⟨s, m, hf, hm, ha, hv⟩ := fetch_only rfl moduleOf_index
  have hcode : m.codeRefs 0 = [⟨0, 0⟩, ⟨0, 2⟩] := by
    rw [ha.codeRefs_eq]
    decide +kernel
  have hstatement : ∀ {i : Nat},
      (indexModule.statement? i).map Statement.dependsOn = some [] →
      ∃ st, m.statement? i = some st ∧ st.dependsOn = [] := by
    intro i h
    exact (ha.exists_statement_iff fun _ => .rfl).2 (Option.map_eq_some_iff.1 h)
  obtain ⟨first, hfirst, hnone⟩ := @hstatement 0 (by decide +kernel)
  obtain ⟨second, hsecond, hnone'⟩ := @hstatement 2 (by decide +kernel)
  let t := (s.visit ⟨0, 0⟩ .inProgress).visit ⟨0, 0⟩ .emitted
  have h₁ : expand indexFiles.sources ⟨0, 0⟩ s = .ok #[⟨0, 0⟩] t :=
    expand_of_dependsOn_nil ⟨m, hm, hfirst⟩ (hv _) hnone
  have h₂ : expand indexFiles.sources ⟨0, 2⟩ t =
      .ok #[⟨0, 2⟩] ((t.visit ⟨0, 2⟩ .inProgress).visit ⟨0, 2⟩ .emitted) :=
    expand_of_dependsOn_nil ⟨m, hm, hsecond⟩ (by simp [t, hv]) hnone'
  have hmodules : ((t.visit ⟨0, 2⟩ .inProgress).visit ⟨0, 2⟩ .emitted).modules[0]? = some m := by
    simp only [t, Store.modules_visit, hm]
  have hparts : (m.codeRefs 0).mapM (expand indexFiles.sources) s =
      .ok [#[⟨0, 0⟩], #[⟨0, 2⟩]] ((t.visit ⟨0, 2⟩ .inProgress).visit ⟨0, 2⟩ .emitted) := by
    rw [hcode]
    simp only [List.mapM_cons, List.mapM_nil, Bind.bind, EStateM.bind, h₁, h₂]
    rfl
  exact ⟨_, m, entryRefs_of_mapM hf hm hparts, hmodules, ha⟩

theorem build_divides_iff_index : ∃ code u sts,
    build indexFiles.sources (.ofText "a.js") .empty = .ok code u ∧
      List.Forall₂ u.Holds [⟨0, 0⟩, ⟨0, 2⟩] sts ∧
      sts.map Statement.emittedText = ["let a = 1", "[2]"] ∧ code = "let a = 1\n[2]\n" ∧
      ¬ Divides code (sts.map Statement.emittedText) := by
  obtain ⟨u, m, hrefs, hm, ha⟩ := entryRefs_index
  have htext : ∀ {i : Nat} {st : Statement} {text : String}, u.Holds ⟨0, i⟩ st →
      indexModule.emittedText? i = some text → st.emittedText = text := by
    rintro i st text ⟨n, hn, hst⟩ h
    obtain rfl := Option.some.inj (hm.symm.trans hn)
    obtain ⟨st', hst', rfl⟩ :=
      (ha.exists_statement_iff (P := (·.emittedText = text)) fun _ => .rfl).2
        (Option.map_eq_some_iff.1 h)
    rw [Option.some.inj (hst.symm.trans hst')]
  obtain ⟨code, hbuild⟩ := exists_build indexFiles.lawful_sources hrefs
  obtain ⟨refs, sts, hrefs', hsts, hcode, hiff⟩ := build_divides_iff indexFiles hbuild
  rw [hrefs] at hrefs'
  cases hrefs'
  have htexts : sts.map Statement.emittedText = ["let a = 1", "[2]"] := by
    cases hsts with
    | cons hfirst hrest =>
      cases hrest with
      | cons hsecond hnil =>
        cases hnil
        have hlet := htext hfirst (by decide +kernel : _ = some "let a = 1")
        have hindex := htext hsecond (by decide +kernel : _ = some "[2]")
        rw [List.map_cons, List.map_cons, List.map_nil, hlet, hindex]
  rw [htexts] at hcode
  have hlines : lines ["let a = 1", "[2]"] = "let a = 1\n[2]\n" := by decide +kernel
  rw [hlines] at hcode
  refine ⟨code, u, sts, hbuild, hsts, htexts, hcode, ?_⟩
  rw [hiff, htexts, hcode]
  -- the first line goes on in the second one
  decide +kernel

end ModuleBundler

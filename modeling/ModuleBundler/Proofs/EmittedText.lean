import ModuleBundler.Proofs.Accounts
import ModuleBundler.Proofs.Tables
import ModuleBundler.Proofs.Tiling

/-!
# ModuleBundler — what a statement has of its text in a bundle

A bundle gets the text of a statement, less the words in front of a declaration that it
exports. The words are taken away as a range of bytes, from the beginning of the
statement to that of the declaration, which two different rules of the grammar note. All
is well if the range holds these words, the spacing behind them and nothing else, and
ends between two characters.

* `SpacedWords` — keywords with spacing behind each of them.
* `Statement.EmittedFrom` — where the text for a bundle begins, by the kind of statement.
* `Module.emittedText_suffix` — the text for a bundle is all of the statement from there on.
-/

namespace ModuleBundler

open Text (Cursor slice_eq textTo_eq)
open Grammar
open String (utf8Len)

-- ---------------------------------------------------------------------------
-- Words and the spacing behind them
-- ---------------------------------------------------------------------------

/-- Keywords, each with spacing behind it, with some characters ahead. -/
inductive SpacedWords (ahead : List Char) : List Keyword → List Char → Prop
  | nil : SpacedWords ahead [] []
  | cons {k : Keyword} {ks : List Keyword} {spacing cs : List Char}
    (hspacing : Spacing (cs ++ ahead) spacing) (rest : SpacedWords ahead ks cs) :
    SpacedWords ahead (k :: ks) (k.text.toList ++ (spacing ++ cs))

/-- A keyword reaches over its letters. -/
theorem Token.passes_word {c : Cursor} {k : Keyword} (h : (Token.after c).kind = .word k) :
    (Token.after c).start.rest = k.text.toList ++ (Token.after c).stop.rest ∧
      (Token.after c).stop.offset = (Token.after c).start.offset + utf8Len k.text.toList := by
  obtain ⟨m, hm, hoff⟩ := (Token.after_start_before c).exists_passed
  have hword : (Token.after c).kind.isNameOrKeyword = true := by
    rw [h]
    rfl
  have htext : k.text = String.ofList m := by
    rw [← Token.value_of_word h, (Token.kind_of_isNameOrKeyword hword).2]
    exact textTo_eq hm hoff
  rw [htext, String.toList_ofList]
  exact ⟨hm, hoff⟩

/-- Between the first of some keywords and the token behind the last one there are these
keywords with spacing. -/
theorem Grammar.WordsFrom.passed {t : Token} {ks : List Keyword} {c d : Cursor}
    (h : WordsFrom t ks c) (ht : t = Token.after d) :
    ∃ cs, SpacedWords (Token.after c).start.rest ks cs ∧
      t.start.rest = cs ++ (Token.after c).start.rest ∧
      (Token.after c).start.offset = t.start.offset + utf8Len cs := by
  -- spacing behind a token is no interpreter line, which stands at the beginning only
  have hspacing : ∀ {d : Cursor} {k : Keyword}, (Token.after d).kind = .word k →
      ∃ spacing, Spacing (Token.after (Token.after d).stop).start.rest spacing ∧
        (Token.after d).stop.rest = spacing ++ (Token.after (Token.after d).stop).start.rest ∧
        (Token.after (Token.after d).stop).start.offset =
          (Token.after d).stop.offset + utf8Len spacing := by
    intro d k hk
    obtain ⟨spacing, hrest, hoff, hfrom, -⟩ := Token.after_passes (Token.after d).stop
    have hlt : (Token.after d).start.offset < (Token.after d).stop.offset :=
      Token.after_lt (.of_kind_eq hk rfl)
    exact ⟨spacing, hfrom.resolve_right fun h => by omega, hrest, hoff⟩
  induction h generalizing d with
  | @last t k hk =>
    subst ht
    obtain ⟨hword, hstop⟩ := Token.passes_word hk
    obtain ⟨spacing, hs, hrest, hoff⟩ := hspacing hk
    refine ⟨k.text.toList ++ (spacing ++ []), .cons hs .nil, ?_, ?_⟩
    · rw [hword, hrest, List.append_nil, List.append_assoc]
    · rw [hoff, hstop, List.append_nil, String.utf8Len_append]
      omega
  | @more t k ks c hk rest ih =>
    subst ht
    obtain ⟨cs, hcs, hnext, hlast⟩ := ih rfl
    rw [Token.next_eq] at hnext hlast
    obtain ⟨hword, hstop⟩ := Token.passes_word hk
    obtain ⟨spacing, hs, hrest, hoff⟩ := hspacing hk
    refine ⟨k.text.toList ++ (spacing ++ cs), .cons (hnext ▸ hs) hcs, ?_, ?_⟩
    · rw [hword, hrest, hnext, List.append_assoc, List.append_assoc]
    · rw [hlast, hoff, hstop, String.utf8Len_append, String.utf8Len_append]
      omega

-- ---------------------------------------------------------------------------
-- Statements
-- ---------------------------------------------------------------------------

namespace Statement

/-- Where the text of a statement for a bundle begins, and the words in front of that: an
exported declaration, or a default export of a named function or class, begins with the
declaration, and every other statement begins with itself. -/
inductive EmittedFrom (st : Statement) : Nat → List Keyword → Prop
  | declaration {d : Node} {specifiers : List ExportSpecifier} {source : Option String}
    (hform : st.node.form = .exportNamed (some d) specifiers source) :
    EmittedFrom st d.span.start [.exportKw]
  | default {d : Node} {name : String} (hform : st.node.form = .exportDefault d)
    (hname : d.declaredName? = some name) :
    EmittedFrom st d.span.start [.exportKw, .defaultKw]
  | whole (hnamed : ∀ d specifiers source, st.node.form ≠ .exportNamed (some d) specifiers source)
    (hdefault : ∀ d, st.node.form = .exportDefault d → d.declaredName? = none) :
    EmittedFrom st st.node.span.start []

/-- The declaration that a statement exports decides where its text for a bundle begins. -/
theorem emittedFrom_of_some {st : Statement} {declaration : Node}
    (h : st.exportedDeclaration? = some declaration) :
    st.EmittedFrom declaration.span.start (exportWords st.node) := by
  unfold exportedDeclaration? at h
  split at h
  · case _ hform =>
    subst h
    rw [exportWords, hform]
    exact .declaration hform
  · case _ d hform =>
    split at h
    · case isTrue hsome =>
      obtain rfl := Option.some.inj h
      obtain ⟨name, hname⟩ := Option.isSome_iff_exists.1 hsome
      rw [exportWords, hform]
      exact .default hform hname
    · cases h
  · cases h

theorem emittedFrom_of_none {st : Statement} (h : st.exportedDeclaration? = none) :
    st.EmittedFrom st.node.span.start [] := by
  refine .whole (fun d specifiers source hform => ?_) fun d hform => ?_
  · rw [exportedDeclaration?, hform] at h
    cases h
  · rw [exportedDeclaration?, hform] at h
    dsimp only at h
    cases hname : d.declaredName? with
    | none => rfl
    | some name =>
      rw [hname] at h
      cases h

/-- How the text of a statement for a bundle comes out of a text: words with the spacing behind
them are stripped, and all that is left of the statement is emitted. -/
structure Emits (text : String) (st : Statement) (start : Nat) (words : List Keyword)
    (stripped emitted ahead : List Char) : Prop where
  emittedFrom : st.EmittedFrom start words
  spacedWords : SpacedWords (emitted ++ ahead) words stripped
  stripped_between : Between text st.node.span.start start stripped (emitted ++ ahead)
  emitted_between : Between text start st.node.span.stop emitted ahead
  emitted_ne_nil : emitted ≠ []
  view_eq : st.view.toText = String.ofList (stripped ++ emitted)
  emittedText_eq : st.emittedText = String.ofList emitted

section

variable {text : String} {c d e : Cursor} {n : Node} {moduleId index : Nat}

/-- What stands from a token that is not at an offset yet, up to this offset. -/
theorem between_token (hc : (Cursor.start text).Before c) (he : (Cursor.start text).Before e)
    (hlt : (Token.after c).start.offset < e.offset) :
    ∃ cs, (Token.after c).start.rest = cs ++ e.rest ∧ cs ≠ [] ∧
      e.offset = (Token.after c).start.offset + utf8Len cs ∧
      Between text (Token.after c).start.offset e.offset cs e.rest := by
  have hstart := hc.trans (Token.before_after_start c)
  obtain ⟨cs, hcs, hoff⟩ := (hstart.of_offset_le he hlt.le).exists_passed
  refine ⟨cs, hcs, ?_, hoff, between_of_passed hstart hcs hoff⟩
  rintro rfl
  rw [String.utf8Len_nil] at hoff
  omega

/-- A statement without a declaration to export is emitted whole. -/
theorem emits_whole (hd : (Cursor.start text).Before d) (he : d.Before e)
    (h : ItemLies text (.between text d) (.between text e) n)
    (hlt : (Token.after d).start.offset < e.offset)
    (hexported : (ofNode moduleId (.whole text) index n).exportedDeclaration? = none) :
    ∃ start words stripped emitted ahead,
      (ofNode moduleId (.whole text) index n).Emits text start words stripped emitted ahead := by
  have hstart := hd.trans (Token.before_after_start d)
  obtain ⟨cs, hcs, hne, hoff, hbetween⟩ := between_token hd (hd.trans he) hlt
  have hnothing : Between text (Token.after d).start.offset (Token.after d).start.offset []
      (Token.after d).start.rest :=
    between_of_passed (d := (Token.after d).start) hstart rfl rfl
  have hspan : (ofNode moduleId (.whole text) index n).node.span =
      ⟨(Token.after d).start.offset, e.offset⟩ := h.span_eq
  have hview : (ofNode moduleId (.whole text) index n).view.toText = String.ofList cs :=
    (Statement.view_eq hd he h hlt).trans (slice_eq hstart hcs hoff)
  refine ⟨_, [], [], cs, e.rest, emittedFrom_of_none hexported, .nil, ?_, ?_, hne, hview, ?_⟩
  · rwa [hspan, ← hcs]
  · rwa [hspan]
  · rw [emittedText, hexported]
    exact hview

/-- A statement that exports a declaration is emitted without the words in front of it. -/
theorem emits_declaration (hd : (Cursor.start text).Before d) (he : d.Before e)
    (h : ItemLies text (.between text d) (.between text e) n)
    (hlt : (Token.after d).start.offset < e.offset) {declaration : Node}
    (hexported : (ofNode moduleId (.whole text) index n).exportedDeclaration? = some declaration) :
    ∃ start words stripped emitted ahead,
      (ofNode moduleId (.whole text) index n).Emits text start words stripped emitted ahead := by
  have hstart := hd.trans (Token.before_after_start d)
  obtain ⟨c, -, hwords, hwithin⟩ :=
    h.exported declaration (exports_of_exportedDeclaration? hexported)
  obtain ⟨stripped, hspaced, hrest, hstop⟩ := hwords.passed rfl
  obtain ⟨cs, hcs, hne, hoff, hbetween⟩ := between_token hwithin.before (hd.trans he) hwithin.lt
  have hstripped : Between text (Token.after d).start.offset (Token.after c).start.offset stripped
      (Token.after c).start.rest := between_of_passed hstart hrest hstop
  have hspan : (ofNode moduleId (.whole text) index n).node.span =
      ⟨(Token.after d).start.offset, e.offset⟩ := h.span_eq
  have hview : (ofNode moduleId (.whole text) index n).view.toText =
      String.ofList (stripped ++ cs) := by
    refine (Statement.view_eq hd he h hlt).trans (slice_eq hstart ?_ ?_)
    · rw [hcs] at hrest
      rw [List.append_assoc]
      exact hrest
    · rw [hoff, hstop, String.utf8Len_append]
      exact Nat.add_assoc ..
  have hfrom := emittedFrom_of_some hexported
  rw [hwithin.start_eq] at hfrom
  rw [hcs] at hspaced hstripped
  refine ⟨_, _, stripped, cs, e.rest, hfrom, hspaced, ?_, ?_, hne, hview, ?_⟩
  · rwa [hspan]
  · rwa [hspan]
  · rw [emittedText_of_declaration hd he h hexported, hwithin.start_eq]
    exact slice_eq (hwithin.before.trans (Token.before_after_start c)) hcs hoff

end

end Statement

/-- The text of a statement for a bundle is an exact suffix of it, in any module that can be
read: it begins with the declaration that the statement exports, or else with the statement,
and reaches to the end of the statement. It is not empty, and what is in front of it are the
exporting words and the spacing behind them. -/
theorem Module.emittedText_suffix {path : Path} {text : String} {id : Nat}
    {m : Module} (h : Module.read path text id = .ok m) {i : Nat} {st : Statement}
    (hst : m.statement? i = some st) :
    ∃ start words stripped emitted ahead, st.Emits text start words stripped emitted ahead ∧
      m.emittedText? i = some (String.ofList emitted) := by
  obtain ⟨program, hparse, -, -, hstatements, -⟩ := Module.read_eq_ok h
  obtain ⟨ns, t, rfl, hchain, -⟩ := parse_eq_ok.1 hparse
  have hat : (ns.mapIdx (Statement.ofNode id (.whole text)))[i]? = some st := by
    rw [Module.statement?, hstatements, List.getElem?_toArray] at hst
    exact hst
  rw [List.getElem?_mapIdx] at hat
  obtain ⟨n, hn, rfl⟩ := Option.map_eq_some_iff.1 hat
  obtain ⟨d, e, hd, he, hlies, hlt⟩ := hchain.mem_lies (.refl _) (List.mem_of_getElem? hn)
  have hemits : ∃ start words stripped emitted ahead,
      (Statement.ofNode id (.whole text) i n).Emits text start words stripped emitted ahead := by
    cases hexported : (Statement.ofNode id (.whole text) i n).exportedDeclaration? with
    | none => exact Statement.emits_whole hd he hlies hlt hexported
    | some declaration => exact Statement.emits_declaration hd he hlies hlt hexported
  obtain ⟨start, words, stripped, emitted, ahead, hemits⟩ := hemits
  refine ⟨start, words, stripped, emitted, ahead, hemits, ?_⟩
  rw [Module.emittedText?, hst, Option.map_some, hemits.emittedText_eq]

/-- A default export with letters of two bytes around the words in front and in the function. -/
def umlautText : String := "/* ä */ export /* ö */ default/* ü */function ß() { return ä; }"

theorem Module.emittedText_suffix_umlauts :
    ∃ m st, Module.read (.ofText "/m.js") umlautText = .ok m ∧ m.statement? 0 = some st ∧
      ∃ start words stripped ahead,
        st.Emits umlautText start words stripped "function ß() { return ä; }".toList ahead := by
  have htext : ∃ m ∈ (Module.read (.ofText "/m.js") umlautText).toOption,
      m.emittedText? 0 = some "function ß() { return ä; }" := by
    decide +kernel
  obtain ⟨m, hm, htext⟩ := htext
  have hread := eq_ok_of_mem_toOption hm
  obtain ⟨st, hst, -⟩ := Option.map_eq_some_iff.1 htext
  obtain ⟨start, words, stripped, emitted, ahead, hemits, hemitted⟩ :=
    Module.emittedText_suffix hread hst
  have heq : emitted = "function ß() { return ä; }".toList := by
    rw [Option.some.inj (htext.symm.trans hemitted), String.toList_ofList]
  exact ⟨m, st, hread, hst, start, words, stripped, ahead, heq ▸ hemits⟩

end ModuleBundler

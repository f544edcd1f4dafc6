import ModuleBundler.Proofs.Analysis
import ModuleBundler.Proofs.References

/-!
# ModuleBundler — no reserved word is bound

The tables of a module give the name `default` to a definition that has none. That is
safe because no statement defines a name that is spelled like a reserved word: what is
bound is an identifier of the tree, an identifier is a token that may be a name, and a
word that is reserved is never one.

* `Node.exists_identifier_of_outward` — what a node declares are names of its identifiers.
* `Node.identifierName_ne_reserved` — no identifier of an accepted text is a reserved word.
-/

namespace ModuleBundler

open Text (Cursor)

-- ---------------------------------------------------------------------------
-- Tokens
-- ---------------------------------------------------------------------------

theorem Keyword.ofText?_text (k : Keyword) : ofText? k.text = some k := by
  cases k <;> decide +kernel

/-- A token that may be a name is one, or a word that is not reserved. -/
theorem Token.kind_of_isBindingName {t : Token} (h : t.isBindingName = true) :
    t.kind = .name ∨ ∃ k : Keyword, t.kind = .word k ∧ k.isContextual = true := by
  unfold isBindingName at h
  split at h
  · exact .inl ‹_›
  · cases h
  · cases h
  · unfold TokenKind.isContextual at h
    split at h
    · case _ k hkind => exact .inr ⟨k, hkind, h⟩
    · cases h

/-- A token that may be a name is not spelled like a reserved word. -/
theorem Token.value_ne_of_isBindingName {c : Cursor} (h : (Token.after c).isBindingName = true)
    {k : Keyword} (hk : k.isContextual = false) : (Token.after c).value ≠ k.text := by
  intro hvalue
  have hcases := Token.kind_of_isBindingName h
  have hword : (Token.after c).kind.isNameOrKeyword = true := by
    rcases hcases with hkind | ⟨w, hkind, -⟩ <;> rw [hkind] <;> rfl
  have hkind : (Token.after c).kind = .word k := by
    rw [(Token.kind_of_isNameOrKeyword hword).1, hvalue, TokenKind.ofWord, Keyword.ofText?_text]
  rcases hcases with hname | ⟨w, hw, hcontextual⟩
  · exact nomatch hname.symm.trans hkind
  · obtain rfl : w = k := TokenKind.word.inj (hw.symm.trans hkind)
    exact nomatch hcontextual.symm.trans hk

/-- A token that was read again and may be a name was read as it is. -/
theorem Token.ReadBehind.eq_of_isBindingName {c : Cursor} {t : Token} (h : t.ReadBehind c)
    (ht : t.isBindingName = true) : t = Token.after c := by
  cases h with
  | next => rfl
  | regex =>
    unfold asRegex at ht ⊢
    split
    · case isTrue hk =>
      rw [if_pos hk] at ht
      dsimp only at ht
      split at ht <;> cases ht
    · rfl
  | template =>
    unfold asTemplate at ht ⊢
    split
    · case isTrue hk =>
      rw [if_pos hk] at ht
      unfold scanTemplate at ht
      dsimp only at ht
      split at ht <;> cases ht
    · rfl

theorem Reads.exists_readBehind {c d : Cursor} {ts : List Token} (h : Reads c ts d) {t : Token}
    (ht : t ∈ ts) : ∃ b, t.ReadBehind b := by
  induction h with
  | nil => exact nomatch ht
  | @cons c _ u _ token _ _ ih =>
    rcases List.mem_cons.1 ht with rfl | ht
    · exact ⟨c, token⟩
    · exact ih ht

/-- No identifier of an accepted text is spelled like a reserved word. -/
theorem Node.identifierName_ne_reserved {text : String} {tree : Node}
    (h : Node.parse text = .ok tree) {n : Node} (hn : n ∈ tree.identifiers) {name : String}
    (hname : n.identifierName? = some name) {k : Keyword} (hk : k.isContextual = false) :
    name ≠ k.text := by
  obtain ⟨uses, e, hreads, -, hspells⟩ := spells_parse h
  obtain ⟨u, hu, hrole, huname, -⟩ := hspells.exists_use hn
  obtain ⟨c, hbehind⟩ := hreads.exists_readBehind (List.mem_map.2 ⟨u, hu, rfl⟩)
  have hbinding := hspells.isBindingName hu hrole
  have hafter := hbehind.eq_of_isBindingName hbinding
  obtain rfl : name = u.token.value := Option.some.inj (hname.symm.trans huname)
  rw [hafter] at hbinding ⊢
  exact Token.value_ne_of_isBindingName hbinding hk

-- ---------------------------------------------------------------------------
-- Declarations
-- ---------------------------------------------------------------------------

namespace Node

/-- A name is that of an identifier of a tree. -/
def HasIdentifier (n : Node) (name : String) : Prop :=
  ∃ m ∈ n.identifiers, m.identifierName? = some name

theorem HasIdentifier.of_name {n : Node} {name : String} (h : n.identifierName? = some name) :
    n.HasIdentifier name := by
  refine ⟨n, ?_, h⟩
  rw [identifiers_eq, h]
  exact List.mem_cons_self

theorem HasIdentifier.of_kid {n c : Node} {name : String} (hc : c ∈ n.kids)
    (h : c.HasIdentifier name) : n.HasIdentifier name := by
  obtain ⟨m, hm, hname⟩ := h
  refine ⟨m, ?_, hname⟩
  rw [identifiers_eq]
  exact List.mem_append_right _ (List.mem_flatMap.2 ⟨c, hc, hm⟩)

/-- The names that a pattern binds are names of its identifiers. -/
theorem HasIdentifier.of_mem_boundNames {n : Node} {name : String} (h : name ∈ n.boundNames) :
    n.HasIdentifier name := by
  fun_induction boundNames n with
  | case1 n own hown =>
    rw [List.mem_singleton.1 h]
    exact .of_name hown
  | case2 n hown ih =>
    obtain ⟨c, -, hc⟩ := List.mem_flatMap.1 h
    exact (ih c hc).of_kid (mem_kids_of_mem_targets c.2)

theorem HasIdentifier.of_mem_ownName {n : Node} {own : Option Node} {name : String}
    (hown : ∀ c ∈ own, c ∈ n.kids) (h : name ∈ ownName own) : n.HasIdentifier name := by
  obtain ⟨c, hc, hname⟩ := Option.bind_eq_some_iff.1 (Option.mem_toList.1 h)
  exact (HasIdentifier.of_name hname).of_kid (hown c hc)

/-- What a node declares are names of its identifiers. -/
theorem HasIdentifier.of_mem_declares {n : Node} {name : String} (h : name ∈ n.declares.names) :
    n.HasIdentifier name := by
  obtain ⟨span, f⟩ := n
  cases f with
  | functionDeclaration f =>
    refine .of_mem_ownName (fun c hc => ?_) h
    rw [Option.mem_def] at hc
    simp [kids, form, Form.children, FunctionParts.children, hc]
  | classDeclaration c =>
    refine .of_mem_ownName (fun d hd => ?_) h
    rw [Option.mem_def] at hd
    simp [kids, form, Form.children, ClassParts.children, hd]
  | variableDeclaration kind ds =>
    obtain ⟨d, hd, hname⟩ := List.mem_flatMap.1 h
    have hkid : d ∈ (mk span (.variableDeclaration kind ds)).kids := by
      simpa [kids, form, Form.children] using hd
    refine HasIdentifier.of_kid hkid ?_
    obtain ⟨span, g⟩ := d
    cases g with
    | variableDeclarator target value =>
      exact (HasIdentifier.of_mem_boundNames hname).of_kid (by simp [kids, form, Form.children])
    | _ => cases hname
  | _ => cases h

/-- What leaves a node are names of its identifiers. -/
theorem exists_identifier_of_outward {n : Node} {d : DeclaredName}
    (h : d ∈ n.outward .hoisting) : n.HasIdentifier d.name := by
  suffices ∀ l : List Node, ∀ n ∈ l, d ∈ n.outward .hoisting → n.HasIdentifier d.name from
    this [n] n List.mem_cons_self h
  intro l
  induction l using forest_induction with
  | nil => exact fun _ hn => nomatch hn
  | cons root rest ihkids ihrest =>
    intro n hn h
    rcases List.mem_cons.1 hn with rfl | hn
    · rw [outward_eq, declared_hoisting] at h
      have hinner : d ∈ n.kids.flatMap (outward .hoisting) → n.HasIdentifier d.name := by
        intro hd
        obtain ⟨c, hc, hd⟩ := List.mem_flatMap.1 hd
        exact (ihkids c hc hd).of_kid hc
      rcases List.mem_append.1 h with h | h
      · obtain ⟨name, hname, rfl⟩ := List.mem_map.1 h
        exact .of_mem_declares hname
      · split at h
        · exact hinner h
        · exact hinner (List.mem_filter.1 h).1
    · exact ihrest n hn h

end Node

end ModuleBundler

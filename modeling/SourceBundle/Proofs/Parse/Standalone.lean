/-
The text of a declaration is a source file of its own: it parses to that
declaration and nothing else (`declaration_standalone`).

What stands at the front of a declaration is none of the other things
that a namespace holds (`startsTypeDeclaration_front`), so that the
reader of a namespace comes to the branch of declarations there.
-/
import SourceBundle.Proofs.Parse.Transplant

namespace SourceBundle

open List Parse Text

variable {source : List Char} {s u v : ParseState} {d : TypeDecl} {x y : Token} {l : List Token}
  {n : Nat} {braced topLevel : Bool}

-- ===== declarations ahead

/-- A token, before the next one, that starts nothing but a declaration or a statement. -/
structure StartsNoOther (x y : Token) : Prop where
  kind : x.kind ∉ [.eof, .rbrace, .usingKw, .namespaceKw, .semi]
  externAlias : (x.kind = .externKw && y.isWord "alias") = false
  global : x.isWord "global" = false

theorem startsNoOther_of_isTypeKeyword {next : Token} (h : x.isTypeKeyword next = true) :
    StartsNoOther x y := by
  unfold Token.isTypeKeyword at h
  split at h
  case h_6 hkind =>
    have htext : x.text = "record" := of_decide_eq_true (Bool.and_eq_true_iff.1 h).1
    refine ⟨by rw [hkind]; decide, by rw [hkind]; rfl, ?_⟩
    rw [Token.isWord, hkind, htext]
    decide
  case h_7 => cases h
  all_goals exact ⟨by rw [‹x.kind = _›]; decide, by rw [‹x.kind = _›]; rfl,
    by rw [Token.isWord, ‹x.kind = _›]; rfl⟩

theorem startsNoOther_of_isModifier {next : Token} (h : x.isModifier next = true)
    (hy : x.kind = .externKw → y.isWord "alias" = false) : StartsNoOther x y := by
  have hnot : (x.kind = .externKw && y.isWord "alias") = false := by
    by_cases houter : x.kind = .externKw
    · rw [hy houter, Bool.and_false]
    · rw [decide_eq_false houter, Bool.false_and]
  unfold Token.isModifier at h
  split at h
  case h_6 hkind =>
    refine ⟨by rw [hkind]; decide, hnot, ?_⟩
    rw [Token.isWord, Bool.and_eq_false_iff, decide_eq_false_iff_not, decide_eq_false_iff_not]
    refine .inr fun htext => ?_
    rw [htext] at h
    cases h
  case h_7 => cases h
  all_goals exact ⟨by rw [‹x.kind = _›]; decide, hnot, by rw [Token.isWord, ‹x.kind = _›]; rfl⟩

/-- The word that makes an extern alias is neither a modifier nor declares a type. -/
theorem not_alias_of_startsPast (h : startsPast (y :: l) = true) : y.isWord "alias" = false := by
  rw [Bool.eq_false_iff]
  intro halias
  obtain ⟨hkind, htext⟩ := Bool.and_eq_true_iff.1 halias
  have hkind : y.kind = .ident := of_decide_eq_true hkind
  have htext : y.text = "alias" := of_decide_eq_true htext
  have hmodifier : ∀ next, y.isModifier next = false := by
    intro next
    rw [Token.isModifier, hkind]
    dsimp only
    rw [htext]
    rfl
  rw [startsPast, modifierCount, if_neg (by rw [hmodifier]; exact Bool.false_ne_true)] at h
  have h : y.isTypeKeyword (l.headD y) = true := h
  rw [Token.isTypeKeyword, hkind] at h
  dsimp only at h
  rw [htext] at h
  cases h

/-- What stands at the front of a declaration starts nothing else. -/
theorem startsTypeDeclaration_front (hs : s.Closed) (h : startsTypeDeclaration s.rest = true) :
    StartsNoOther (s.ahead 0) (s.ahead 1) := by
  obtain ⟨x, l, hx⟩ := hs.cons
  rw [ParseState.ahead_zero hx]
  rw [startsTypeDeclaration_eq, hx, sectionsLength?] at h
  by_cases hbracket : x.kind = .lbracket
  · exact ⟨by rw [hbracket]; decide, by rw [hbracket]; rfl, by rw [Token.isWord, hbracket]; rfl⟩
  · rw [if_neg hbracket] at h
    have h : startsPast (x :: l) = true := h
    by_cases hmodifier : x.isModifier (l.headD x) = true
    · refine startsNoOther_of_isModifier hmodifier fun houter => ?_
      have hrest := hs.rest
      rw [hx, Token.closed_cons (by rw [houter]; decide)] at hrest
      obtain ⟨y, l, rfl⟩ := exists_cons_of_ne_nil hrest.2.ne_nil
      rw [startsPast, modifierCount, if_pos hmodifier, Nat.add_comm, drop_succ_cons] at h
      rw [ParseState.ahead, hx]
      exact not_alias_of_startsPast h
    · rw [startsPast, modifierCount, if_neg hmodifier] at h
      exact startsNoOther_of_isTypeKeyword h

-- ===== the reader of namespaces

/-- A declaration, and what follows it. -/
theorem namespaceBodyWithin_declaration {d? : Option TypeDecl} {more : NamespaceBody}
    (hs : s.Closed) (hstarts : startsTypeDeclaration s.rest = true)
    (hrun : typeDeclaration source s = .ok (d?, u))
    (hmore : namespaceBodyWithin source n braced topLevel u = .ok (more, v)) :
    namespaceBodyWithin source (n + 1) braced topLevel s
      = .ok ({ more with types := d?.toList ++ more.types }, v) := by
  obtain ⟨hkind, halias, hglobal⟩ := startsTypeDeclaration_front hs hstarts
  simp only [mem_cons, not_mem_nil, or_false, not_or] at hkind
  obtain ⟨heof, hbrace, husing, hspace, hsemi⟩ := hkind
  exact namespaceBodyWithin_entry (k := .type) (b := ⟨[], d?.toList, []⟩)
    (by simp_all [ParseState.roundKind]) nofun (bind_ok hrun) hmore

-- ===== standalone

theorem text_eq_of_alike {d d' : TypeDecl} (h : Alike d d') : d.text = d'.text := by
  obtain ⟨-, -, -, -, -, -, -, -, -, htext⟩ := alike_typeDecl.1 h
  exact htext

/-- The text of a declaration, parsed alone, gives that declaration: whatever source without
carriage returns it comes from, and wherever in it the declaration stands. -/
theorem declaration_standalone {text : String} {first next : Nat} {file : SourceFile}
    (hr : '\r' ∉ text.toList) (h : SourceFile.parse text first = .ok (file, next))
    (hd : file.Declares d) (n : Nat) :
    ∃ file' d' m, SourceFile.parse d.text n = .ok (file', m) ∧ file'.usings = []
      ∧ file'.namespaces = [] ∧ file'.types = [d'] ∧ d'.text = d.text ∧ Alike d d' := by
  have hstands := stands_of_declares hr h hd
  -- nothing follows the text but the end
  obtain ⟨e, he, hkind⟩ : ∃ e, tokensOf (({} : Pos).advance d.text.toList) false [] = .ok [e]
      ∧ e.kind = .eof := ⟨_, tokensOf_of_end rfl rfl, rfl⟩
  have hfree : SemiFree [e] := by
    rintro z l hz
    rw [← (List.cons.inj hz).1, hkind]
    decide
  obtain ⟨vs, htokens, hyields⟩ := hstands.moved [] [] (p := {})
    (append_nil _).symm hstands.plain .nil rfl he hfree
  rw [append_nil] at htokens
  have hclosed := closed_ofTokens (s := .ofTokens (vs ++ [e]) n) (tokensOf_closed htokens)
  obtain ⟨hstarts, d', v, hrun, halike, hv, -⟩ := hyields _ hclosed rfl rfl
  have hend : (v.ahead 0).kind = .eof := by rw [ParseState.ahead_zero hv, hkind]
  obtain ⟨file', hfile, husings, htypes, hspaces⟩ := sourceFile_ok
    (namespaceBodyWithin_declaration (n := 16 * (ParseState.ofTokens (vs ++ [e]) n).weight + 15)
      hclosed hstarts hrun (namespaceBodyWithin_end (.inl hend))) hend
  refine ⟨file', d', v.nextNode, parse_eq_ok_iff.2 ⟨vs ++ [e], v, ?_, ?_, rfl⟩, husings, hspaces,
    htypes, (text_eq_of_alike halike).symm, halike⟩
  · rw [stripMark_of_tokensOf htokens]
    exact htokens
  · rw [stripMark_of_tokensOf htokens]
    exact hfile

/-- A nested declaration, with the blanks in front of it as its text has them. -/
theorem declaration_standalone_nested :
    ∃ file next m e d,
      SourceFile.parse "namespace A\n\x7b\n class B \x7b class C \x7b \x7d \x7d\n\x7d"
        = .ok (file, next)
      ∧ file.namespaces = [m] ∧ m.types = [e] ∧ e.nested = [d] ∧ d.text = " class C \x7b \x7d"
      ∧ ∃ file' d' k, SourceFile.parse d.text = .ok (file', k) ∧ file'.usings = []
        ∧ file'.namespaces = [] ∧ file'.types = [d'] ∧ d'.text = d.text ∧ Alike d d' := by
  have hfile : SourceFile.parse "namespace A\n\x7b\n class B \x7b class C \x7b \x7d \x7d\n\x7d"
      = .ok _ := rfl
  refine ⟨_, _, _, _, _, hfile, rfl, rfl, rfl, rfl, declaration_standalone (by decide) hfile ?_ 0⟩
  exact .inner (mem_singleton.2 rfl)
    (.type (mem_singleton.2 rfl) (.nested (mem_singleton.2 rfl) .self))

end SourceBundle

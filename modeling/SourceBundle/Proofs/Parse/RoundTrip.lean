/-
What is written for a type or a using directive, read again. If no
identifier of a text is a reserved word, the text of a type that is read
from it is read to its end as that type (`readType_text`).

A using directive is written from the import it makes, and an import
keeps less: its target is the name alone unless there is an alias, and
beside an alias `static` is not written. What is written is one
directive again in each case, and it is the same one exactly if nothing
was lost in these two ways (`reads_back_iff`).
-/
import SourceBundle.Proofs.Parse.Reserved

namespace SourceBundle

open List Parse Text

variable {cs : List Char} {fresh : Bool} {p : Pos} {ts : List Token} {t : TypeRef}
  {d : UsingDirective}

/-- No identifier among the tokens is a reserved word. -/
def PlainTokens (ts : List Token) : Prop :=
  ∀ t ∈ ts, t.kind = .ident → ¬IsReserved t.text

instance (ts : List Token) : Decidable (PlainTokens ts) :=
  inferInstanceAs (Decidable (∀ t ∈ ts, t.kind = .ident → ¬IsReserved t.text))

theorem PlainTokens.worded (hts : PlainTokens ts) (h : tokensOf p fresh cs = .ok ts) :
    ∀ t ∈ ts, t.Worded IsPlainName := fun t ht =>
  have hworded := tokensOf_worded h t ht
  ⟨fun hkind => (hworded.name hkind).plain (hts t ht hkind), hworded.predefined⟩

-- ===== types

/-- The tokens of the text of a type. -/
theorem TypeRef.Legible.tokenize_text (h : t.Legible) :
    ∃ vs e, tokenize t.text = .ok (vs ++ [e]) ∧ vs.map Token.sign = t.signs ∧ e.kind = .eof := by
  -- before a semicolon, and so before nothing
  have hspells : Spells t.text.toList t.signs [';'] := h.spelt.spells ⟨';', [], rfl, by decide⟩
  obtain ⟨zs, hzs⟩ : ∃ zs, tokensOf (({} : Pos).advance t.text.toList) false [';'] = .ok zs :=
    ⟨_, rfl⟩
  obtain ⟨vs, hvs, hsigns, hlast⟩ := hspells {} zs hzs
  have hne : vs ≠ [] := by
    rintro rfl
    exact t.signs_ne_nil hsigns.symm
  have hfront := Front.of_stops hvs (.cons (by decide)) (tokensOf_closed hzs).ne_nil hne hlast
  obtain ⟨vs', hshifted, htokens⟩ := hfront.moved {} [] .nil
  have hsigns' := Token.Shifted.sign_eq hshifted
  rw [append_nil] at htokens
  obtain ⟨e, hend, he⟩ : ∃ e, tokensOf (({} : Pos).advance t.text.toList) false [] = .ok [e]
      ∧ e.kind = .eof := ⟨_, tokensOf_of_end rfl rfl, rfl⟩
  rw [hend] at htokens
  have hfresh := tokensOf_fresh htokens
  refine ⟨vs', e, ?_, hsigns'.trans hsigns, he⟩
  rw [tokenize, tokenizeChars_eq, stripMark_of_tokensOf hfresh]
  exact hfresh

/-- The text of a type that can be written out is read to its end as that type. -/
theorem TypeRef.Legible.read_text (h : t.Legible) :
    ∃ t' s', readType t.text = .ok (t', s') ∧ (s'.ahead 0).kind = .eof ∧ Alike t' t := by
  obtain ⟨vs, e, htokens, hsigns, he⟩ := h.tokenize_text
  obtain ⟨t', s', hread, hrest, -, -, halike⟩ :=
    h.takes_typeRef (e := e.sign) (u := []) (by simp [Token.sign, he, typeEndKinds])
      (.ofTokens (vs ++ [e])) (by simp [ParseState.ofTokens, hsigns])
  refine ⟨t', s', by rw [readType, htokens]; dsimp only; rw [hread], ?_, halike⟩
  rw [ParseState.rest_drop, ← length_map_sign hsigns] at hrest
  rw [ParseState.ahead_zero (hrest.trans drop_left)]
  exact he

/-- A type that is read from a text without reserved words for identifiers is read again from what
is written for it, to the end. -/
theorem readType_text {text : String} {tokens : List Token} {allowArray : Bool} {s : ParseState}
    (htokens : tokenize text = .ok tokens) (hplain : PlainTokens tokens)
    (h : readType text allowArray = .ok (t, s)) :
    ∃ t' s', readType t.text = .ok (t', s') ∧ (s'.ahead 0).kind = .eof ∧ Alike t' t := by
  rw [readType, htokens] at h
  dsimp only at h
  split at h
  · cases h
  next hread =>
    cases h
    rw [tokenize, tokenizeChars_eq] at htokens
    have hlegible : t.Legible :=
      (draws_typeRef allowArray _ _ _ (worded_ofTokens (hplain.worded htokens)) hread).2
    exact hlegible.read_text

/-- A type with an alias, a nullable array, a tuple with a named element and an array of two
dimensions. -/
theorem readType_text_nested : ∃ t s t' s',
    readType "g::A.B<int?[],(C x,D)>[,]" = .ok (t, s) ∧ t.text = "g::A.B<int?[], (C, D)>[]"
      ∧ readType t.text = .ok (t', s') ∧ (s'.ahead 0).kind = .eof ∧ Alike t' t := by
  have htokens : tokenize "g::A.B<int?[],(C x,D)>[,]" = .ok _ := rfl
  have hread : readType "g::A.B<int?[],(C x,D)>[,]" = .ok (_, _) := rfl
  obtain ⟨t', s', hagain⟩ := readType_text htokens (by decide +kernel) hread
  exact ⟨_, _, t', s', hread, by decide +kernel, hagain⟩

-- ===== directives

/-- A directive stands in a namespace or in one inside it. -/
inductive NamespaceDecl.Directs (d : UsingDirective) : NamespaceDecl → Prop
  | own {m : NamespaceDecl} : d ∈ m.usings → Directs d m
  | inner {m inner : NamespaceDecl} : inner ∈ m.namespaces → Directs d inner → Directs d m

/-- A directive stands in a file. -/
inductive SourceFile.Directs (file : SourceFile) (d : UsingDirective) : Prop
  | own : d ∈ file.usings → file.Directs d
  | inner {m : NamespaceDecl} : m ∈ file.namespaces → m.Directs d → file.Directs d

theorem NamespaceDecl.MadeOf.directive {W : String → Prop} {m : NamespaceDecl} (h : m.MadeOf W)
    (hd : m.Directs d) : d.MadeOf W := by
  induction hd with
  | own hmem =>
    obtain ⟨-, husings, -⟩ := h
    exact husings d hmem
  | inner hmem _ ih =>
    obtain ⟨-, -, hinner⟩ := h
    exact ih (hinner _ hmem)

theorem SourceFile.MadeOf.directive {W : String → Prop} {file : SourceFile} (h : file.MadeOf W)
    (hd : file.Directs d) : d.MadeOf W := by
  cases hd with
  | own hmem => exact h.usings d hmem
  | inner hmem hd => exact (h.namespaces _ hmem).directive hd

/-- What is written for an import is a file of one directive. -/
theorem Import.parse_render {i : Import} (ht : t.Legible) (hname : i.name = t.text)
    (halias : ∀ a ∈ i.aliasName, IsPlainName a) :
    ∃ file next d, SourceFile.parse i.render = .ok (file, next) ∧ file.usings = [d]
      ∧ file.types = [] ∧ file.namespaces = [] ∧ IsDirective i.aliasName i.isStatic t d := by
  obtain ⟨e, hend, he⟩ : ∃ e, tokensOf (({} : Pos).advance i.render.toList) false [] = .ok [e]
      ∧ e.kind = .eof := ⟨_, tokensOf_of_end rfl rfl, rfl⟩
  obtain ⟨vs, hvs, hsigns, -⟩ := (piece_render ht hname halias).spells trivial {} [e] hend
  rw [append_nil] at hvs
  have hne : vs ≠ [] := by
    rintro rfl
    cases hsigns
  have hclosed := closed_ofTokens (s := .ofTokens (vs ++ [e])) (tokensOf_closed hvs)
  obtain ⟨d, u, hrun, -, hrest, -, hd⟩ := (takes_usingDirective i.isStatic ht halias).run hclosed
    rfl hsigns (tokensOf_closed hend) hne
  have hkind : ((ParseState.ofTokens (vs ++ [e])).ahead 0).kind = .usingKw := by
    have hahead : ((ParseState.ofTokens (vs ++ [e])).ahead 0).sign = (.usingKw, "using") :=
      ParseState.sign_ahead (by simp [ParseState.ofTokens, hsigns, usingSigns]; rfl) rfl
    exact Token.kind_of_sign hahead
  have hlast : (u.ahead 0).kind = .eof := by rw [ParseState.ahead_zero hrest, he]
  obtain ⟨n, hn⟩ : ∃ n, (ParseState.ofTokens (vs ++ [e])).bound = n + 2 := by
    have := ParseState.length_le_bound (s := .ofTokens (vs ++ [e])) rfl
    exact Nat.exists_eq_add_of_le' (by omega)
  have hbody : namespaceBodyWithin i.render.toList (n + 2) false true (.ofTokens (vs ++ [e]))
      = .ok ({ usings := [d] }, u) :=
    namespaceBodyWithin_using hkind hrun (namespaceBodyWithin_end (.inl hlast))
  rw [← hn] at hbody
  obtain ⟨file, next, hparse, husings, htypes, hspaces⟩ := parse_of_body hvs hbody hlast
  rw [String.ofList_toList] at hparse
  exact ⟨file, next, d, hparse, husings, htypes, hspaces, hd⟩

mutual

theorem TypeRef.text_bareType : (t : TypeRef) → t.bareType.text = t.text
  | { name, args, qualifier, rank, nullable, tuple, span } => by
    have hempty : (bareTypes args).isEmpty = args.isEmpty := by cases args <;> rfl
    simp only [bareType, text, texts_bareTypes args, hempty]

theorem TypeRef.texts_bareTypes : (ts : List TypeRef) → texts (bareTypes ts) = texts ts
  | [] => rfl
  | t :: ts => by simp only [bareTypes, texts, text_bareType t, texts_bareTypes ts]

end

/-- Types that can be written out are told apart by what is written for them. -/
theorem TypeRef.Legible.alike_iff {t' : TypeRef} (h : t.Legible) (h' : t'.Legible) :
    Alike t t' ↔ t.text = t'.text := by
  constructor
  · intro halike
    rw [← text_bareType t, ← text_bareType t']
    exact congrArg text halike
  · intro htext
    obtain ⟨r, s, hread, -, hr⟩ := h.read_text
    obtain ⟨r', s', hread', -, hr'⟩ := h'.read_text
    rw [htext, hread'] at hread
    cases hread
    exact hr.symm.trans hr'

/-- For a directive of a file that has no reserved word for an identifier, what is written for its
own import is one directive again, with its alias. It is the same directive if it has an alias and
no `static`, or has no alias and a target that is written as its name alone, and only then. -/
theorem SourceFile.Directs.reads_back_iff {text : String} {first next : Nat} {file : SourceFile}
    (h : SourceFile.parse text first = .ok (file, next)) (hd : file.Directs d)
    (hwords : ∀ x ∈ d.words, ¬IsReserved x) :
    ∃ file' next' d', SourceFile.parse (Import.ofDirective d).render = .ok (file', next')
      ∧ file'.usings = [d'] ∧ file'.types = [] ∧ file'.namespaces = []
      ∧ d'.aliasName = d.aliasName
      ∧ (d'.isStatic = d.isStatic ∧ Alike d'.target d.target ↔
        (d.aliasName.isSome ∧ d.isStatic = false) ∨ (d.aliasName = none
          ∧ d.target.text = TypeRef.qualifiedText d.target.qualifier d.target.name)) := by
  have hmade : d.MadeOf IsPlainName :=
    ((parse_worded h).1.directive hd).unreserved hwords
  obtain ⟨⟨t, ht, hname⟩, halias⟩ := hmade.legible
  obtain ⟨file', next', d', hparse, husings, htypes, hspaces, hd'⟩ :=
    Import.parse_render ht hname halias
  refine ⟨file', next', d', hparse, husings, htypes, hspaces, hd'.aliasName, ?_⟩
  have htarget : Alike d'.target d.target ↔ (Import.ofDirective d).name = d.target.text := by
    rw [hname, ← ht.alike_iff hmade.target]
    exact ⟨hd'.target.symm.trans, hd'.target.trans⟩
  rw [hd'.isStatic, htarget]
  cases halias : d.aliasName with
  | some a => simp [Import.ofDirective, halias]
  | none => simp [Import.ofDirective, halias, eq_comm (a := d.target.text)]

/-- An alias of a generic type that has a tuple with a nullable array for an argument. -/
theorem SourceFile.Directs.reads_back_alias :
    ∃ file next d, SourceFile.parse "namespace M; using T = g::G<(A, int?[])>;" 0 = .ok (file, next)
      ∧ file.Directs d
      ∧ ∃ file' next' d', SourceFile.parse (Import.ofDirective d).render = .ok (file', next')
        ∧ file'.usings = [d'] ∧ file'.types = [] ∧ file'.namespaces = []
        ∧ d'.aliasName = d.aliasName ∧ d'.isStatic = d.isStatic ∧ Alike d'.target d.target := by
  obtain ⟨file, next, d, hparse, hd, hwords, hkept⟩ : ∃ file next d,
      SourceFile.parse "namespace M; using T = g::G<(A, int?[])>;" 0 = .ok (file, next)
        ∧ file.Directs d ∧ (∀ x ∈ d.words, ¬IsReserved x) ∧ d.aliasName.isSome
        ∧ d.isStatic = false :=
    ⟨_, _, _, rfl, .inner (mem_singleton.2 rfl) (.own (mem_singleton.2 rfl)), by decide +kernel,
      rfl, rfl⟩
  obtain ⟨file', next', d', hagain, husings, htypes, hspaces, halias, hsame⟩ :=
    SourceFile.Directs.reads_back_iff hparse hd hwords
  exact ⟨file, next, d, hparse, hd, file', next', d', hagain, husings, htypes, hspaces, halias,
    hsame.2 (.inl hkept)⟩

/-- The arguments of a generic type are not written without an alias. -/
theorem SourceFile.Directs.reads_back_static_generic :
    ∃ tokens file next d file' next' d', tokenize "using static N.G<int>;" = .ok tokens
      ∧ PlainTokens tokens ∧ SourceFile.parse "using static N.G<int>;" 0 = .ok (file, next)
      ∧ file.Directs d ∧ SourceFile.parse (Import.ofDirective d).render = .ok (file', next')
      ∧ file'.usings = [d'] ∧ d'.isStatic = d.isStatic ∧ ¬Alike d'.target d.target := by
  have hparse : SourceFile.parse "using static N.G<int>;" 0 = .ok (_, _) := rfl
  have hagain : SourceFile.parse "using static N.G;" 0 = .ok (_, _) := rfl
  refine ⟨_, _, _, _, _, _, _, rfl, by decide +kernel, hparse, .own (mem_singleton_self _), hagain,
    rfl, rfl, fun halike => ?_⟩
  have hlength := congrArg (fun t : TypeRef => t.args.length) halike
  exact absurd hlength (by decide)

end SourceBundle

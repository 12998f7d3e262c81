/-
Texts that hold entries of a namespace: using directives, declarations
and namespaces in braces. Such a text (`Entries`) is read to its end
wherever it stands, and adds its entries to what follows. Texts of
entries are put together (`Entries.append`), a namespace is written
around one (`Entries.block`), and one is a source file
(`Entries.parse`).

What is carried from an entry to the next is where its last token stops:
the text of a declaration begins there, so that without it the
declarations would not keep their texts. No entry may be followed by a
semicolon, which a declaration or a namespace would take as its own.
-/
import SourceBundle.Proofs.Parse.Directives
import SourceBundle.Proofs.Parse.Standalone

namespace SourceBundle

open List Parse Text

variable {w w' tail source : List Char} {zs : List Token} {qs qs' : List (TypeDecl → Prop)}
  {ps ps' : List (NamespaceDecl → Prop)}

-- ===== entries

/-- Values that have one property each. -/
def Meets {α : Type} (ps : List (α → Prop)) (xs : List α) : Prop :=
  List.Forall₂ (fun P x => P x) ps xs

/-- From the tokens `vs` and within `n` steps, entries are read up to the offset `stop`:
declarations that have the properties `qs` and namespaces that have the properties `ps`. It takes
`k` rounds. -/
def Reads (source : List Char) (qs : List (TypeDecl → Prop)) (ps : List (NamespaceDecl → Prop))
    (stop n : Nat) (vs zs : List Token) (t : ParseState) : Prop :=
  ∃ k u types namespaces, k ≤ vs.length ∧ u.Closed ∧ u.rest = zs ∧ stopOf u.last = stop
    ∧ Meets qs types ∧ Meets ps namespaces
    ∧ ∀ braced topLevel more v,
        namespaceBodyWithin source (n - k) braced topLevel u = .ok (more, v) →
        ∃ body, namespaceBodyWithin source n braced topLevel t = .ok (body, v)
          ∧ body.types = types ++ more.types ∧ body.namespaces = namespaces ++ more.namespaces

/-- A text that holds declarations with the properties `qs` and namespaces with the properties
`ps`, in any source where no semicolon follows. -/
structure Entries (w : List Char) (qs : List (TypeDecl → Prop)) (ps : List (NamespaceDecl → Prop)) :
    Prop where
  plain : '\r' ∉ w
  reads : ∀ {source} (pre) {tail p zs}, source = pre ++ (w ++ tail) → '\r' ∉ source →
    p.offset = pre.length → tokensOf (p.advance w) false tail = .ok zs → SemiFree zs →
    ∃ vs, tokensOf p false (w ++ tail) = .ok (vs ++ zs) ∧ SemiFree (vs ++ zs) ∧
      ∀ (t : ParseState) (n : Nat), t.Closed → t.rest = vs ++ zs → stopOf t.last = pre.length →
        2 * vs.length ≤ n → Reads source qs ps (pre ++ w).length n vs zs t

namespace Entries

theorem nil : Entries [] [] [] where
  plain := nofun
  reads {source} pre {tail p zs} _ _ _ htail hfree := by
    refine ⟨[], htail, hfree, fun t n ht hrest hstop _ => ?_⟩
    refine ⟨0, t, [], [], Nat.le_refl 0, ht, hrest, ?_, .nil, .nil, ?_⟩
    · rw [hstop, append_nil]
    · exact fun _ _ more _ hmore => ⟨more, hmore, rfl, rfl⟩

theorem append (h : Entries w qs ps) (h' : Entries w' qs' ps') :
    Entries (w ++ w') (qs ++ qs') (ps ++ ps') where
  plain hr := (mem_append.1 hr).elim h.plain h'.plain
  reads {source} pre {tail p zs} hsource hr hp htail hfree := by
    rw [Pos.advance_append] at htail
    rw [append_assoc] at hsource
    obtain ⟨us, hus, hfree', hreads'⟩ := h'.reads (pre ++ w)
      (by rw [hsource, append_assoc]) hr (by rw [Pos.offset_advance, hp, length_append])
      htail hfree
    obtain ⟨vs, hvs, hfree'', hreads⟩ := h.reads pre hsource hr hp hus hfree'
    rw [← append_assoc] at hfree''
    refine ⟨vs ++ us, ?_, hfree'', fun t n ht hrest hstop hn => ?_⟩
    · rw [append_assoc, hvs, append_assoc]
    rw [append_assoc] at hrest
    rw [length_append] at hn
    obtain ⟨k, u, types, spaces, hk, hu, hurest, hustop, htypes, hspaces, hbody⟩ :=
      hreads t n ht hrest hstop (by omega)
    obtain ⟨k', u', types', spaces', hk', hu', hurest', hustop', htypes', hspaces', hbody'⟩ :=
      hreads' u (n - k) hu hurest hustop (by omega)
    refine ⟨k + k', u', types ++ types', spaces ++ spaces', ?_, hu', hurest', ?_,
      rel_append htypes htypes', rel_append hspaces hspaces', ?_⟩
    · rw [length_append]
      omega
    · rw [hustop', append_assoc]
    · intro braced topLevel more v hmore
      rw [Nat.sub_add_eq] at hmore
      obtain ⟨body', hrun', htypes', hspaces'⟩ := hbody' braced topLevel more v hmore
      obtain ⟨body, hrun, htypes, hspaces⟩ := hbody braced topLevel body' v hrun'
      refine ⟨body, hrun, ?_, ?_⟩
      · rw [htypes, htypes', append_assoc]
      · rw [hspaces, hspaces', append_assoc]

end Entries

-- ===== single entries

/-- A reader of a row of signs, where the tokens of these stand. -/
theorem Takes.run {α : Type} {p : Parse α} {Q : α → Prop} {v : List Sign} {vs : List Token}
    {s : ParseState} (h : Takes p v (zs.map Token.sign) Q) (hs : s.Closed)
    (hrest : s.rest = vs ++ zs)
    (hsigns : vs.map Token.sign = v) (hzs : Token.Closed zs) (hne : vs ≠ []) :
    ∃ a t, p s = .ok (a, t) ∧ t.Closed ∧ t.rest = zs ∧ t.last = vs.getLast? ∧ Q a := by
  obtain ⟨a, t, hrun, htrest, hlast, heof, ha⟩ := h s
    (by rw [hrest, map_append, hsigns])
  have hlength : v.length = vs.length := by rw [← hsigns, length_map]
  have htrest : t.rest = zs := by
    rw [htrest, ParseState.rest_drop, hrest, hlength, drop_left]
  refine ⟨a, t, hrun, ⟨htrest ▸ hzs, ?_⟩, htrest, ?_, ha⟩
  · rw [htrest, heof, ← hs.eof, hrest, getLast?_append_of_ne_nil _ hzs.ne_nil]
  · obtain ⟨m, hm⟩ : ∃ m, vs.length = m + 1 :=
      ⟨vs.length - 1, by have := length_pos_iff.2 hne; omega⟩
    have hin : m < s.rest.length := by
      rw [hrest, length_append]
      omega
    rw [hlast, hlength, hm, ParseState.last_drop_succ s hin, getLast?_eq_getElem?, hm,
      Nat.add_sub_cancel, ← getElem?_eq_getElem hin, hrest,
      getElem?_append_left (by omega)]

/-- A directive in a namespace. -/
theorem namespaceBodyWithin_using {n : Nat} {s u v : ParseState} {d : UsingDirective}
    {more : NamespaceBody} {braced topLevel : Bool} (hs : (s.ahead 0).kind = .usingKw)
    (hrun : usingDirective s = .ok (d, u))
    (hmore : namespaceBodyWithin source n braced topLevel u = .ok (more, v)) :
    namespaceBodyWithin source (n + 1) braced topLevel s
      = .ok ({ more with usings := d :: more.usings }, v) := by
  exact namespaceBodyWithin_entry (k := .directive) (b := ⟨[d], [], []⟩)
    (by simp [ParseState.roundKind, hs]) nofun (bind_ok hrun) hmore

theorem SemiFree.of_signs {vs : List Token} {g : Sign} {v : List Sign}
    (hsigns : vs.map Token.sign = g :: v) (hg : g.1 ≠ .semi) : SemiFree (vs ++ zs) := by
  intro z l hz
  obtain ⟨x, xs, rfl, hx, -⟩ := map_eq_cons_iff.1 hsigns
  rw [← (List.cons.inj hz).1, Token.kind_of_sign hx]
  exact hg

/-- The offset at which the last of some tokens stops. -/
theorem stopOf_getLast? {vs : List Token} {stop : Nat} (hne : vs ≠ [])
    (h : ∀ x ∈ vs.getLast?, x.stop = stop) : stopOf vs.getLast? = stop := by
  rw [getLast?_eq_some_getLast hne] at h ⊢
  exact h _ rfl

/-- A text with the signs of a directive. -/
theorem entries_using {aliasName : Option String} {isStatic : Bool} {type : TypeRef}
    {A : List Char → Prop} (htype : type.Legible) (halias : ∀ a ∈ aliasName, IsPlainName a)
    (h : Piece w (usingSigns aliasName isStatic type) A fun _ => True) : Entries w [] [] where
  plain := h.plain
  reads {source} pre {tail p zs} _ _ hp htail _ := by
    obtain ⟨vs, hvs, hsigns, hlast⟩ := h.spells trivial p zs htail
    have hne : vs ≠ [] := by
      rintro rfl
      cases hsigns
    refine ⟨vs, hvs, SemiFree.of_signs hsigns (by decide), fun t n ht hrest _ hn => ?_⟩
    obtain ⟨d, u, hrun, hu, hurest, hulast, -⟩ :=
      (takes_usingDirective isStatic htype halias).run ht hrest hsigns (tokensOf_closed htail) hne
    refine ⟨1, u, [], [], length_pos_iff.2 hne, hu, hurest, ?_, .nil, .nil, ?_⟩
    · rw [hulast, stopOf_getLast? hne hlast, hp, length_append]
    · intro braced topLevel more v hmore
      have hpos := length_pos_iff.2 hne
      obtain ⟨n, rfl⟩ : ∃ m, n = m + 1 := ⟨n - 1, by omega⟩
      have hkind : (t.ahead 0).kind = .usingKw := by
        have hahead : (t.ahead 0).sign = (.usingKw, "using") :=
          t.sign_ahead (v := usingSigns aliasName isStatic type ++ zs.map Token.sign)
            (by rw [hrest, map_append, hsigns]) rfl
        exact Token.kind_of_sign hahead
      exact ⟨_, namespaceBodyWithin_using hkind hrun hmore, rfl, rfl⟩

/-- The text of a legible import, with a gap in front. -/
theorem Import.Legible.entries {i : Import} (h : i.Legible) {g : List Char}
    (hg : ∀ c ∈ g, isGapBlank c = true) (hplain : '\r' ∉ g) :
    Entries (g ++ i.render.toList) [] [] := by
  obtain ⟨⟨type, htype, hname⟩, halias⟩ := h
  exact entries_using htype halias
    ((Import.piece_render htype hname halias).gap hg hplain (fun _ => endsGap_of_isNameStart)
      (cons_ne_nil _ _))

/-- A declaration starts with no semicolon. -/
theorem SemiFree.of_starts {ts : List Token} (hts : Token.Closed ts)
    (h : startsTypeDeclaration ts = true) : SemiFree ts := by
  intro z l hz hkind
  have hfront := (startsTypeDeclaration_front (closed_ofTokens (s := .ofTokens ts) hts) h).kind
  rw [ParseState.ahead_zero hz, hkind] at hfront
  exact hfront (by decide)

/-- A text with the signs of a declaration. -/
theorem entries_class {signs : List Sign} {Q : TypeDecl → Prop} {A : List Char → Prop}
    (hstarts : ∀ vs zs : List Token, vs.map Token.sign = signs →
      startsTypeDeclaration (vs ++ zs) = true)
    (htakes : ∀ source e u, e.1 ≠ .semi →
      Takes (typeDeclaration source) signs (e :: u) fun d? => ∃ d, d? = some d ∧ Q d)
    (hne : signs ≠ []) (h : Piece w signs A fun _ => True) : Entries w [Q] [] where
  plain := h.plain
  reads {source} pre {tail p zs} _ _ hp htail hfree := by
    obtain ⟨vs, hvs, hsigns, hlast⟩ := h.spells trivial p zs htail
    have hne : vs ≠ [] := by
      rintro rfl
      exact hne hsigns.symm
    obtain ⟨z, l, rfl⟩ := exists_cons_of_ne_nil (tokensOf_closed htail).ne_nil
    have hzs := htakes source z.sign (l.map Token.sign) (hfree rfl)
    refine ⟨vs, hvs, SemiFree.of_starts (tokensOf_closed hvs) (hstarts vs _ hsigns),
      fun t n ht hrest _ hn => ?_⟩
    obtain ⟨_, u, hrun, hu, hurest, hulast, d, rfl, hd⟩ :=
      hzs.run ht hrest hsigns (tokensOf_closed htail) hne
    refine ⟨1, u, [d], [], length_pos_iff.2 hne, hu, hurest, ?_, .cons hd .nil, .nil, ?_⟩
    · rw [hulast, stopOf_getLast? hne hlast, hp, length_append]
    · intro braced topLevel more v hmore
      have hpos := length_pos_iff.2 hne
      obtain ⟨n, rfl⟩ : ∃ m, n = m + 1 := ⟨n - 1, by omega⟩
      have hstarts : startsTypeDeclaration t.rest = true := by
        rw [hrest]
        exact hstarts vs _ hsigns
      exact ⟨_, namespaceBodyWithin_declaration ht hstarts hrun hmore, rfl, rfl⟩

theorem tokensOf_newlines (k : Nat) (p : Pos) (fresh : Bool) (cs : List Char) :
    tokensOf p fresh (List.replicate (k + 1) '\n' ++ cs)
      = tokensOf (p.advance (List.replicate (k + 1) '\n')) true cs := by
  induction k generalizing p fresh with
  | zero => exact tokensOf_newline (by simp : ∀ c ∈ [], isGapBlank c = true) p fresh cs
  | succ k ih =>
    rw [replicate_succ, cons_append, ← singleton_append (l := List.replicate _ _),
      Pos.advance_append, ← ih]
    exact tokensOf_newline (by simp : ∀ c ∈ [], isGapBlank c = true) p fresh _

theorem blankLines_newlines (k : Nat) : BlankLines (List.replicate k '\n') := by
  induction k with
  | zero => exact .nil
  | succ k ih => exact .cons (by simp : ∀ c ∈ [], isBlank c = true) (by simp) ih

/-- The text of a declaration on a line of its own. -/
theorem TypeDecl.Stands.entries {d : TypeDecl} (h : d.Stands) (k : Nat) :
    Entries (List.replicate (k + 1) '\n' ++ d.text.toList) [Alike d] [] where
  plain hr := (mem_append.1 hr).elim (fun hr => by simp at hr) h.plain
  reads {source} pre {tail p zs} hsource hr hp htail hfree := by
    generalize hgap : List.replicate (k + 1) '\n' = gap at hsource htail ⊢
    rw [append_assoc] at hsource
    rw [Pos.advance_append] at htail
    obtain ⟨vs, hvs, hyields⟩ := h.moved pre gap hsource hr (hgap ▸ blankLines_newlines _)
      (by rw [Pos.offset_advance, hp, length_append]) htail hfree
    have hclosed := closed_ofTokens (s := .ofTokens (vs ++ zs)) (tokensOf_closed hvs)
    have hstarts : startsTypeDeclaration (vs ++ zs) = true :=
      (hyields { ParseState.ofTokens (vs ++ zs) with last := some (Token.eof p) }
        ⟨hclosed.rest, hclosed.eof⟩ rfl hp).starts
    refine ⟨vs, ?_, SemiFree.of_starts (tokensOf_closed hvs) hstarts,
      fun t n ht hrest hstop hn => ?_⟩
    · rw [append_assoc, ← hgap, tokensOf_newlines, hgap]
      exact hvs
    obtain ⟨hstarts, d', u, hrun, halike, hurest, hustop⟩ := hyields t ht hrest hstop
    have hgoes : Goes 1 t (.ok (some d', u)) :=
      typeDeclarationWithin_goes ht t.weight_lt_bound (typeDeclaration_eq ▸ hrun)
    have hpos : 0 < vs.length := by
      obtain ⟨j, hj, -, hdrop, -⟩ := hgoes
      have hlength := congrArg List.length hdrop
      rw [hurest, ParseState.rest_drop, length_drop, hrest, length_append] at hlength
      have := length_pos_iff.2 (tokensOf_closed htail).ne_nil
      omega
    refine ⟨1, u, [d'], [], hpos, hgoes.closed ht, hurest, ?_, .cons halike .nil, .nil, ?_⟩
    · rw [hustop, append_assoc]
    · intro braced topLevel more v hmore
      obtain ⟨n, rfl⟩ : ∃ m, n = m + 1 := ⟨n - 1, by omega⟩
      exact ⟨_, namespaceBodyWithin_declaration ht hstarts hrun hmore, rfl, rfl⟩

-- ===== blocks

/-- What stands before the entries of a namespace. -/
def blockOpening (name : String) : List Char :=
  "\n\nnamespace".toList ++ ([' '] ++ name.toList ++ ("\n".toList ++ ['\x7b']))

/-- What stands after them. -/
def blockClosing : List Char :=
  "\n".toList ++ ['\x7d']

/-- A name of a namespace: plain names with dots between. -/
def IsSpaceName (name : String) : Prop :=
  ∀ x ∈ splitAt '.' name, IsPlainName x

instance (name : String) : Decidable (IsSpaceName name) :=
  inferInstanceAs (Decidable (∀ x ∈ splitAt '.' name, IsPlainName x))

/-- A brace on a line of its own. -/
theorem piece_brace {c : Char} {k : Kind} (hc : c ∈ ['\x7b', '\x7d'])
    (hk : Kind.ofMark? c = some k) :
    Piece ("\n".toList ++ [c]) [(k, String.ofList [c])] ("\n".toList <+: ·) fun _ => True := by
  have hbraces : ∀ c ∈ ['\x7b', '\x7d'], c ∈ stopChars ∧ EndsGap c := forall_mem_of_all (by decide)
  exact (Piece.stop c k (hbraces c hc).1 hk).gap (forall_mem_of_all (by decide)) (by decide)
    (fun _ h => h ▸ (hbraces c hc).2) (cons_ne_nil _ _)

theorem piece_blockOpening {name : String} (h : IsSpaceName name) :
    Piece (blockOpening name)
      ([(.namespaceKw, "namespace")] ++ (dottedSigns (splitAt '.' name) ++ [(.lbrace, "\x7b")]))
      ("\n\n".toList <+: ·) fun _ => True := by
  have hword := (Piece.keyword "namespace" .namespaceKw (by decide) (by decide +kernel)).gap
    (g := "\n\n".toList) (forall_mem_of_all (by decide)) (by decide)
    (fun _ => endsGap_of_isNameStart) (cons_ne_nil _ _)
  have hname := (piece_dotted fun x hx => (h x hx).1).spaced (fun _ => endsGap_of_isNameStart)
    (TypeRef.dottedSigns_ne_nil name)
  have hrest := hname.append
    (piece_brace (c := '\x7b') (k := .lbrace) (by decide) rfl)
    fun _ h => .of_front (c := '\n') (by decide) h
  exact hword.append hrest fun _ h => h.of_eq (by decide)

theorem piece_blockClosing :
    Piece blockClosing [(.rbrace, "\x7d")] ("\n".toList <+: ·) fun _ => True :=
  piece_brace (by decide) rfl

/-- A namespace in braces that has this name, and in it declarations with the properties `qs` and
namespaces with the properties `ps`. -/
structure IsBlock (name : String) (qs : List (TypeDecl → Prop)) (ps : List (NamespaceDecl → Prop))
    (m : NamespaceDecl) : Prop where
  name : m.name = name
  braced : m.isFileScoped = false
  types : Meets qs m.types
  namespaces : Meets ps m.namespaces

/-- Reads the entries up to the brace that closes a namespace. -/
theorem Reads.toBrace {vs : List Token} {c : Token} {t : ParseState} {stop n : Nat}
    (h : Reads source qs ps stop n vs (c :: zs) t) (hc : c.kind = .rbrace)
    (hn : vs.length + 1 ≤ n) :
    ∃ body u, namespaceBodyWithin source n true false t = .ok (body, u) ∧ u.Closed
      ∧ u.rest = c :: zs ∧ Meets qs body.types ∧ Meets ps body.namespaces := by
  obtain ⟨k, u, types, namespaces, hk, hu, hrest, -, htypes, hspaces, hbody⟩ := h
  obtain ⟨m, hm⟩ : ∃ m, n - k = m + 1 := ⟨n - k - 1, by omega⟩
  have hend : namespaceBodyWithin source (n - k) true false u = .ok ({}, u) := by
    rw [hm]
    refine namespaceBodyWithin_end (.inr ⟨rfl, ?_⟩)
    rw [ParseState.ahead_zero hrest, hc]
  obtain ⟨body, hrun, hbtypes, hbspaces⟩ := hbody true false {} u hend
  refine ⟨body, u, hrun, hu, hrest, ?_, ?_⟩
  · rw [hbtypes, append_nil]
    exact htypes
  · rw [hbspaces, append_nil]
    exact hspaces

/-- The brace that closes a namespace, where no semicolon follows it. -/
theorem closeBrace {c : Token} {u : ParseState} (hu : u.Closed) (hrest : u.rest = c :: zs)
    (hc : c.kind = .rbrace) (hfree : SemiFree zs) :
    expect .rbrace .namespaceClose u = .ok (c, u.drop 1) ∧ (u.drop 1).Closed
      ∧ (u.drop 1).rest = zs ∧ (u.drop 1).last = some c
      ∧ accept .semi (u.drop 1) = .ok (false, u.drop 1) := by
  have hahead := ParseState.ahead_zero hrest
  have hclosed := hu.drop_one (by rw [hahead, hc]; decide)
  have hzs : (u.drop 1).rest = zs := by rw [ParseState.rest_drop, hrest]; rfl
  refine ⟨?_, hclosed, hzs, ?_, ?_⟩
  · rw [expect_taken (by rw [hahead, hc]) (by decide), hahead]
  · rw [hu.last_drop_one, hahead]
  · exact accept_left (hfree.ahead_zero hclosed hzs) (by decide)

/-- A namespace in braces, read from the tokens of its opening, its entries and its brace. -/
theorem namespaceWithin_block {name : String} {vs us : List Token} {c : Token} {t : ParseState}
    {stop n : Nat} (hname : IsSpaceName name)
    (hsigns : vs.map Token.sign
      = [(.namespaceKw, "namespace")] ++ (dottedSigns (splitAt '.' name) ++ [(.lbrace, "\x7b")]))
    (ht : t.Closed) (hrest : t.rest = vs ++ (us ++ c :: zs)) (hus : Token.Closed (us ++ c :: zs))
    (hinner : ∀ u : ParseState, u.Closed → u.rest = us ++ c :: zs → u.last = vs.getLast? →
      Reads source qs ps stop n us (c :: zs) u)
    (hc : c.kind = .rbrace) (hfree : SemiFree zs) (hn : us.length + 1 ≤ n) :
    ∃ m u, namespaceWithin source (n + 1) t = .ok (m, u) ∧ u.Closed ∧ u.rest = zs
      ∧ u.last = some c ∧ IsBlock name qs ps m := by
  -- the opening: the word, the name, and the brace
  have hopening : Takes (do
      let _ ← expect .namespaceKw .namespaceWord
      let name ← namespaceName
      let isFileScoped ← accept .semi
      let _ ← expect .lbrace .namespaceOpen
      return (name, isFileScoped) : Parse (String × Bool))
      ([(.namespaceKw, "namespace")] ++ (dottedSigns (splitAt '.' name) ++ [(.lbrace, "\x7b")]))
      ((us ++ c :: zs).map Token.sign) (· = (name, false)) := by
    refine .bind [_] (takes_expect _ rfl (by decide)) fun _ _ => ?_
    refine .bind _ (takes_namespaceName hname (by decide)) fun name' hname' => ?_
    refine .andThen (leaves_accept (by decide) (by decide)) fun isFileScoped hsemi => ?_
    refine .bind [_] (takes_expect _ rfl (by decide)) fun _ _ => ?_
    rw [hname', hsemi]
    exact .pure rfl
  have hne : vs ≠ [] := by
    rintro rfl
    cases hsigns
  obtain ⟨_, u, hrun, hu, hurest, hulast, rfl⟩ := hopening.run ht hrest hsigns hus hne
  obtain ⟨body, v, hbody, hv, hvrest, htypes, hspaces⟩ :=
    (hinner u hu hurest hulast).toBrace hc hn
  obtain ⟨hexpect, hclosed, hzs, hlast, haccept⟩ := closeBrace hv hvrest hc hfree
  -- the steps of the opening, one by one
  obtain ⟨_, t₁, hword, hrun⟩ := bind_eq_ok hrun
  obtain ⟨name', t₂, hname', hrun⟩ := bind_eq_ok hrun
  obtain ⟨isFileScoped, t₃, hsemi, hrun⟩ := bind_eq_ok hrun
  obtain ⟨_, t₄, hbrace, hrun⟩ := bind_eq_ok hrun
  cases hrun
  have hcontent : namespaceContent false (namespaceBodyWithin source n false false)
      (namespaceBodyWithin source n true false) t₃ = .ok (body, v.drop 1) := by
    rw [namespaceContent, if_neg (by simp), bracedNamespace, bind_ok hbrace,
      bind_ok hbody, bind_ok hexpect, bind_ok haccept]
    rfl
  rw [namespaceWithin, bind_ok (p := here) rfl, bind_ok hword, bind_ok hname',
    bind_ok hsemi, bind_ok hcontent, bind_ok (p := spanFrom _) rfl]
  exact ⟨_, v.drop 1, rfl, hclosed, hzs, hlast, rfl, rfl, htypes, hspaces⟩

theorem length_map_sign {vs : List Token} {v : List Sign} (h : vs.map Token.sign = v) :
    vs.length = v.length := by
  rw [← h, length_map]

/-- The text of a namespace in braces. -/
theorem Entries.block {name : String} (h : Entries w qs ps) (hname : IsSpaceName name) :
    Entries (blockOpening name ++ (w ++ blockClosing)) [] [IsBlock name qs ps] where
  plain hr := by
    rcases mem_append.1 hr with hr | hr
    · exact (piece_blockOpening hname).plain hr
    · exact (mem_append.1 hr).elim h.plain (by decide)
  reads {source} pre {tail p zs} hsource hr hp htail hfree := by
    have hopen : Spells (blockOpening name) _ (w ++ (blockClosing ++ tail)) :=
      (piece_blockOpening hname).spells trivial
    revert hsource htail hopen
    generalize blockOpening name = opening
    intro hsource htail hopen
    rw [Pos.advance_append, Pos.advance_append] at htail
    simp only [append_assoc] at hsource ⊢
    -- the tokens, from the end to the front
    obtain ⟨cs, hcs, hcsigns, hclast⟩ := piece_blockClosing.spells trivial _ _ htail
    obtain ⟨c, rfl, hc⟩ : ∃ c, cs = [c] ∧ c.sign = (.rbrace, "\x7d") := by
      obtain ⟨c, l, rfl, hc, hl⟩ := map_eq_cons_iff.1 hcsigns
      rw [map_eq_nil_iff.1 hl]
      exact ⟨c, rfl, hc⟩
    obtain ⟨us, hus, -, hreads⟩ := h.reads (pre ++ opening)
      (by rw [hsource, append_assoc]) hr (by rw [Pos.offset_advance, hp, length_append])
      hcs (SemiFree.of_signs hcsigns (by decide))
    obtain ⟨vs, hvs, hvsigns, hvlast⟩ := hopen p _ hus
    have hpos : 2 ≤ vs.length := by
      rw [length_map_sign hvsigns]
      simp
    have hne := ne_nil_of_length_pos (Nat.lt_of_lt_of_le Nat.zero_lt_two hpos)
    refine ⟨vs ++ (us ++ [c]), ?_, ?_, fun t n ht hrest _ hn => ?_⟩
    · simpa using hvs
    · rw [append_assoc]
      exact SemiFree.of_signs hvsigns (by decide)
    simp only [length_append, length_cons, length_nil] at hn
    obtain ⟨n, rfl⟩ : ∃ m, n = m + 2 := ⟨n - 2, by omega⟩
    have hinner : ∀ u : ParseState, u.Closed → u.rest = us ++ c :: zs → u.last = vs.getLast? →
        Reads source qs ps (pre ++ opening ++ w).length n us (c :: zs) u := by
      intro u hu hurest hulast
      refine hreads u n hu hurest ?_ (by omega)
      rw [hulast, stopOf_getLast? hne hvlast, hp, length_append]
    obtain ⟨m, u, hrun, hu, hurest, hulast, hm⟩ := namespaceWithin_block hname hvsigns ht
      (by simpa using hrest) (tokensOf_closed hus) hinner (Token.kind_of_sign hc) hfree (by omega)
    refine ⟨1, u, [], [m], ?_, hu, hurest, ?_, .nil, .cons hm .nil, ?_⟩
    · simp only [length_append]
      omega
    · rw [hulast, stopOf, Option.map_some, Option.getD_some, hclast c rfl, Pos.offset_advance,
        Pos.offset_advance, hp]
      simp only [length_append]
      omega
    · intro braced topLevel more v hmore
      have hkind : (t.ahead 0).kind = .namespaceKw := by
        have hahead : (t.ahead 0).sign = (.namespaceKw, "namespace") :=
          t.sign_ahead (by rw [hrest, map_append, map_append, hvsigns]) rfl
        exact Token.kind_of_sign hahead
      refine ⟨_, namespaceBodyWithin_entry (k := .inner) ?_ nofun (bind_ok hrun) hmore,
        rfl, rfl⟩
      simp [ParseState.roundKind, Token.isWord, hkind]

-- ===== files

/-- A text that is read to its end as what a namespace holds is a source file. -/
theorem parse_of_body {ts : List Token} {first : Nat} {b : NamespaceBody} {u : ParseState}
    (htokens : tokensOf {} false w = .ok ts)
    (hbody : namespaceBodyWithin w (ParseState.ofTokens ts first).bound false true
      (.ofTokens ts first) = .ok (b, u)) (hend : (u.ahead 0).kind = .eof) :
    ∃ file next, SourceFile.parse (String.ofList w) first = .ok (file, next)
      ∧ file.usings = b.usings ∧ file.types = b.types ∧ file.namespaces = b.namespaces := by
  have hfresh := tokensOf_fresh htokens
  obtain ⟨file, hfile, hsame⟩ := sourceFile_ok hbody hend
  refine ⟨file, u.nextNode, parse_eq_ok_iff.2 ⟨ts, u, ?_, ?_, rfl⟩, hsame⟩
  · rw [String.toList_ofList, stripMark_of_tokensOf hfresh]
    exact hfresh
  · rw [String.toList_ofList, stripMark_of_tokensOf hfresh]
    exact hfile

/-- A text of entries is a source file. -/
theorem Entries.parse (h : Entries w qs ps) (first : Nat) :
    ∃ file next, SourceFile.parse (String.ofList (w ++ ['\n'])) first = .ok (file, next)
      ∧ Meets qs file.types ∧ Meets ps file.namespaces := by
  obtain ⟨e, he, hkind⟩ : ∃ e, tokensOf (({} : Pos).advance w) false ['\n'] = .ok [e]
      ∧ e.kind = .eof := ⟨_, tokensOf_of_end rfl rfl, rfl⟩
  have hfree : SemiFree [e] := by
    rintro z l hz
    rw [← (List.cons.inj hz).1, hkind]
    decide
  have hplain : '\r' ∉ w ++ ['\n'] := by
    rw [mem_append, not_or]
    exact ⟨h.plain, by decide⟩
  obtain ⟨vs, hvs, -, hreads⟩ := h.reads [] (p := {}) rfl hplain rfl he hfree
  have hstate : 16 * ((vs ++ [e]).length + 1) ≤ (ParseState.ofTokens (vs ++ [e]) first).bound := by
    have := ParseState.length_le_bound (s := .ofTokens (vs ++ [e]) first) rfl
    rwa [length_map] at this
  rw [length_append] at hstate
  have hclosed := closed_ofTokens (s := .ofTokens (vs ++ [e]) first) (tokensOf_closed hvs)
  obtain ⟨k, u, types, spaces, hk, hu, hrest, -, htypes, hspaces, hbody⟩ :=
    hreads _ (ParseState.ofTokens (vs ++ [e]) first).bound hclosed rfl rfl (by omega)
  have hend : (u.ahead 0).kind = .eof := by rw [ParseState.ahead_zero hrest, hkind]
  obtain ⟨m, hm⟩ : ∃ m, (ParseState.ofTokens (vs ++ [e]) first).bound - k = m + 1 :=
    ⟨(ParseState.ofTokens (vs ++ [e]) first).bound - k - 1, by omega⟩
  have hlast : namespaceBodyWithin (w ++ ['\n']) (m + 1) false true u = .ok ({}, u) :=
    namespaceBodyWithin_end (.inl hend)
  rw [← hm] at hlast
  obtain ⟨body, hrun, hbtypes, hbspaces⟩ := hbody false true {} u hlast
  obtain ⟨file, next, hparse, -, hftypes, hfspaces⟩ := parse_of_body hvs hrun hend
  refine ⟨file, next, hparse, ?_, ?_⟩
  · rw [hftypes, hbtypes, append_nil]
    exact htypes
  · rw [hfspaces, hbspaces, append_nil]
    exact hspaces

end SourceBundle

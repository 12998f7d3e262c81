/-
Statements in front of declarations. A file may hold attribute sections
and statements between its usings and its declarations, and they declare
nothing. They are passed over without a trace if a semicolon ends them:
a file of usings, statements and declarations, each of which reads on
its own, holds the usings and the declarations
(`SourceFile.parse_past_statements`).

Without a semicolon the reader is still within the statement when it
comes to the declarations, and passes over the first of them with it
(`SourceFile.parse_past_section`).

# Locals

A statement leaves the locals behind that it declares, and the
declarations after it are read from a state that has them. They do not
look at locals (`Aloof`), so they are read as from a state without.
-/
import SourceBundle.Proofs.Parse.Collections
import SourceBundle.Proofs.Parse.Crossing

namespace SourceBundle

open List Parse

variable {e : Token} {zs : List Token} {t : ParseState} {m : Nat} {source : List Char}

-- ===== parts

/-- Tokens in front of the declarations of a file. On their own they read as usings, and as
statements at the top level; a semicolon ends them, and their brackets are closed. -/
structure Forepart (topLevel : Bool) (ts : List Token) (usings : List UsingDirective) : Prop where
  ends : ∀ x, ts.getLast? = some x → x.kind = .semi
  reads : ∃ e u, Token.Closed (ts ++ [e]) ∧ Bracketed (ts ++ [e])
    ∧ namespaceBodyWithin [] (ParseState.ofTokens (ts ++ [e])).bound false topLevel
      (.ofTokens (ts ++ [e])) = .ok ({ usings }, u)

theorem ahead_append {c : Kind} {x : Token} {ys : List Token} (hx : x.kind = c)
    (front : List Token) : Ahead .plain ys zs c (front ++ x :: ys) (front ++ x :: zs) := by
  induction front with
  | nil => exact .stop rfl hx
  | cons _ _ ih => exact .cons rfl ih

theorem Forepart.passes {topLevel : Bool} {ts : List Token} {usings : List UsingDirective}
    (h : Forepart topLevel ts usings) (ht : t.Closed) (hrest : t.rest = ts ++ zs)
    (hlocals : t.locals = #[]) (hm : 16 * t.weight + 2 ≤ m) :
    ∃ usings' m' r, Alike usings usings' ∧ Passes [] zs topLevel usings' m t m' r := by
  obtain ⟨e, u, hclosed, hbrackets, hread⟩ := h.reads
  have hs : (ParseState.ofTokens (ts ++ [e])).Closed :=
    closed_ofTokens (s := .ofTokens (ts ++ [e])) hclosed
  have hacross : Across .plain e zs (.ofTokens (ts ++ [e])) t := by
    rcases eq_nil_or_concat' ts with rfl | ⟨front, x, rfl⟩
    · exact .inr ⟨rfl, ht, hrest⟩
    · refine .inl ⟨hs, ht, rfl, ?_, trivial, by rw [hlocals]; rfl⟩
      rw [hrest]
      show Ahead _ _ _ _ (front ++ [x] ++ [e]) _
      rw [append_assoc, append_assoc]
      exact ahead_append (h.ends x getLast?_concat) front
  exact passes_of_across hacross hs hbrackets
    (ParseState.weight_add_two_le_bound _) hm hread rfl rfl

/-- What reads without statements reads in the same way where there may be statements. -/
theorem namespaceBodyWithin_raise {braced : Bool} : ∀ {n : Nat} {s u : ParseState}
    {b : NamespaceBody}, namespaceBodyWithin source n braced false s = .ok (b, u) →
    namespaceBodyWithin source n braced true s = .ok (b, u)
  | 0, _, _, _, h => by cases h
  | n + 1, s, u, b, h => by
    have hentry : ∀ {kind : RoundKind} {entry : NamespaceBody} {w : ParseState},
        entryWithin source n false kind s = .ok (entry, w) →
        entryWithin source n true kind s = .ok (entry, w) := by
      intro kind entry w h
      cases kind with
      | other => cases h
      | _ => exact h
    rw [namespaceBodyWithin_succ] at h ⊢
    split at h
    next hkind => rwa [if_pos hkind]
    next hkind =>
    obtain ⟨entry, w, hfirst, h⟩ := bind_eq_ok h
    obtain ⟨more, _, hmore, h⟩ := bind_eq_ok h
    rw [if_neg hkind, bind_ok (hentry hfirst), bind_ok (namespaceBodyWithin_raise hmore)]
    exact h

/-- Tokens that read as declarations, without statements. -/
structure Afterpart (ts : List Token) (b : NamespaceBody) : Prop where
  closed : Token.Closed ts
  reads : ∃ u, namespaceBodyWithin [] (ParseState.ofTokens ts).bound false false (.ofTokens ts)
    = .ok (b, u)

/-- Declarations are read in the same way whatever was read before them. -/
theorem Afterpart.run {ts : List Token} {b : NamespaceBody} (h : Afterpart ts b) (ht : t.Closed)
    (hrest : t.rest = ts) (hm : 16 * t.weight + 2 ≤ m) :
    ∃ b' v, namespaceBodyWithin [] m false true t = .ok (b', v) ∧ Alike b b'
      ∧ (v.ahead 0).kind = .eof := by
  obtain ⟨u, hread⟩ := h.reads
  have hfacing : Facing .plain (.ofTokens ts) (t.withLocals #[]) := by
    refine ⟨closed_ofTokens (s := .ofTokens ts) h.closed, ⟨ht.rest, ht.eof⟩, rfl, ?_, trivial, rfl⟩
    show Ahead _ _ _ _ ts t.rest
    rw [hrest]
    exact ahead_of_closed (forall₂_same.2 fun _ _ => rfl) h.closed
  have habreast := ((namespacesSim (Pairing.texts_nil .plain) (ParseState.ofTokens ts).bound).body
    false false).abreast hfacing trivial (ParseState.weight_add_two_le_bound _) hm
  rw [hread] at habreast
  generalize hplain : namespaceBodyWithin [] m false false (t.withLocals #[]) = x at habreast
  cases habreast with
  | @ok _ b' _ v halike _ =>
    have hlocals := ((Aloof.namespaces [] m).body false).run (t.withLocals #[]) t.locals
    rw [hplain] at hlocals
    have hrun := namespaceBodyWithin_raise hlocals
    exact ⟨b', _, hrun, halike, namespaceBodyWithin_atEnd ht hm hrun⟩

-- ===== files

theorem Token.Closed.append {us : List Token} (h : Token.Closed (us ++ [e]))
    (hzs : Token.Closed zs) :
    Token.Closed (us ++ zs) := by
  induction us with
  | nil => exact hzs
  | cons x us ih =>
    rw [cons_append] at h ⊢
    by_cases hx : x.kind = .eof
    · rw [Token.closed_cons_eof hx] at h
      exact absurd h (append_ne_nil_of_right_ne_nil _ (cons_ne_nil e []))
    · obtain ⟨hholes, hrest⟩ := (Token.closed_cons hx).1 h
      exact (Token.closed_cons hx).2 ⟨hholes, ih hrest⟩

theorem Forepart.closed_append {topLevel : Bool} {ts : List Token} {usings : List UsingDirective}
    (h : Forepart topLevel ts usings) (hzs : Token.Closed zs) : Token.Closed (ts ++ zs) := by
  obtain ⟨e, u, hclosed, -⟩ := h.reads
  exact hclosed.append hzs

/-- The file holds the usings, and what the body declares. -/
structure SourceFile.Comprises (f : SourceFile) (usings : List UsingDirective) (b : NamespaceBody) :
    Prop where
  usings : Alike f.usings (usings ++ b.usings)
  types : Alike f.types b.types
  namespaces : Alike f.namespaces b.namespaces

theorem SourceFile.Comprises.alike {f g : SourceFile} {usings : List UsingDirective}
    {b : NamespaceBody}
    (hf : f.Comprises usings b) (hg : g.Comprises usings b) : Alike f g :=
  alike_sourceFile.2 ⟨hf.usings.trans hg.usings.symm, hf.types.trans hg.types.symm,
    hf.namespaces.trans hg.namespaces.symm⟩

section

variable {us ss ds : List Token} {usings : List UsingDirective} {b : NamespaceBody}

/-- A file of usings, statements and declarations holds the usings and the declarations. -/
theorem sourceFile_of_parts (hus : Forepart false us usings) (hss : Forepart true ss [])
    (hds : Afterpart ds b) :
    ∃ f v, sourceFile [] (.ofTokens (us ++ (ss ++ ds))) = .ok (f, v) ∧ f.Comprises usings b := by
  have hclosed : Token.Closed (us ++ (ss ++ ds)) :=
    hus.closed_append (hss.closed_append hds.closed)
  let t : ParseState := .ofTokens (us ++ (ss ++ ds))
  have ht : t.Closed := closed_ofTokens (s := t) hclosed
  obtain ⟨usings', m, r, husings, hpasses⟩ := hus.passes ht rfl rfl t.weight_add_two_le_bound
  obtain ⟨none', m', r', hnone, hpasses'⟩ := hss.passes hpasses.closed hpasses.rest
    (hpasses.locals rfl) hpasses.bound
  obtain ⟨b', v, hrun, halike, hend⟩ := hds.run hpasses'.closed hpasses'.rest hpasses'.bound
  have hbody : namespaceBodyWithin [] t.bound false true t
      = .ok ((b'.after none').after usings', v) := by
    rw [hpasses.reads, Parse.map_apply, hpasses'.reads, Parse.map_apply, hrun]
    rfl
  obtain ⟨f, hfile, hfusings, hftypes, hfspaces⟩ := sourceFile_ok hbody hend
  obtain ⟨hbusings, hbtypes, hbspaces⟩ := alike_namespaceBody.1 halike
  refine ⟨f, v, hfile, ?_, ?_, ?_⟩
  · rw [hfusings]
    exact Alike.append husings.symm (Alike.append hnone.symm hbusings.symm)
  · rw [hftypes]
    exact hbtypes.symm
  · rw [hfspaces]
    exact hbspaces.symm

/-- A text with such tokens is parsed to such a file, but for the texts of declarations. -/
theorem SourceFile.parse_of_parts {text : String} {ts : List Token} (hus : Forepart false us usings)
    (hss : Forepart true ss []) (hds : Afterpart ds b) (htokens : tokenize text = .ok ts)
    (hts : Alike ts (us ++ (ss ++ ds))) (first : Nat) :
    ∃ f next, SourceFile.parse text first = .ok (f, next) ∧ f.textless.Comprises usings b := by
  obtain ⟨g, v, hg, hcomprises⟩ := sourceFile_of_parts hus hss hds
  have hfacing := facing_ofTokens hts (tokenize_closed htokens)
    (hus.closed_append (hss.closed_append hds.closed)) first 0
  have habreast := abreast_sourceFile (Pairing.texts_nil _) hfacing
  rw [hg, congrFun (sourceFile_textless (stripMark text.toList)) (.ofTokens ts first),
    Parse.map_apply] at habreast
  rw [SourceFile.parse_eq htokens]
  generalize sourceFile (stripMark text.toList) (.ofTokens ts first) = x at habreast
  cases x with
  | error err => cases habreast
  | ok x =>
    cases habreast with
    | ok halike _ =>
      obtain ⟨husings, htypes, hspaces⟩ := alike_sourceFile.1 halike
      exact ⟨x.1, x.2.nextNode, rfl, husings.trans hcomprises.usings, htypes.trans hcomprises.types,
        hspaces.trans hcomprises.namespaces⟩

theorem forepart_nil (topLevel : Bool) : Forepart topLevel [] [] where
  ends _ h := by cases h
  reads := by
    refine ⟨.eof {}, .ofTokens [.eof {}], rfl, fun i hi => ?_, ?_⟩
    · obtain rfl : i = 0 := Nat.lt_one_iff.1 hi
      rfl
    · exact namespaceBodyWithin_end (n := 31) (.inl rfl)

end

-- ===== examples

/-- The tokens of a text, if it has any. -/
def textTokens (text : String) : List Token :=
  (tokenize text).toOption.getD []

theorem tokenize_eq {text : String} (h : (textTokens text).isEmpty = false) :
    tokenize text = .ok (textTokens text) := by
  unfold textTokens at h ⊢
  cases htokens : tokenize text with
  | ok ts => rfl
  | error err =>
    rw [htokens] at h
    cases h

/-- Whether the tokens before the end read as a number of usings, and a semicolon ends them. -/
def isForepart (topLevel : Bool) (count : Nat) (ts : List Token) : Bool :=
  ts.dropLast.getLast?.all (·.kind == .semi)
    && (range ts.length).all (fun i => (sectionsLength? 0 (ts.drop i)).isSome)
    && match namespaceBodyWithin [] (ParseState.ofTokens ts).bound false topLevel
      (.ofTokens ts) with
      | .ok (b, _) => b.usings.length == count && b.types.isEmpty && b.namespaces.isEmpty
      | .error _ => false

theorem exists_forepart (topLevel : Bool) (count : Nat) {text : String}
    (hnone : (textTokens text).isEmpty = false)
    (h : isForepart topLevel count (textTokens text) = true) :
    ∃ usings, usings.length = count ∧ Forepart topLevel (textTokens text).dropLast usings := by
  have hclosed := tokenize_closed (tokenize_eq hnone)
  generalize textTokens text = ts at h hclosed
  have hsplit := dropLast_append_getLast hclosed.ne_nil
  simp only [isForepart, Bool.and_eq_true] at h
  obtain ⟨⟨hends, hbrackets⟩, hread⟩ := h
  split at hread
  next b u hbody =>
    simp only [Bool.and_eq_true, beq_iff_eq, List.isEmpty_iff] at hread
    obtain ⟨⟨hcount, htypes⟩, hspaces⟩ := hread
    obtain ⟨usings, types, namespaces⟩ := b
    subst hcount htypes hspaces
    refine ⟨usings, rfl, fun x hx => ?_, ts.getLast hclosed.ne_nil, u, ?_⟩
    · rw [hx] at hends
      exact beq_iff_eq.1 hends
    · rw [hsplit]
      refine ⟨hclosed, fun i hi => ?_, hbody⟩
      exact all_eq_true.1 hbrackets i (mem_range.2 hi)
  next => cases hread

/-- Whether the tokens read as declarations of namespaces with these names. -/
def isAfterpart (names : List String) (ts : List Token) : Bool :=
  match namespaceBodyWithin [] (ParseState.ofTokens ts).bound false false (.ofTokens ts) with
  | .ok (b, _) => b.namespaces.map (·.name) == names
  | .error _ => false

theorem exists_afterpart (names : List String) {text : String}
    (hnone : (textTokens text).isEmpty = false) (h : isAfterpart names (textTokens text) = true) :
    ∃ b, b.namespaces.map (·.name) = names ∧ Afterpart (textTokens text) b := by
  unfold isAfterpart at h
  split at h
  next b u hbody =>
    exact ⟨b, beq_iff_eq.1 h, tokenize_closed (tokenize_eq hnone), u, hbody⟩
  next => cases h

/-- A directive. -/
def frontText : String :=
  "using A; "

/-- An attribute section, a local function and a statement. -/
def statementsText : String :=
  "[assembly: X] void G() \x7b \x7d F(); "

/-- A namespace. -/
def spaceText : String :=
  "namespace N \x7b class C \x7b \x7d \x7d"

theorem partTexts : (textTokens frontText).isEmpty = false
    ∧ (textTokens statementsText).isEmpty = false ∧ (textTokens spaceText).isEmpty = false
    ∧ (textTokens (frontText ++ (statementsText ++ spaceText))).isEmpty = false
    ∧ (textTokens (frontText ++ spaceText)).isEmpty = false
    ∧ isForepart false 1 (textTokens frontText) = true
    ∧ isForepart true 0 (textTokens statementsText) = true
    ∧ isAfterpart ["N"] (textTokens spaceText) = true
    ∧ (textTokens statementsText).dropLast.length = 15
    ∧ Alike (textTokens (frontText ++ (statementsText ++ spaceText)))
      ((textTokens frontText).dropLast
        ++ ((textTokens statementsText).dropLast ++ textTokens spaceText))
    ∧ Alike (textTokens (frontText ++ spaceText))
      ((textTokens frontText).dropLast ++ textTokens spaceText) := by
  decide +kernel

theorem sectionText_parses :
    SourceFile.parses ("[assembly: X] " ++ spaceText) (·.namespaces.isEmpty) = true
      ∧ SourceFile.parses spaceText (·.namespaces.map (·.name) == ["N"]) = true := by
  decide +kernel

section

variable {us ss ds : List Token} {usings : List UsingDirective} {b : NamespaceBody}

/-- Statements between the usings of a file and its declarations are passed over, if a semicolon
ends them: the file is parsed as it is without them, up to the texts of declarations. -/
theorem SourceFile.parse_past_statements {text text' : String} {ts ts' : List Token}
    (hus : Forepart false us usings) (hss : Forepart true ss []) (hds : Afterpart ds b)
    (htokens : tokenize text = .ok ts) (hts : Alike ts (us ++ (ss ++ ds)))
    (htokens' : tokenize text' = .ok ts') (hts' : Alike ts' (us ++ ds)) (first first' : Nat) :
    ∃ f f' next next', SourceFile.parse text first = .ok (f, next)
      ∧ SourceFile.parse text' first' = .ok (f', next')
      ∧ Alike f.textless f'.textless ∧ f.textless.Comprises usings b := by
  obtain ⟨f, next, hparse, hcomprises⟩ := SourceFile.parse_of_parts hus hss hds htokens hts first
  obtain ⟨f', next', hparse', hcomprises'⟩ :=
    SourceFile.parse_of_parts hus (forepart_nil true) hds htokens' hts' first'
  exact ⟨f, f', next, next', hparse, hparse', hcomprises.alike hcomprises', hcomprises⟩

end

/-- The attribute section, the local function and the statement are passed over. -/
theorem SourceFile.parse_past_statements_local : ∃ us ss ds usings b, Forepart false us usings
    ∧ Forepart true ss [] ∧ Afterpart ds b ∧ ss.length = 15 ∧ b.namespaces.map (·.name) = ["N"]
    ∧ ∃ f f' next next',
      SourceFile.parse (frontText ++ (statementsText ++ spaceText)) = .ok (f, next)
      ∧ SourceFile.parse (frontText ++ spaceText) = .ok (f', next')
      ∧ Alike f.textless f'.textless ∧ f.textless.Comprises usings b := by
  obtain ⟨hfront, hstatements, hspace, htext, htext', husings, hpassed, hspaces,
    hlength, hts, hts'⟩ :=
    partTexts
  obtain ⟨usings, -, hus⟩ := exists_forepart false 1 hfront husings
  obtain ⟨none', hnone, hss⟩ := exists_forepart true 0 hstatements hpassed
  obtain ⟨b, hnames, hds⟩ := exists_afterpart ["N"] hspace hspaces
  rw [length_eq_zero_iff] at hnone
  subst hnone
  refine ⟨_, _, _, usings, b, hus, hss, hds, hlength, hnames, ?_⟩
  exact SourceFile.parse_past_statements hus hss hds (tokenize_eq htext) hts (tokenize_eq htext')
    hts' 0 0

/-- Without the semicolon the namespace after an attribute section is passed over with it. -/
theorem SourceFile.parse_past_section :
    ∃ f f' next next', SourceFile.parse ("[assembly: X] " ++ spaceText) = .ok (f, next)
      ∧ SourceFile.parse spaceText = .ok (f', next')
      ∧ f.namespaces = [] ∧ f'.namespaces.map (·.name) = ["N"] := by
  obtain ⟨f, next, hparse, hnone⟩ := SourceFile.exists_of_parses sectionText_parses.1
  obtain ⟨f', next', hparse', hnames⟩ := SourceFile.exists_of_parses sectionText_parses.2
  exact ⟨f, f', next, next', hparse, hparse', List.isEmpty_iff.1 hnone, beq_iff_eq.1 hnames⟩

end SourceBundle

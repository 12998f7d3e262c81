/-
Layout does not affect the tree. Two sources whose token lists agree in
kinds and texts, those of holes included, are parsed to trees that are
alike but for the texts of declarations, or neither is parsed and both
parses say the same at the same token.

# Places of tokens

That two parses stop at the same token is more than that they stop at
alike ones: the tokens have to stand at the same place in the two lists
(`Token.at?`), where a place in a hole is reached through the token that
has the hole. So the tokens that both parses may stop at are those that
are alike and stand at one place, and what they have in their holes are
again such tokens (`Pairing.opposite`).

# Texts

The text of a declaration is cut out of the source, and is the only thing
in the tree that is no matter of tokens. Reading tokens with no source at
all is reading them with the source and forgetting the texts
(`sourceFile_textless`), and without a source there is nothing in which
the texts of two declarations could differ.
-/
import SourceBundle.Proofs.Parse.Files
import SourceBundle.Proofs.Token.Tokens

namespace SourceBundle

open List Parse

variable (source : List Char)

-- ===== tokens that agree

namespace Token

mutual

/-- Whether two tokens agree in kind and text, and so do the tokens in their holes. -/
def agrees : Token → Token → Bool
  | { kind, text, holes := some hs, .. }, t' =>
    kind = t'.kind && text = t'.text && t'.holes.any (holesAgree hs ·)
  | { kind, text, holes := none, .. }, t' => kind = t'.kind && text = t'.text && t'.holes.isNone
termination_by structural t => t

/-- Whether two lists of tokens agree, token by token. -/
def listAgrees : List Token → List Token → Bool
  | [], ts' => ts'.isEmpty
  | t :: ts, ts' => ts'.head?.any (agrees t ·) && listAgrees ts ts'.tail
termination_by structural ts => ts

/-- Whether two lists of holes agree, hole by hole. -/
def holesAgree : List (List Token) → List (List Token) → Bool
  | [], hs' => hs'.isEmpty
  | h :: hs, hs' => hs'.head?.any (listAgrees h ·) && holesAgree hs hs'.tail
termination_by structural hs => hs

end

mutual

theorem agrees_iff : ∀ t t', agrees t t' = true ↔ Alike t t'
  | { kind, text, holes := some hs, .. }, t' => by
    rw [alike_token]
    cases hh : t'.holes with
    | none => simp [agrees, hh]
    | some hs' => simp [agrees, hh, holesAgree_iff hs hs', and_assoc]
  | { kind, text, holes := none, .. }, t' => by
    rw [alike_token]
    cases hh : t'.holes with
    | none => simp [agrees, hh]
    | some hs' => simp [agrees, hh]
termination_by structural t => t

theorem listAgrees_iff : ∀ ts ts', listAgrees ts ts' = true ↔ Alike ts ts'
  | [], ts' => by cases ts' <;> simp [listAgrees]
  | t :: ts, [] => by simp [listAgrees]
  | t :: ts, t' :: ts' => by simp [listAgrees, agrees_iff t t', listAgrees_iff ts ts']
termination_by structural ts => ts

theorem holesAgree_iff : ∀ hs hs', holesAgree hs hs' = true ↔ Alike hs hs'
  | [], hs' => by cases hs' <;> simp [holesAgree]
  | h :: hs, [] => by simp [holesAgree]
  | h :: hs, h' :: hs' => by simp [holesAgree, listAgrees_iff h h', holesAgree_iff hs hs']
termination_by structural hs => hs

end

end Token

instance (ts ts' : List Token) : Decidable (Alike ts ts') :=
  decidable_of_iff _ (Token.listAgrees_iff ts ts')

-- ===== texts

namespace TypeDecl

mutual

/-- A declaration without its text and those of the declarations in it. -/
def textless : TypeDecl → TypeDecl
  | { keyword, name, typeParams, baseTypes, members, nested, modifiers, params, baseArgs, span,
      dotless, .. } =>
    { keyword, name, typeParams, baseTypes, members, nested := textlessAll nested, modifiers,
      params, baseArgs, span, dotless }
termination_by structural d => d

/-- Declarations without their texts. -/
def textlessAll : List TypeDecl → List TypeDecl
  | [] => []
  | d :: ds => textless d :: textlessAll ds
termination_by structural ds => ds

end

theorem textlessAll_eq (ds : List TypeDecl) : textlessAll ds = ds.map textless := by
  induction ds with
  | nil => rfl
  | cons d ds ih => exact congrArg (textless d :: ·) ih

end TypeDecl

/-- A namespace without the texts of its declarations. -/
def NamespaceDecl.textless : NamespaceDecl → NamespaceDecl :=
  recast id TypeDecl.textless id

/-- What stands in a namespace, without the texts of declarations. -/
def NamespaceBody.textless (b : NamespaceBody) : NamespaceBody :=
  ⟨b.usings, b.types.map .textless, b.namespaces.map .textless⟩

/-- A source file without the texts of its declarations. -/
def SourceFile.textless (f : SourceFile) : SourceFile :=
  ⟨f.usings, f.types.map .textless, f.namespaces.map .textless, f.span⟩

/-- What stands between the braces of a type, without the texts of declarations. -/
def textlessMembers (b : List MemberDecl × List TypeDecl) : List MemberDecl × List TypeDecl :=
  (b.1, b.2.map .textless)

theorem declarationText_nil (start stop : Nat) : declarationText [] start stop = "" := by
  unfold declarationText
  rw [drop_nil, take_nil]
  rfl

/-- Without sources no texts differ, whatever stands for what. -/
theorem Pairing.texts_nil (M : Pairing) : M.Texts [] [] :=
  fun _ _ _ _ _ _ => by rw [declarationText_nil, declarationText_nil]

theorem TypeHeader.declaration_textless (header : TypeHeader)
    (body : List MemberDecl × List TypeDecl) (span : Span) (text : String) :
    header.declaration (textlessMembers body) span ""
      = (header.declaration body span text).textless := by
  unfold TypeHeader.declaration
  rw [TypeDecl.textless, TypeDecl.textlessAll_eq]
  rfl

theorem NamespaceDecl.textless_eq (m : NamespaceDecl) :
    m.textless
      = { m with types := m.types.map .textless, namespaces := m.namespaces.map .textless } := by
  obtain ⟨_, _, _, _, _, _⟩ := m
  rw [NamespaceDecl.textless, NamespaceDecl.recast, NamespaceDecl.recastAll_eq, map_id]
  rfl

-- ===== reading without a source

theorem Parse.map_apply {α β : Type} (f : α → β) (p : Parse α) (s : ParseState) :
    (f <$> p) s = (p s).map (Prod.map f id) := by
  show (p s >>= fun x => Except.ok (f x.1, x.2)) = _
  cases p s <;> rfl

theorem typeMembers_textless (keyword : TypeKeyword)
    (inner : Parse (List MemberDecl × List TypeDecl)) :
    typeMembers keyword (textlessMembers <$> inner)
      = textlessMembers <$> typeMembers keyword inner := by
  have hinner : typeInner keyword (textlessMembers <$> inner)
      = textlessMembers <$> typeInner keyword inner := by
    unfold typeInner
    split
    · simp only [map_bind, map_pure]
      rfl
    · rfl
  unfold typeMembers typeBlock
  rw [hinner]
  simp only [map_bind, bind_map_left, bind_assoc, pure_bind]
  refine bind_congr fun braces => ?_
  cases braces with
  | true => simp only [if_true, map_bind, map_pure]
  | false =>
    simp only [Bool.false_eq_true, if_false, map_bind]
    refine bind_congr fun semi => ?_
    cases semi with
    | true => rfl
    | false => rfl

theorem typeFrom_textless (start : Nat)
    {inner inner' : String → Parse (List MemberDecl × List TypeDecl)}
    (hinner : ∀ name, inner' name = textlessMembers <$> inner name) :
    typeFrom [] start inner' = Option.map .textless <$> typeFrom source start inner := by
  unfold typeFrom typeRest
  rw [map_bind]
  refine bind_congr fun header? => ?_
  cases header? with
  | none => rfl
  | some header =>
    simp only [hinner, typeMembers_textless, map_bind, bind_map_left, bind_assoc, pure_bind,
      map_pure, declarationText_nil, Option.map_some]
    refine bind_congr fun body => bind_congr fun span => bind_congr fun st => ?_
    rw [TypeHeader.declaration_textless]

theorem apart_map {α β : Type} (f : α → β) (p : Parse α) : apart (f <$> p) = f <$> apart p := by
  unfold apart withLocals
  simp only [map_bind, bind_map_left, bind_assoc, pure_bind, map_pure]

mutual

theorem typeDeclarationWithin_textless : ∀ n, typeDeclarationWithin [] n
    = Option.map .textless <$> typeDeclarationWithin source n
  | 0 => rfl
  | n + 1 => by
    rw [typeDeclarationWithin, typeDeclarationWithin, map_bind]
    refine bind_congr fun st => ?_
    rw [typeFrom_textless source st.lastStop (typeBodyWithin_textless n), apart_map]

theorem typeBodyWithin_textless : ∀ n name, typeBodyWithin [] n name
    = textlessMembers <$> typeBodyWithin source n name
  | 0, _ => rfl
  | n + 1, name => by
    rw [typeBodyWithin, typeBodyWithin, map_bind]
    refine bind_congr fun isClose => ?_
    rw [map_bind]
    refine bind_congr fun isEnd => ?_
    split
    · rfl
    rw [map_bind]
    refine bind_congr fun semi => ?_
    split
    · rw [typeBodyWithin_textless n]
    rw [map_bind]
    refine bind_congr fun st => ?_
    split
    · rw [typeDeclarationWithin_textless n, typeBodyWithin_textless n]
      simp only [map_bind, bind_map_left, map_pure]
      refine bind_congr fun nested? => bind_congr fun more => ?_
      cases nested? <;> rfl
    · rw [typeBodyWithin_textless n]
      simp only [map_bind, bind_map_left, map_pure]
      rfl

end

theorem typeDeclaration_textless :
    typeDeclaration [] = Option.map .textless <$> typeDeclaration source := by
  unfold typeDeclaration
  rw [map_bind]
  exact bind_congr fun st => typeDeclarationWithin_textless source st.bound

mutual

theorem namespaceBodyWithin_textless : ∀ n braced topLevel, namespaceBodyWithin [] n braced topLevel
    = NamespaceBody.textless <$> namespaceBodyWithin source n braced topLevel
  | 0, _, _ => rfl
  | n + 1, braced, topLevel => by
    rw [namespaceBodyWithin, namespaceBodyWithin, namespaceBodyWithin_textless n braced topLevel,
      namespaceWithin_textless n, typeDeclaration_textless source, map_bind]
    refine bind_congr fun st => ?_
    dsimp only
    split
    · rfl
    split
    · rw [map_bind]
    split
    · simp only [map_bind, bind_map_left, map_pure]
      rfl
    split
    · simp only [map_bind, bind_map_left, map_pure]
      rfl
    split
    · rw [map_bind]
    split
    · simp only [map_bind, bind_map_left, map_pure]
      refine bind_congr fun first? => bind_congr fun more => ?_
      cases first? <;> rfl
    split
    · rw [map_bind]
    · rfl

theorem namespaceWithin_textless : ∀ n, namespaceWithin [] n
    = NamespaceDecl.textless <$> namespaceWithin source n
  | 0 => rfl
  | n + 1 => by
    have hcontent : ∀ isFileScoped,
        namespaceContent isFileScoped (namespaceBodyWithin [] n false false)
          (namespaceBodyWithin [] n true false)
        = NamespaceBody.textless <$> namespaceContent isFileScoped
          (namespaceBodyWithin source n false false) (namespaceBodyWithin source n true false) := by
      intro isFileScoped
      rw [namespaceBodyWithin_textless n false, namespaceBodyWithin_textless n true]
      unfold namespaceContent bracedNamespace
      split
      · rfl
      · simp only [map_bind, bind_map_left, map_pure]
    rw [namespaceWithin, namespaceWithin]
    simp only [hcontent, map_bind, bind_map_left, map_pure, NamespaceDecl.textless_eq]
    rfl

end

/-- Without a source a file is read as it is with one, but for the texts. -/
theorem sourceFile_textless : sourceFile [] = SourceFile.textless <$> sourceFile source := by
  unfold sourceFile
  simp only [map_bind]
  refine bind_congr fun start => bind_congr fun st => ?_
  rw [namespaceBodyWithin_textless source]
  simp only [bind_map_left, map_pure]
  rfl

-- ===== places

namespace Token

/-- The tokens in a hole, which is reached through holes in holes. Each is given by the index of
the token that has it and its number among the holes of the token. -/
def listAt? : List Token → List (Nat × Nat) → Option (List Token)
  | ts, [] => some ts
  | ts, (i, k) :: path => do listAt? (← (← (← ts[i]?).holes)[k]?) path

/-- Where a token stands: in the list itself or in a hole, and at which index there. -/
structure Place where
  path : List (Nat × Nat)
  index : Nat

/-- The token at a place. -/
def at? (ts : List Token) (place : Place) : Option Token := do
  (← listAt? ts place.path)[place.index]?

variable {ts ts' us us' hole hole' : List Token} {x y : Token} {path : List (Nat × Nat)} {i k : Nat}

theorem listAt?_append (h : listAt? ts path = some us) (hx : us[i]? = some x)
    {hs : List (List Token)} (hholes : x.holes = some hs) (hk : hs[k]? = some hole) :
    listAt? ts (path ++ [(i, k)]) = some hole := by
  induction path generalizing ts with
  | nil =>
    cases h
    show (us[i]?.bind fun t => t.holes.bind fun hs => hs[k]?.bind fun hole => some hole) = _
    rw [hx, Option.bind_some, hholes, Option.bind_some, hk]
    rfl
  | cons step path ih =>
    obtain ⟨t, ht, h⟩ := Option.bind_eq_some_iff.1 h
    obtain ⟨gs, hgs, h⟩ := Option.bind_eq_some_iff.1 h
    obtain ⟨us', hus', h⟩ := Option.bind_eq_some_iff.1 h
    show (ts[step.1]?.bind fun t => t.holes.bind fun hs => hs[step.2]?.bind fun hole =>
      listAt? hole (path ++ [(i, k)])) = _
    rw [ht, Option.bind_some, hgs, Option.bind_some, hus', Option.bind_some]
    exact ih h

/-- Two tokens are alike and stand at one place in two lists. -/
structure Opposite (ts ts' : List Token) (x y : Token) : Prop where
  alike : Alike x y
  place : ∃ place, at? ts place = some x ∧ at? ts' place = some y

/-- In holes at one place, alike tokens are opposite one another. -/
theorem opposite_of_alike (h : listAt? ts path = some us) (h' : listAt? ts' path = some us')
    (halike : List.Forall₂ Alike us us') : List.Forall₂ (Opposite ts ts') us us' := by
  obtain ⟨hlength, hget⟩ := forall₂_iff_get.1 halike
  refine forall₂_iff_get.2 ⟨hlength, fun i hi hi' => ⟨hget i hi hi', ⟨path, i⟩, ?_, ?_⟩⟩
  · show (listAt? ts path).bind (·[i]?) = _
    rw [h]
    exact getElem?_eq_getElem hi
  · show (listAt? ts' path).bind (·[i]?) = _
    rw [h']
    exact getElem?_eq_getElem hi'

/-- What opposite tokens have in their holes is opposite too. -/
theorem Opposite.holes {hs hs' : List (List Token)} (h : Opposite ts ts' x y)
    (hx : x.holes = some hs) (hy : y.holes = some hs') :
    List.Forall₂ (List.Forall₂ (Opposite ts ts')) hs hs' := by
  obtain ⟨⟨path, i⟩, hplace, hplace'⟩ := h.place
  obtain ⟨us, hus, hxi⟩ := Option.bind_eq_some_iff.1 hplace
  obtain ⟨us', hus', hyi⟩ := Option.bind_eq_some_iff.1 hplace'
  obtain ⟨hlength, hget⟩ := forall₂_iff_get.1 (forall₂_holes h.alike hx hy)
  refine forall₂_iff_get.2 ⟨hlength, fun k hk hk' => ?_⟩
  exact opposite_of_alike (listAt?_append hus hxi hx (getElem?_eq_getElem hk))
    (listAt?_append hus' hyi hy (getElem?_eq_getElem hk')) (hget k hk hk')

end Token

/-- Tokens at one place in two lists. -/
def Pairing.opposite (ts ts' : List Token) : Pairing :=
  .anywhere (Token.Opposite ts ts') Token.Opposite.alike Token.Opposite.holes

-- ===== layout

/-- Before anything is read, two closed lists of alike tokens stand side by side. -/
theorem facing_ofTokens {ts ts' : List Token} (halike : Alike ts ts') (hclosed : Token.Closed ts)
    (hclosed' : Token.Closed ts') (first first' : Nat) :
    Facing (.opposite ts ts') (.ofTokens ts first) (.ofTokens ts' first') where
  left := closed_ofTokens (s := .ofTokens ts first) hclosed
  right := closed_ofTokens (s := .ofTokens ts' first') hclosed'
  within := rfl
  rest := by
    have hroot : ∀ us, Token.listAt? us [] = some us := fun _ => rfl
    exact ahead_of_closed (Token.opposite_of_alike (hroot ts) (hroot ts') halike.forall₂) hclosed
  last := trivial
  locals := alike_nil

theorem ParseError.message_eq {e e' : ParseError} (hfault : e.fault = e'.fault)
    (htoken : Alike e.token e'.token) : e.message = e'.message := by
  have hshown : e.token.shown = e'.token.shown := by
    rw [Token.shown, Token.shown, Token.kind_eq_of_alike htoken, Token.text_eq_of_alike htoken]
  rw [ParseError.message, ParseError.message, ParseError.words, ParseError.words, hfault, hshown]

theorem tokenize_closed {text : String} {ts : List Token} (h : tokenize text = .ok ts) :
    Token.Closed ts := by
  rw [tokenize, tokenizeChars_eq] at h
  exact tokensOf_closed h

theorem SourceFile.parse_eq {text : String} {ts : List Token} (htokens : tokenize text = .ok ts)
    (first : Nat) :
    SourceFile.parse text first
      = match sourceFile (stripMark text.toList) (.ofTokens ts first) with
        | .error e => .error (.parse e)
        | .ok (f, s) => .ok (f, s.nextNode) := by
  rw [SourceFile.parse, htokens]
  dsimp only
  rw [parseTokens]
  cases sourceFile (stripMark text.toList) (.ofTokens ts first) <;> rfl

/-- Layout does not affect the tree. Two texts whose tokens agree in kind and text, and so do all
tokens in their holes, are parsed to files that are alike but for the texts of declarations, or
both parses stop with the same message at tokens that stand at the same place. -/
theorem SourceFile.parse_layout {text text' : String} {ts ts' : List Token}
    (htokens : tokenize text = .ok ts) (htokens' : tokenize text' = .ok ts') (halike : Alike ts ts')
    (first first' : Nat) :
    (∃ e e' place, SourceFile.parse text first = .error (.parse e)
        ∧ SourceFile.parse text' first' = .error (.parse e') ∧ e.message = e'.message
        ∧ Token.at? ts place = some e.token ∧ Token.at? ts' place = some e'.token)
      ∨ ∃ f f' next next', SourceFile.parse text first = .ok (f, next)
        ∧ SourceFile.parse text' first' = .ok (f', next') ∧ Alike f.textless f'.textless := by
  have hfacing := facing_ofTokens halike (tokenize_closed htokens) (tokenize_closed htokens') first
    first'
  have habreast := abreast_sourceFile (Pairing.texts_nil _) hfacing
  rw [SourceFile.parse_eq htokens, SourceFile.parse_eq htokens']
  -- what is read without a source is what is read with one, but for the texts
  rw [congrFun (sourceFile_textless (stripMark text.toList)) (.ofTokens ts first),
    congrFun (sourceFile_textless (stripMark text'.toList)) (.ofTokens ts' first'),
    Parse.map_apply, Parse.map_apply] at habreast
  generalize sourceFile (stripMark text.toList) (.ofTokens ts first) = x,
    sourceFile (stripMark text'.toList) (.ofTokens ts' first') = y at habreast
  cases x with
  | error e =>
    cases y with
    | error e' =>
      cases habreast with
      | error hfails =>
        obtain ⟨place, hplace, hplace'⟩ := hfails.token.place
        exact .inl ⟨e, e', place, rfl, rfl, ParseError.message_eq hfails.fault hfails.token.alike,
          hplace, hplace'⟩
    | ok y => cases habreast
  | ok x =>
    cases y with
    | error e' => cases habreast
    | ok y =>
      cases habreast with
      | ok hfiles _ => exact .inr ⟨x.1, y.1, x.2.nextNode, y.2.nextNode, rfl, rfl, hfiles⟩

/-- A class on one line. -/
def terseText : String :=
  "class A \x7b int F() => $\"\x7bG<int>(1)\x7d\"; \x7d"

/-- The class on lines of its own, with comments. -/
def airyText : String :=
  "// a class\nclass A\n\x7b\n  int F ( ) /* calls */ =>\n    $\"\x7bG<int>(1)\x7d\" ;\n\x7d\n"

/-- The class is parsed alike whatever its layout. -/
theorem SourceFile.parse_layout_terse :
    ∃ ts ts', tokenize terseText = .ok ts ∧ tokenize airyText = .ok ts' ∧ Alike ts ts'
      ∧ ∃ f f' next next', SourceFile.parse terseText = .ok (f, next)
        ∧ SourceFile.parse airyText = .ok (f', next') ∧ Alike f.textless f'.textless := by
  have hexists : ∀ {text : String}, (tokenize text).isOk = true → ∃ ts, tokenize text = .ok ts := by
    intro text hok
    cases htokens : tokenize text with
    | ok ts => exact ⟨ts, rfl⟩
    | error e =>
      rw [htokens] at hok
      cases hok
  obtain ⟨ts, htokens⟩ := @hexists terseText (by decide +kernel)
  obtain ⟨ts', htokens'⟩ := @hexists airyText (by decide +kernel)
  have halike : Alike ((tokenize terseText).toOption.getD [])
      ((tokenize airyText).toOption.getD []) := by
    decide +kernel
  rw [htokens, htokens'] at halike
  refine ⟨ts, ts', htokens, htokens', halike, ?_⟩
  rcases SourceFile.parse_layout htokens htokens' halike 0 0 with ⟨e, e', place, hparse, -⟩ | hfiles
  · have hok : (SourceFile.parse terseText).isOk = true := by decide +kernel
    rw [hparse] at hok
    cases hok
  · exact hfiles

end SourceBundle

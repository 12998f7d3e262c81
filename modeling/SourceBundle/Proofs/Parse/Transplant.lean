/-
The text of a declaration makes the same declaration wherever it stands
(`TypeDecl.Stands`, `stands_of_declares`): after blank lines in any
source, if what follows can be read and is no semicolon.

The tokens of the text are moved with their offsets (`Front.moved`), and
the two parses are then paired token by token. What they take the texts
of declarations from is paired too (`placing_texts`): the text of the
whole starts before the blank lines, those of nested ones inside.
-/
import SourceBundle.Proofs.Parse.Occurrence
import SourceBundle.Proofs.Token.Gaps

namespace SourceBundle

open List Parse Text

variable {source source' pre pre' gap gap' body tail tail' : List Char} {s t u w : ParseState}
  {d : TypeDecl}

-- ===== places

theorem stretchOf_front {i : Nat} (hi : i ≤ body.length) :
    stretchOf (pre ++ (gap ++ (body ++ tail))) pre.length ((pre ++ gap).length + i)
      = gap ++ body.take i := by
  rw [stretchOf, drop_left, length_append,
    show pre.length + gap.length + i - pre.length = gap.length + i by omega,
    take_length_add_append, take_append_of_le_length hi]

theorem stretchOf_inside {i j : Nat} (hi : i ≤ body.length) (hj : j ≤ body.length) :
    stretchOf (pre ++ (gap ++ (body ++ tail))) ((pre ++ gap).length + i) ((pre ++ gap).length + j)
      = (body.drop i).take (j - i) := by
  rw [stretchOf, ← append_assoc, drop_length_add_append,
    drop_append_of_le_length hi, take_append_of_le_length,
    show (pre ++ gap).length + j - ((pre ++ gap).length + i) = j - i by omega]
  rw [length_drop]
  omega

theorem stretchOf_empty {start stop : Nat} (h : stop ≤ start) :
    stretchOf source start stop = [] := by
  rw [stretchOf, Nat.sub_eq_zero_of_le h, take_zero]

/-- Offsets of two texts of length `L` that follow blank lines: both in front of these, or both
equally far inside. -/
def SamePlace (a o a' o' L : Nat) (i i' : Nat) : Prop :=
  (i = a ∧ i' = a') ∨ ∃ k ≤ L, i = o + k ∧ i' = o' + k

/-- The pairing of the tokens of two texts of length `L` that start at `o` and `o'`, after blank
lines that start at `a` and `a'`. -/
def placing (a o a' o' L : Nat) : Pairing :=
  .ofAlike (Token.Shifted o o' L) (fun x y => SamePlace a o a' o' L (stopOf x) (stopOf y))
    (fun h => .inr h.2) (fun h => h.1)

theorem placing_texts (hsource : source = pre ++ (gap ++ (body ++ tail)))
    (hsource' : source' = pre' ++ (gap' ++ (body ++ tail'))) (hgap : BlankLines gap)
    (hgap' : BlankLines gap') (hr : '\r' ∉ source) (hr' : '\r' ∉ source') :
    (placing pre.length (pre ++ gap).length pre'.length (pre' ++ gap').length body.length).Texts
      source source' := by
  have hempty : ∀ {i j i' j' : Nat}, j ≤ i → j' ≤ i' →
      declarationText source i j = declarationText source' i' j' := fun h h' =>
    declarationText_congr hr hr' .nil .nil (stretchOf_empty h) (stretchOf_empty h')
  rintro o o' u u' (⟨ho, ho'⟩ | ⟨i, hi, ho, ho'⟩) (⟨hu, hu'⟩ | ⟨j, hj, hu, hu'⟩)
  · exact hempty (by omega) (by omega)
  · rw [ho, hu, ho', hu', hsource, hsource']
    exact declarationText_congr (hsource ▸ hr) (hsource' ▸ hr') hgap hgap' (stretchOf_front hj)
      (stretchOf_front hj)
  · rw [length_append] at ho ho'
    exact hempty (by omega) (by omega)
  · rw [ho, hu, ho', hu', hsource, hsource']
    exact declarationText_congr (hsource ▸ hr) (hsource' ▸ hr') .nil .nil (stretchOf_inside hi hj)
      (stretchOf_inside hi hj)

-- ===== what is read

/-- Tokens that are taken are those that are no longer there, and the last of them is the token
taken last. -/
theorem Goes.append {α : Type} {j : Nat} {a : α} (h : Goes j s (.ok (a, w))) :
    ∃ vs, s.rest = vs ++ w.rest ∧ j ≤ vs.length ∧ w.last = vs.getLast?.or s.last ∧ w.rest ≠ [] := by
  have hpos := h.length_pos
  obtain ⟨k, hj, hk, hrest, hlast, -⟩ := h
  rw [ParseState.rest_drop] at hrest
  refine ⟨s.rest.take k, ?_, ?_, ?_, ne_nil_of_length_pos hpos⟩
  · rw [hrest, take_append_drop]
  · rw [length_take]
    omega
  · rw [hlast]
    cases k with
    | zero => rfl
    | succ k =>
      rw [ParseState.last_drop_succ s (by omega), getLast?_take, if_neg (by omega),
        Nat.add_sub_cancel, getElem?_eq_getElem (by omega)]
      rfl

/-- The tokens after some are those of the rest of the source, which starts where the last of
them stops. -/
theorem tokensOf_after {vs us : List Token} (h : tokensOf {} true source = .ok (vs ++ us))
    (hus : us ≠ []) :
    ∃ pre rest p fresh, source = pre ++ rest ∧ p.offset = pre.length
      ∧ stopOf vs.getLast? = pre.length ∧ tokensOf p fresh rest = .ok us := by
  rcases eq_nil_or_concat vs with rfl | ⟨vs, z, rfl⟩
  · exact ⟨[], source, {}, true, rfl, rfl, rfl, h⟩
  · rw [concat_append] at h
    obtain ⟨pre, rest, rfl, hstop, hrest, -⟩ := tokensOf_split h ((tokensOf_closed h).ne_eof hus)
    have hzero : ({} : Pos).offset = 0 := rfl
    rw [hzero, Nat.zero_add] at hstop
    refine ⟨pre, rest, _, false, rfl, ?_, ?_, hrest⟩
    · rw [Pos.offset_advance, hzero, Nat.zero_add]
    · rw [concat_eq_append, getLast?_concat]
      exact hstop

theorem ahead_of_forall₂ {M : Pairing} {v vs' ys zs : List Token} {x : Token}
    (h : List.Forall₂ M.tok (v ++ [x]) vs') :
    Ahead M ys zs x.kind (v ++ x :: ys) (vs' ++ zs) := by
  induction v generalizing vs' with
  | nil =>
    cases h with
    | cons hxy h =>
      cases h
      exact .stop hxy rfl
  | cons t v ih =>
    cases h with
    | cons hty h => exact .cons hty (ih h)

/-- What stands past the modifiers is a word that declares a type. -/
theorem startsPast_of_keyword (hs : s.Closed)
    (h : ((s.drop (modifierCount s.rest)).ahead 0).isTypeKeyword
      ((s.drop (modifierCount s.rest)).ahead 1) = true) : startsPast s.rest = true := by
  have hclosed := hs.drop (modifierCount_lt hs.rest)
  obtain ⟨x, l, hx⟩ := hclosed.cons
  have hne := Token.kind_ne_eof_of_isTypeKeyword h
  have hrest := hclosed.rest
  rw [ParseState.ahead_zero hx] at h hne
  rw [hx] at hrest
  obtain ⟨y, l, rfl⟩ := exists_cons_of_ne_nil ((Token.closed_cons hne).1 hrest).2.ne_nil
  rw [ParseState.ahead, hx] at h
  rw [ParseState.rest_drop] at hx
  rw [startsPast, hx]
  exact h

/-- A declaration starts where one is opened. -/
theorem startsTypeDeclaration_of_opening {header : TypeHeader} (hs : s.Closed)
    (h : typeOpening s = .ok (some header, u)) : startsTypeDeclaration s.rest = true := by
  obtain ⟨_, w, hsections, h⟩ := bind_eq_ok h
  rw [skipSections_eq] at hsections
  split at hsections
  next k hk =>
    cases hsections
    have hw := hs.drop (sectionsLength?_lt hs.rest hk)
    obtain ⟨span, v, hspan, h⟩ := bind_eq_ok h
    cases hspan
    obtain ⟨ms, v, hms, h⟩ := bind_eq_ok h
    cases hms
    obtain ⟨isDelegate, v, hcheck, h⟩ := bind_eq_ok h
    cases hcheck
    split at h
    · obtain ⟨-, v, -, h⟩ := bind_eq_ok h
      cases h
    · obtain ⟨isKeyword, v, hcheck, h⟩ := bind_eq_ok h
      cases hcheck
      split at h
      next hkeyword =>
        rw [startsTypeDeclaration_eq, hk]
        dsimp only
        rw [← ParseState.rest_drop]
        exact startsPast_of_keyword hw hkeyword
      next => cases h
  next => cases hsections

-- ===== elsewhere

/-- From the tokens to come, a declaration is read that is alike, up to the tokens `zs` and the
offset `stop`. -/
structure Yields (source : List Char) (d : TypeDecl) (stop : Nat) (zs : List Token)
    (t : ParseState) : Prop where
  starts : startsTypeDeclaration t.rest = true
  run : ∃ d' v, typeDeclaration source t = .ok (some d', v) ∧ Alike d d' ∧ v.rest = zs
    ∧ stopOf v.last = stop

/-- The text of a declaration has no carriage returns and makes the same declaration wherever it
stands: after blank lines that start where the last token stops, if what follows can be read and is
no semicolon. -/
structure TypeDecl.Stands (d : TypeDecl) : Prop where
  plain : '\r' ∉ d.text.toList
  moved : ∀ {source} (pre gap) {tail p zs}, source = pre ++ (gap ++ (d.text.toList ++ tail)) →
    '\r' ∉ source → BlankLines gap → p.offset = (pre ++ gap).length →
    tokensOf (p.advance d.text.toList) false tail = .ok zs → SemiFree zs →
    ∃ vs, tokensOf p true (d.text.toList ++ tail) = .ok (vs ++ zs) ∧
      ∀ t : ParseState, t.Closed → t.rest = vs ++ zs → stopOf t.last = pre.length →
        Yields source d (pre ++ gap ++ d.text.toList).length zs t

/-- A declaration as it stands in a source: the state before it and the one after it, and the
text between the two, which follows blank lines and has the tokens `front` and `last`. -/
structure Excerpt (source : List Char) (d : TypeDecl) where
  pre : List Char
  gap : List Char
  tail : List Char
  pos : Pos
  front : List Token
  last : Token
  before : ParseState
  after : ParseState
  bound : Nat
  source_eq : source = pre ++ (gap ++ (d.text.toList ++ tail))
  blank : BlankLines gap
  offset_pos : pos.offset = (pre ++ gap).length
  tokens : Front (fun _ => True) pos true d.text.toList (front ++ [last])
  stop_last : last.stop = (pre ++ gap ++ d.text.toList).length
  barrier : last.kind.isBarrier = true
  closed : before.Closed
  rest_before : before.rest = front ++ last :: after.rest
  stop_before : stopOf before.last = pre.length
  last_after : after.last = some last
  enough : 16 * before.weight + 1 ≤ bound
  run : typeDeclarationWithin source bound before = .ok (some d, after)

theorem typeDeclarationWithin_goes {n : Nat} {d? : Option TypeDecl} (hs : s.Closed)
    (hn : 16 * s.weight + 1 ≤ n) (h : typeDeclarationWithin source n s = .ok (d?, u)) :
    Goes 1 s (.ok (d?, u)) := by
  have hgo := ((declarationSim (Pairing.same_texts source) n).declaration 0).goes hs
    (fun _ _ => Nat.zero_le _) hn
  rwa [h] at hgo

/-- A declaration that is read somewhere in a source has a text of its own there. -/
theorem Arises.excerpt {ts : List Token} {n : Nat} (hr : '\r' ∉ source)
    (htokens : tokensOf {} true source = .ok ts) (harises : Arises source (.ofTokens ts n) d) :
    Nonempty (Excerpt source d) := by
  obtain ⟨b, w, u, hgo, -, hb, hrun⟩ := harises
  have hw := hgo.closed (closed_ofTokens (s := .ofTokens ts n) (tokensOf_closed htokens))
  -- the tokens before the declaration, its own and those after it
  obtain ⟨vs, hts, -, hlast, hne⟩ := hgo.append
  rw [show ts = vs ++ w.rest from hts] at htokens
  obtain ⟨x, hx, hkind⟩ := typeDeclarationWithin_last hw hb hrun
  obtain ⟨own, hown, hlen, hulast, -⟩ := (typeDeclarationWithin_goes hw hb hrun).append
  obtain ⟨v, x', rfl⟩ := (eq_nil_or_concat own).resolve_left
    (ne_nil_of_length_pos hlen)
  rw [concat_eq_append, getLast?_concat, hx] at hulast
  cases hulast
  rw [concat_append] at hown
  have hbarrier : x.kind.isBarrier = true := by rcases hkind with h | h <;> rw [h] <;> rfl
  have heof : x.kind ≠ .eof := by rcases hkind with h | h <;> rw [h] <;> decide
  -- where its text lies
  obtain ⟨pre, rest, p, fresh, rfl, hp, hstop, hrest⟩ := tokensOf_after htokens hne
  rw [hown] at hrest
  obtain ⟨w₁, tail, rfl, hxstop, -, hfront, -⟩ := tokensOf_split hrest heof
  obtain ⟨-, c, hc, hblank⟩ := hfront hbarrier
  have hwlast : stopOf w.last = pre.length := by
    rw [hlast, show (ParseState.ofTokens ts n).last = none from rfl, Option.or_none]
    exact hstop
  have hstretch : stretchOf (pre ++ (w₁ ++ tail)) pre.length x.stop = w₁ := by
    rw [stretchOf, drop_left, hxstop, hp, Nat.add_sub_cancel_left, take_left]
  have htext : d.text = declarationText (pre ++ (w₁ ++ tail)) pre.length x.stop := by
    obtain ⟨b, rfl⟩ : ∃ b', b = b' + 1 := ⟨b - 1, by omega⟩
    obtain ⟨header, -, -, body, span, -, -, rfl, -⟩ := typeDeclarationWithin_eq_ok hrun
    rw [hwlast, hx]
    rfl
  obtain ⟨gap, hgap, hw₁⟩ := stretchOf_eq hr (hstretch ▸ mem_of_getLast? hc) hblank
  rw [hstretch, ← htext] at hw₁
  subst hw₁
  rw [append_assoc] at hrest
  -- the blank lines left out, the tokens are those of the text
  obtain ⟨w₂, tail₂, hsplit, hxstop₂, -, hfront₂, -⟩ :=
    tokensOf_split (tokensOf_blankLines hgap hrest) heof
  have hlength : d.text.toList.length = w₂.length := by
    rw [hxstop, Pos.offset_advance, length_append] at hxstop₂
    omega
  obtain ⟨rfl, rfl⟩ := append_inj hsplit hlength
  exact ⟨{
    pre, gap, tail, pos := p.advance gap, front := v, last := x, before := w, after := u, bound := b
    source_eq := by rw [append_assoc]
    blank := hgap
    offset_pos := by rw [Pos.offset_advance, hp, length_append]
    tokens := (hfront₂ hbarrier).1
    stop_last := by
      rw [hxstop, hp, length_append, length_append, length_append, Nat.add_assoc]
    barrier := hbarrier
    closed := hw
    rest_before := hown
    stop_before := hwlast
    last_after := hx
    enough := hb
    run := hrun }⟩

/-- The text of a declaration that is read somewhere makes the same one elsewhere. -/
theorem Excerpt.stands (e : Excerpt source d) (hr : '\r' ∉ source) : d.Stands := by
  have hplain : '\r' ∉ d.text.toList := fun hmem => hr (by rw [e.source_eq]; simp [hmem])
  refine ⟨hplain, ?_⟩
  intro source' pre gap tail p zs hsource' hr' hgap hp hzs hsemi
  obtain ⟨vs, hvs, htokens⟩ := e.tokens.moved p tail trivial
  rw [hzs] at htokens
  refine ⟨vs, htokens, fun t ht hrest hlast => ?_⟩
  have hlength : 0 < d.text.toList.length := by
    rcases e.tokens.guarded ['a'] trivial with hstops | ⟨c, hc, -⟩
    · exact absurd (hstops 'a' rfl) (by decide)
    · exact length_pos_of_mem (mem_of_getLast? hc)
  have htexts := placing_texts e.source_eq hsource' e.blank hgap hr hr'
  rw [e.offset_pos, hp] at hvs
  have hahead : Ahead (placing e.pre.length (e.pre ++ e.gap).length pre.length (pre ++ gap).length
      d.text.toList.length) e.after.rest zs e.last.kind e.before.rest t.rest := by
    rw [e.rest_before, hrest]
    exact ahead_of_forall₂ hvs
  obtain ⟨d?, v, hrun, hd, hv, hvlast⟩ := typeDeclarationWithin_arrives htexts e.closed ht e.barrier
    hahead (.inl ⟨e.stop_before, hlast⟩) e.enough t.weight_lt_bound hsemi e.run rfl
  cases d? with
  | none => cases hd
  | some d' =>
    refine ⟨?_, d', v, (typeDeclaration_eq ..).trans hrun, alike_some.1 hd, hv, ?_⟩
    · obtain ⟨header, w, -, -, -, hopening, -⟩ := typeDeclarationWithin_eq_ok
        (n := 16 * t.weight + 15) hrun
      exact startsTypeDeclaration_of_opening (s := { t with locals := #[] }) ⟨ht.rest, ht.eof⟩
        hopening
    · -- both texts end with their last token
      rw [e.last_after] at hvlast
      have hlast := e.stop_last
      rw [length_append] at hlast ⊢
      rcases hvlast with ⟨hstop, -⟩ | ⟨k, -, hstop, hstop'⟩
      · have hle : e.pre.length ≤ (e.pre ++ e.gap).length := by rw [length_append]; omega
        have hstop : e.last.stop = e.pre.length := hstop
        omega
      · have hstop : e.last.stop = (e.pre ++ e.gap).length + k := hstop
        omega

/-- What a parse of a text is made of: its tokens, and the parse of these. -/
theorem parse_eq_ok_iff {text : String} {first next : Nat} {file : SourceFile} :
    SourceFile.parse text first = .ok (file, next) ↔
      ∃ ts u, tokensOf {} true (stripMark text.toList) = .ok ts
        ∧ sourceFile (stripMark text.toList) (.ofTokens ts first) = .ok (file, u)
        ∧ u.nextNode = next := by
  rw [SourceFile.parse, tokenize, tokenizeChars_eq]
  cases tokensOf {} true (stripMark text.toList) with
  | error e => exact ⟨nofun, nofun⟩
  | ok ts =>
    unfold parseTokens
    dsimp only
    cases hrun : sourceFile (stripMark text.toList) (.ofTokens ts first) with
    | error e =>
      refine ⟨nofun, ?_⟩
      rintro ⟨ts', u, hts, hrun', -⟩
      cases hts
      cases hrun.symm.trans hrun'
    | ok r =>
      constructor
      · intro h
        cases h
        exact ⟨ts, r.2, rfl, hrun, rfl⟩
      · rintro ⟨ts', u, hts, hrun', rfl⟩
        cases hts
        cases hrun.symm.trans hrun'
        rfl

theorem mem_of_mem_stripMark {c : Char} {cs : List Char} (h : c ∈ stripMark cs) : c ∈ cs := by
  unfold stripMark at h
  split at h
  · exact mem_cons_of_mem _ h
  · exact h

/-- The text of a declaration of a source makes the same declaration elsewhere. -/
theorem stands_of_declares {text : String} {first next : Nat} {file : SourceFile}
    (hr : '\r' ∉ text.toList) (h : SourceFile.parse text first = .ok (file, next))
    (hd : file.Declares d) : d.Stands := by
  obtain ⟨ts, u, htokens, hrun, -⟩ := parse_eq_ok_iff.1 h
  have hclosed := closed_ofTokens (s := .ofTokens ts first) (tokensOf_closed htokens)
  have hr' : '\r' ∉ stripMark text.toList := fun hmem => hr (mem_of_mem_stripMark hmem)
  obtain ⟨e⟩ := (sourceFile_arises hclosed hrun hd).excerpt hr' htokens
  exact e.stands hr'

end SourceBundle

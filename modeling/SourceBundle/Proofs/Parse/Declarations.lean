/-
Type declarations, simulated, and moved to another place.

A declaration starts after attribute sections, and whether one starts at
all is seen by looking past them. On the left the sections may reach
past the barrier; both readers that could follow pass over the same
sections first, so that the left one is then past the barrier or has
failed, whichever of them it is.

The text of a declaration is the only thing in it that depends on the
source beyond the tokens. `Texts` says that two sources have the same
text between tokens that stand for each other.
-/
import SourceBundle.Proofs.Parse.Members

namespace SourceBundle

open Parse

variable {M : Pairing} {φ : ParseState → Prop} {n r j : Nat}

-- ===== headers

instance : Bare Parse.TypeHeader :=
  ⟨fun h => { h with start := default, params := bare h.params, baseTypes := bare h.baseTypes,
                     baseArgs := bare h.baseArgs }⟩

theorem alike_typeHeader {h h' : TypeHeader} :
    Alike h h' ↔ h.modifiers = h'.modifiers ∧ h.keyword = h'.keyword ∧ h.name = h'.name
      ∧ h.typeParams = h'.typeParams ∧ Alike h.params h'.params
      ∧ Alike h.baseTypes h'.baseTypes ∧ Alike h.baseArgs h'.baseArgs := by
  show TypeHeader.mk _ _ _ _ _ _ _ _ _ = TypeHeader.mk _ _ _ _ _ _ _ _ _ ↔ _
  simp only [TypeHeader.mk.injEq, true_and]
  rfl

theorem alike_declaration {h h' : TypeHeader} {b b' : List MemberDecl × List TypeDecl}
    {span span' : Span} {text : String} (hh : Alike h h') (hb : Alike b b') :
    Alike (h.declaration b span text) (h'.declaration b' span' text) := by
  obtain ⟨hmodifiers, hkeyword, hname, htypeParams, hparams, hbaseTypes, hbaseArgs⟩ :=
    alike_typeHeader.1 hh
  obtain ⟨hmembers, hnested⟩ := alike_pair.1 hb
  rw [alike_typeDecl]
  exact ⟨hkeyword, hname, htypeParams, hbaseTypes, hmembers, hnested, hmodifiers, hparams,
    hbaseArgs, rfl⟩

theorem sim_typeKeyword :
    Sim M true (fun s => (s.ahead 0).kind ≠ .eof) n 0 1 typeKeyword (fun _ => typeKeyword) := by
  unfold typeKeyword
  refine Sim.advance (fun _ hs => hs) (.inl rfl) fun x y hxy => ?_
  rw [← Token.kind_eq_of_alike hxy]
  split
  · exact Sim.pure rfl
  · exact Sim.pure rfl
  · exact Sim.pure rfl
  · exact Sim.pure rfl
  · exact Sim.accept rfl (Sim.pure rfl) (Sim.accept rfl (Sim.pure rfl) (Sim.pure rfl))

theorem sim_baseList : Sim M true Anywhere n 0 0 baseList (fun _ => baseList) := by
  unfold baseList
  refine Sim.accept rfl ?_ (Sim.pure rfl)
  refine Sim.bind (sim_typeRef true) fun type type' htype => ?_
  refine Sim.bind (Sim.whenNext (sim_argumentList rfl)) fun as bs habs => ?_
  refine Sim.accept rfl ?_ (Sim.pure (by simp [htype, habs]))
  exact Sim.bind sim_types fun types types' htypes => Sim.pure (by simp [htype, htypes, habs])

theorem sim_typeHeader {start start' : Span} {modifiers : List String} :
    Sim M true (fun s => (s.ahead 0).kind ≠ .eof) n 0 1 (typeHeader start modifiers)
      (fun _ => typeHeader start' modifiers) := by
  unfold typeHeader
  refine Sim.bindFrom (fun _ hs => hs) (Nat.le_refl 0) sim_typeKeyword fun k k' hk => ?_
  refine Sim.bind (Sim.expectName rfl) fun name name' hname => ?_
  cases alike_typeKeyword.1 hk
  cases alike_name.1 hname
  refine Sim.bind (Sim.whenNext sim_typeParamList) fun as bs habs => ?_
  refine Sim.bind (Sim.whenNext (sim_parameterList rfl)) fun ps ps' hps => ?_
  refine Sim.bind sim_baseList fun base base' hbase => ?_
  obtain ⟨htypes, hargs⟩ := alike_pair.1 hbase
  refine Sim.bind sim_skipConstraints fun _ _ _ => Sim.pure ?_
  rw [alike_typeHeader]
  exact ⟨rfl, rfl, rfl, alike_strings.1 habs, hps, htypes, hargs⟩

-- ===== openings

theorem Token.isTypeKeyword_congr {t t' next next' : Token} (ht : Alike t t')
    (hnext : t.kind = .ident → next.kind = next'.kind) :
    t.isTypeKeyword next = t'.isTypeKeyword next' := by
  rw [Token.isTypeKeyword, Token.isTypeKeyword, ← Token.kind_eq_of_alike ht,
    ← Token.text_eq_of_alike ht]
  split
  · rfl
  · rfl
  · rfl
  · rfl
  · rfl
  next hkind => rw [hnext hkind]
  · rfl

theorem Token.kind_ne_eof_of_isTypeKeyword {t next : Token} (h : t.isTypeKeyword next = true) :
    t.kind ≠ .eof := by
  intro heof
  rw [Token.isTypeKeyword, heof] at h
  cases h

theorem look_atTypeKeyword : Look M φ atTypeKeyword
    (fun s => (s.ahead 0).isTypeKeyword (s.ahead 1)) where
  eq _ := rfl
  alike {ys zs c s t} hb _ := Token.isTypeKeyword_congr (M.alike hb.ahead_zero) fun hkind =>
    hb.kind_one (by rw [hkind]; rfl)

theorem sim_skipDelegate : Sim M true Anywhere n 0 1 skipDelegate (fun _ => skipDelegate) := by
  unfold skipDelegate
  refine Sim.peekStop fun N x y hxy => ?_
  refine Sim.bind Sim.takeUntil fun _ _ _ => ?_
  exact Sim.accept rfl (Sim.pure rfl) (Sim.failAt rfl hxy)

theorem sim_typeOpening {k : Nat} :
    Sim M true (SectionsFrom k) n 0 (k + 1) typeOpening (fun _ => typeOpening) := by
  unfold typeOpening
  refine Sim.bindFrom (fun _ hs => hs) (Nat.le_refl 0) Sim.skipSectionsFrom fun _ _ _ => ?_
  rw [Nat.add_sub_cancel_left]
  refine Sim.here fun start start' => ?_
  refine Sim.bind sim_modifiers fun ms ms' hms => ?_
  rw [alike_strings] at hms
  subst hms
  refine Sim.check ?_ ?_
  · exact Sim.bind sim_skipDelegate fun _ _ _ => Sim.pure rfl
  · refine Sim.lookIf look_atTypeKeyword ?_ (Sim.unexpected rfl)
    exact Sim.bindFrom (fun s hs => Token.kind_ne_eof_of_isTypeKeyword hs.2) (by omega)
      sim_typeHeader fun h h' hh => Sim.pure (alike_some.2 hh)

-- ===== bodies

theorem sim_typeInner {keyword : TypeKeyword}
    {inner : Parse (List MemberDecl × List TypeDecl)}
    {inner' : Nat → Parse (List MemberDecl × List TypeDecl)}
    (h : Sim M true Anywhere n r 0 inner inner') :
    Sim M true Anywhere n r 0 (typeInner keyword inner)
      (fun m => typeInner keyword (inner' m)) := by
  unfold typeInner
  split
  · exact Sim.bind sim_enumMembers fun ms ms' hms => Sim.pure (alike_pair.2 ⟨hms, rfl⟩)
  · exact h

theorem sim_typeBlock {keyword : TypeKeyword}
    {inner : Parse (List MemberDecl × List TypeDecl)}
    {inner' : Nat → Parse (List MemberDecl × List TypeDecl)}
    (h : Sim M true Anywhere n r 0 inner inner') :
    Sim M true Anywhere n r 1 (typeBlock keyword inner)
      (fun m => typeBlock keyword (inner' m)) := by
  refine Sim.bindWithin (by omega) (sim_typeInner h) fun body body' hbody => ?_
  exact Sim.bind (Sim.expect (by split <;> rfl) rfl) fun _ _ _ => Sim.pure hbody

theorem sim_typeMembers {keyword : TypeKeyword}
    {inner : Parse (List MemberDecl × List TypeDecl)}
    {inner' : Nat → Parse (List MemberDecl × List TypeDecl)}
    (h : Sim M true Anywhere n r 0 inner inner') :
    Sim M true Anywhere n (r - 16) 1 (typeMembers keyword inner)
      (fun m => typeMembers keyword (inner' m)) := by
  unfold typeMembers
  refine Sim.accept rfl ?_ (Sim.accept rfl (Sim.pure rfl) (Sim.unexpected rfl))
  refine Sim.bindWithin (by omega) (sim_typeBlock h) fun body body' hbody => ?_
  exact Sim.bind (Sim.accepted rfl) fun _ _ _ => Sim.pure hbody

-- ===== starts of types

/-- Whether a declaration starts, as seen past the sections. -/
def startsPast (tokens : List Token) : Bool :=
  match tokens.drop (modifierCount tokens) with
  | [] => false
  | t :: ts => t.isTypeKeyword (ts.headD t)

theorem startsTypeDeclaration_eq (tokens : List Token) :
    startsTypeDeclaration tokens = match sectionsLength? 0 tokens with
      | none => false
      | some k => startsPast (tokens.drop k) := rfl

theorem Ahead.startsPast {ys zs l l' : List Token} {c : Kind} (hc : c.isBarrier = true)
    (h : Ahead M ys zs c l l') : startsPast l = startsPast l' := by
  obtain ⟨hcount, -, hlt⟩ := h.modifierCount hc
  have hdrop := (h.drop (SourceBundle.modifierCount l)).resolve_right (Nat.not_le.2 hlt)
  unfold SourceBundle.startsPast
  rw [← hcount]
  generalize l.drop (SourceBundle.modifierCount l) = u, l'.drop (SourceBundle.modifierCount l) = u'
    at hdrop
  cases hdrop with
  | @stop x y hxy hx =>
    refine Token.isTypeKeyword_congr (M.alike hxy) fun hkind => ?_
    rw [hx] at hkind
    rw [hkind] at hc
    cases hc
  | @cons x y u u' hxy hu =>
    refine Token.isTypeKeyword_congr (M.alike hxy) fun _ => ?_
    cases hu <;> exact Token.kind_eq_of_alike (M.alike ‹_›)

/-- Two readers, chosen by whether a declaration starts. Both pass over the sections first. -/
theorem Sim.ifStarts {α : Type} [Bare α] {p p' : Parse α} {q q' : Nat → Parse α}
    (hp : ∀ k, Sim M true (SectionsFrom k) n r (max k j) p q)
    (hp' : ∀ k, Sim M true (SectionsFrom k) n r (max k j) p' q') :
    Sim M true φ n r j (do if startsTypeDeclaration (← get).rest then p else p')
      (fun m => do if startsTypeDeclaration (← get).rest then q m else q' m) := by
  have hat : ∀ {p p' : Parse α} {s : ParseState},
      (do if startsTypeDeclaration (← get).rest then p else p' : Parse α) s
        = if startsTypeDeclaration s.rest then p s else p' s := by
    intro p p' s
    show (if startsTypeDeclaration s.rest = true then p else p') s = _
    split <;> rfl
  have hzero : ∀ s, SectionsFrom 0 s := fun _ _ _ => Nat.zero_le _
  constructor
  case goes =>
    intro s hs _ hn
    rw [hat]
    split
    · exact ((hp 0).goes hs (hzero s) hn).mono (Nat.le_max_right 0 j)
    · exact ((hp' 0).goes hs (hzero s) hn).mono (Nat.le_max_right 0 j)
  case pairs =>
    intro ys zs c s t m hb _ hn hm
    rw [hat, hat]
    -- sections that reach past the barrier take the left reader past it
    have hcross : ∀ {k : Nat}, c ≠ .eof → SectionsFrom k s → (s.drop k).rest.length ≤ ys.length →
        ∀ y, Pairs M true ys zs c (if startsTypeDeclaration s.rest then p s else p' s) y := by
      intro k hc hk hpast y
      have hpasts : ∀ {x : Except ParseError (α × ParseState)}, Goes (max k j) s x →
          Pairs M true ys zs c x y := by
        intro x hx
        match x with
        | .error e => exact .lost rfl hc
        | .ok (a, s') =>
          obtain ⟨k', hk', -, hrest, -⟩ := hx
          refine .past rfl ?_
          rw [Past, hrest, ParseState.rest_drop, List.length_drop]
          rw [ParseState.rest_drop, List.length_drop] at hpast
          have := Nat.le_trans (Nat.le_max_left k j) hk'
          omega
      split
      · exact hpasts ((hp k).goes hb.left hk hn)
      · exact hpasts ((hp' k).goes hb.left hk hn)
    have hsame : startsTypeDeclaration s.rest = startsTypeDeclaration t.rest →
        Pairs M true ys zs c (if startsTypeDeclaration s.rest then p s else p' s)
          (if startsTypeDeclaration t.rest then q m t else q' m t) := by
      intro hstarts
      rw [← hstarts]
      split
      · exact (hp 0).pairs hb (hzero s) hn hm
      · exact (hp' 0).pairs hb (hzero s) hn hm
    have hcounts := hb.rest.sectionsLength? hb.barrier 0
    have hsections : ∀ {k : Nat}, sectionsLength? 0 s.rest = some k → SectionsFrom k s :=
      fun hk k' hk' => Nat.le_of_eq (Option.some.inj (hk.symm.trans hk'))
    generalize hcount : sectionsLength? 0 s.rest = a at hcounts
    generalize hcount' : sectionsLength? 0 t.rest = b at hcounts
    cases hcounts with
    | neither =>
      exact hsame (by rw [startsTypeDeclaration_eq, startsTypeDeclaration_eq, hcount, hcount'])
    | both k =>
      rcases hb.drop (sectionsLength?_lt hb.left.rest hcount) with hb' | ⟨hpast, hc⟩
      · refine hsame ?_
        have hrest := hb'.rest
        rw [ParseState.rest_drop, ParseState.rest_drop] at hrest
        rw [startsTypeDeclaration_eq, startsTypeDeclaration_eq, hcount, hcount']
        exact hrest.startsPast hb.barrier
      · exact hcross hc (hsections hcount) hpast _
    | @past k _ hpast =>
      have hlt := sectionsLength?_lt hb.left.rest hcount
      have hc : c ≠ .eof := hb.ne_eof_of_past (u := s.drop k)
        (by rw [Past, ParseState.rest_drop]; exact hpast)
        (by rw [ParseState.rest_drop, List.length_drop]; omega)
      exact hcross hc (hsections hcount) (by rw [ParseState.rest_drop]; exact hpast) _
    | lost hc =>
      refine hcross (k := s.rest.length) hc (fun k' hk' => ?_) ?_ _
      · rw [hcount] at hk'
        cases hk'
      · rw [ParseState.rest_drop, List.length_drop, Nat.sub_self]
        exact Nat.zero_le _

-- ===== texts

/-- The offset past a token taken last. -/
def stopOf (o : Option Token) : Nat :=
  (o.map (·.stop)).getD 0

/-- Between tokens that stand for each other, two sources have the same text. -/
def Pairing.Texts (M : Pairing) (source source' : List Char) : Prop :=
  ∀ o o' u u', M.last o o' → M.last u u' →
    declarationText source (stopOf o) (stopOf u) = declarationText source' (stopOf o') (stopOf u')

/-- Each token for itself. -/
def Pairing.same : Pairing :=
  .ofAlike Eq Eq (fun h => h ▸ rfl) (fun h => h ▸ rfl)

theorem Pairing.same_texts (source : List Char) : Pairing.same.Texts source source := by
  rintro o o' u u' rfl rfl
  rfl

/-- A look at the token taken last. How far the left reader goes does not depend on what stands
for that token on the right. -/
theorem Sim.lastStop {α : Type} [Bare α] {loose : Bool} {f : Nat → Parse α}
    {g g' : Nat → Nat → Parse α}
    (hgoes : ∀ a, Sim Pairing.same loose φ n r j (f a) (g' · a))
    (hpairs : ∀ o o', M.last o o' → Sim M loose φ n r j (f (stopOf o)) (g · (stopOf o'))) :
    Sim M loose φ n r j (get >>= fun s => f s.lastStop)
      (fun m => get >>= fun t => g m t.lastStop) where
  goes {s} hs hφs hn := (hgoes s.lastStop).goes hs hφs hn
  pairs {_ _ _ s t _} hb hφs hn hm := (hpairs s.last t.last hb.last).pairs hb hφs hn hm

-- ===== declarations

/-- The readers of declarations at a bound. -/
structure DeclarationSim (M : Pairing) (source source' : List Char) (n : Nat) : Prop where
  declaration : ∀ k, Sim M true (SectionsFrom k) n 1 (k + 1) (typeDeclarationWithin source n)
    (typeDeclarationWithin source')
  body : ∀ name, Sim M true Anywhere n 2 0 (typeBodyWithin source n name)
    (typeBodyWithin source' · name)

namespace DeclarationSim

variable {source source' : List Char}

theorem typeRest (h : DeclarationSim M source source' n) {a a' : Nat} {header header' : TypeHeader}
    (htext : ∀ u u', M.last u u' →
      declarationText source a (stopOf u) = declarationText source' a' (stopOf u'))
    (hheader : Alike header header') :
    Sim M true Anywhere n 2 0 (typeRest source a (typeBodyWithin source n) header)
      (fun m => typeRest source' a' (typeBodyWithin source' m) header') := by
  obtain ⟨-, hkeyword, hname, -⟩ := alike_typeHeader.1 hheader
  unfold Parse.typeRest
  rw [← hkeyword, ← hname]
  refine Sim.bindWithin (by omega) (sim_typeMembers (h.body header.name)) fun body body' hbody => ?_
  refine Sim.spanFrom fun span span' => ?_
  refine Sim.lastStop
    (f := fun u => pure (header.declaration body span (declarationText source a u)))
    (g := fun _ u => pure (header'.declaration body' span' (declarationText source' a' u)))
    (fun u => Sim.pure rfl) fun u u' hu => Sim.pure ?_
  rw [htext u u' hu]
  exact alike_declaration hheader hbody

theorem typeFrom (h : DeclarationSim M source source' n) {a a' : Nat} (k : Nat)
    (htext : ∀ u u', M.last u u' →
      declarationText source a (stopOf u) = declarationText source' a' (stopOf u')) :
    Sim M true (SectionsFrom k) n 0 (k + 1) (typeFrom source a (typeBodyWithin source n))
      (fun m => typeFrom source' a' (typeBodyWithin source' m)) := by
  unfold Parse.typeFrom
  refine Sim.bindFrom (fun _ hs => hs) (Nat.le_refl 0) sim_typeOpening fun o o' ho => ?_
  rw [Nat.sub_self]
  match o, o', ho with
  | none, none, _ => exact Sim.pure rfl
  | some header, some header', ho =>
    refine Sim.bindWithin (by omega) (h.typeRest htext (alike_some.1 ho)) fun d d' hd => ?_
    exact Sim.pure (alike_some.2 hd)

theorem declaration_succ (h : DeclarationSim M source source' n)
    (hsame : DeclarationSim .same source source n) (htexts : M.Texts source source') (k : Nat) :
    Sim M true (SectionsFrom k) (n + 1) 1 (k + 1) (typeDeclarationWithin source (n + 1))
      (typeDeclarationWithin source') := by
  refine Sim.succ (typeDeclarationWithin.eq_2 source n) (typeDeclarationWithin.eq_2 source') ?_
  have hself : ∀ a, Sim .same true (SectionsFrom k) n 0 (k + 1)
      (apart (Parse.typeFrom source a (typeBodyWithin source n)))
      (fun m => apart (Parse.typeFrom source a (typeBodyWithin source m))) := fun a =>
    (hsame.typeFrom k fun u u' hu => congrArg (declarationText source a <| stopOf ·) hu).apart
      fun _ hs => hs
  exact Sim.lastStop (f := fun a => apart (Parse.typeFrom source a (typeBodyWithin source n)))
    (g := fun m a => apart (Parse.typeFrom source' a (typeBodyWithin source' m))) hself
    fun o o' ho => (h.typeFrom k fun u u' hu => htexts o o' u u' ho hu).apart fun _ hs => hs

theorem body_succ (h : DeclarationSim M source source' n) (name : String) :
    Sim M true Anywhere (n + 1) 2 0 (typeBodyWithin source (n + 1) name)
      (typeBodyWithin source' · name) := by
  refine Sim.succ (typeBodyWithin.eq_2 source name n)
    (fun m => typeBodyWithin.eq_2 source' name m) ?_
  refine Sim.look look_check fun isClose isClose' hclose => ?_
  refine Sim.look look_atEnd fun isEnd isEnd' hend => ?_
  cases alike_bool.1 hclose
  cases alike_bool.1 hend
  split
  · exact Sim.pure rfl
  refine Sim.accept rfl ((h.body name).of (by omega)) ?_
  refine Sim.ifStarts (fun k => ?_) fun k => ?_
  · refine Sim.bindFrom (fun _ hs => hs) (Nat.le_refl 1) (h.declaration k) fun d d' hd => ?_
    refine Sim.bindWithin (by omega) (h.body name) fun b b' hb => ?_
    obtain ⟨hmembers, hnested⟩ := alike_pair.1 hb
    refine (Sim.pure ?_).lower (by omega)
    exact alike_pair.2 ⟨hmembers, hd.toList.append hnested⟩
  · refine Sim.bindFrom (fun _ hs => hs) (Nat.zero_le 1) sim_member fun ms ms' hms => ?_
    refine Sim.bindWithin (by omega) (h.body name) fun b b' hb => ?_
    obtain ⟨hmembers, hnested⟩ := alike_pair.1 hb
    refine (Sim.pure ?_).lower (by omega)
    exact alike_pair.2 ⟨hms.append hmembers, hnested⟩

end DeclarationSim

theorem declarationSim {source source' : List Char} (htexts : M.Texts source source') (n : Nat) :
    DeclarationSim M source source' n := by
  induction n generalizing M source' with
  | zero => exact ⟨fun _ => .zero, fun _ => .zero⟩
  | succ n ih =>
    exact ⟨(ih htexts).declaration_succ (ih (Pairing.same_texts source)) htexts,
      (ih htexts).body_succ⟩

end SourceBundle

/-
Whole files. Their readers go by rounds, each of which looks at no more
than the kind and the text of the tokens ahead and at whether a
declaration starts. Sections in front of a declaration may go far, so
that this is the same on both sides of two parses only where the tokens
are paired up to the end (`Pairing.whole`): then the rounds of both take
the same branch, and the parses come to alike trees or stop at tokens
that both may stop at (`Abreast`).

# The bound

A namespace is read with one step more than what is left, its content
with two: the word `namespace` is taken in between, which pays sixteen.
Each round of the reader of namespaces takes a token, whichever of its
branches it comes to, so one step for each round is enough.

# The end

A body without braces ends at the end token only, so the end is never
missed where a file must have it.
-/
import SourceBundle.Proofs.Parse.Relocation

namespace SourceBundle

open Parse

variable {α β : Type} {M : Pairing} {source source' : List Char} {s t u w : ParseState}
  {n m r j : Nat} {φ : ParseState → Prop}

-- ===== trees

mutual

/-- A namespace with its directives, declarations and spans recast. -/
def NamespaceDecl.recast (onUsing : UsingDirective → UsingDirective)
    (onType : TypeDecl → TypeDecl) (onSpan : Span → Span) : NamespaceDecl → NamespaceDecl
  | { name, usings, types, namespaces, isFileScoped, span } =>
    { name, usings := usings.map onUsing, types := types.map onType,
      namespaces := NamespaceDecl.recastAll onUsing onType onSpan namespaces, isFileScoped,
      span := onSpan span }
termination_by structural m => m

/-- Namespaces with their directives, declarations and spans recast. -/
def NamespaceDecl.recastAll (onUsing : UsingDirective → UsingDirective)
    (onType : TypeDecl → TypeDecl) (onSpan : Span → Span) :
    List NamespaceDecl → List NamespaceDecl
  | [] => []
  | m :: ms =>
    NamespaceDecl.recast onUsing onType onSpan m
      :: NamespaceDecl.recastAll onUsing onType onSpan ms
termination_by structural ms => ms

end

theorem NamespaceDecl.recastAll_eq (onUsing : UsingDirective → UsingDirective)
    (onType : TypeDecl → TypeDecl) (onSpan : Span → Span) (ms : List NamespaceDecl) :
    recastAll onUsing onType onSpan ms = ms.map (recast onUsing onType onSpan) := by
  induction ms with
  | nil => rfl
  | cons m ms ih => exact congrArg (recast onUsing onType onSpan m :: ·) ih

instance : Bare NamespaceDecl :=
  ⟨NamespaceDecl.recast bare bare fun _ => default⟩

instance : Bare NamespaceBody :=
  ⟨fun b => ⟨bare b.usings, bare b.types, bare b.namespaces⟩⟩

instance : Bare SourceFile :=
  ⟨fun f => ⟨bare f.usings, bare f.types, bare f.namespaces, default⟩⟩

theorem alike_namespaceDecl {m m' : NamespaceDecl} :
    Alike m m' ↔ m.name = m'.name ∧ Alike m.usings m'.usings ∧ Alike m.types m'.types
      ∧ Alike m.namespaces m'.namespaces ∧ m.isFileScoped = m'.isFileScoped := by
  obtain ⟨_, _, _, _, _, _⟩ := m
  obtain ⟨_, _, _, _, _, _⟩ := m'
  show NamespaceDecl.recast _ _ _ _ = NamespaceDecl.recast _ _ _ _ ↔ _
  rw [NamespaceDecl.recast, NamespaceDecl.recast, NamespaceDecl.recastAll_eq,
    NamespaceDecl.recastAll_eq]
  simp only [NamespaceDecl.mk.injEq, and_true]
  rfl

theorem alike_namespaceBody {b b' : NamespaceBody} :
    Alike b b' ↔ Alike b.usings b'.usings ∧ Alike b.types b'.types
      ∧ Alike b.namespaces b'.namespaces := by
  show NamespaceBody.mk _ _ _ = NamespaceBody.mk _ _ _ ↔ _
  rw [NamespaceBody.mk.injEq]
  rfl

theorem alike_sourceFile {f f' : SourceFile} :
    Alike f f' ↔ Alike f.usings f'.usings ∧ Alike f.types f'.types
      ∧ Alike f.namespaces f'.namespaces := by
  show SourceFile.mk _ _ _ _ = SourceFile.mk _ _ _ _ ↔ _
  simp only [SourceFile.mk.injEq, and_true]
  rfl

-- ===== steps

theorem ParseState.weight_lt_bound (s : ParseState) : 16 * s.weight + 1 ≤ s.bound := by
  show 16 * s.weight + 1 ≤ 16 * (s.weight + 1)
  omega

theorem ParseState.weight_add_two_le_bound (s : ParseState) : 16 * s.weight + 2 ≤ s.bound := by
  show 16 * s.weight + 2 ≤ 16 * (s.weight + 1)
  omega

theorem Goes.take (hs : s.Closed) (hx : (s.ahead 0).kind ≠ .eof) :
    Goes 1 s (.ok ((), s.drop 1)) :=
  ⟨1, Nat.le_refl 1, hs.one_lt_length hx, rfl, rfl, rfl⟩

theorem Sim.goes_ok [Bare α] {loose : Bool} {p : Parse α} {q : Nat → Parse α} {a : α} {b : β}
    (h : Sim M loose φ n r j p q) (hrun : p s = .ok (a, u)) (hs : s.Closed) (hφ : φ s)
    (hn : 16 * s.weight + r ≤ n) : Goes j s (.ok (b, u)) := by
  have hgo := h.goes hs hφ hn
  rw [hrun] at hgo
  exact hgo

-- ===== up to the end

namespace Beside

variable {ys zs : List Token} {c : Kind}

theorem eq_eof (h : Beside M.whole ys zs c s t) : c = .eof :=
  of_decide_eq_true h.within

theorem next (h : Beside M.whole ys zs c s t) (hx : (s.ahead 0).kind ≠ .eof) :
    Beside M.whole ys zs c (s.drop 1) (t.drop 1) :=
  (h.drop_one hx).resolve_right fun hpast => hpast.2.2 h.eq_eof

theorem startsTypeDeclaration_eq (h : Beside M.whole ys zs c s t) :
    startsTypeDeclaration s.rest = startsTypeDeclaration t.rest := by
  have hcounts := h.rest.sectionsLength? h.barrier 0
  rw [SourceBundle.startsTypeDeclaration_eq, SourceBundle.startsTypeDeclaration_eq]
  generalize hcount : sectionsLength? 0 s.rest = a at hcounts
  generalize sectionsLength? 0 t.rest = b at hcounts
  cases hcounts with
  | neither => rfl
  | lost hc => exact absurd h.eq_eof hc
  | @past k _ hpast =>
    have hlt := sectionsLength?_lt h.left.rest hcount
    refine absurd h.eq_eof (h.ne_eof_of_past (u := s.drop k) ?_ ?_)
    · rwa [Past, ParseState.rest_drop]
    · rw [ParseState.rest_drop, List.length_drop]
      omega
  | both k =>
    have hdrop := (h.drop (sectionsLength?_lt h.left.rest hcount)).resolve_right fun hpast =>
      hpast.2 h.eq_eof
    have hrest := hdrop.rest
    rw [ParseState.rest_drop, ParseState.rest_drop] at hrest
    exact hrest.startsPast h.barrier

end Beside

-- ===== statements

theorem sim_skipItem : Sim M true (fun s => (s.ahead 0).kind ≠ .eof) n 0 1 skipItem
    (fun _ => skipItem) := by
  unfold skipItem
  refine Sim.bindFrom (fun _ hs => hs) (Nat.le_refl 0) sim_item fun a b hab => ?_
  match a, b, hab with
  | none, none, _ => exact Sim.pure rfl
  | some e, some e', hab =>
    exact Sim.bind (sim_localDeclaration (alike_some.1 hab)) fun _ _ _ => Sim.pure rfl

theorem skipStatementWithin_succ :
    skipStatementWithin (n + 1) s
      = if (s.ahead 0).kind = .eof then .ok ((), s)
        else if (s.ahead 0).kind = .semi then .ok ((), s.drop 1)
        else if (s.ahead 0).kind.isCloser then .error ⟨.strayCloser, s.ahead 0⟩
        else if startsTypeDeclaration s.rest then .ok ((), s)
        else (skipItem >>= fun _ => skipStatementWithin n) s := by
  rw [skipStatementWithin, bind_ok (p := atEnd) (a := decide ((s.ahead 0).kind = .eof)) rfl]
  by_cases heof : (s.ahead 0).kind = .eof
  · simp only [heof, decide_true, if_true]
    rfl
  simp only [heof, decide_false, Bool.false_eq_true, if_false]
  have haccept := accept_eq (s := s) (k := .semi) (by decide)
  by_cases hsemi : (s.ahead 0).kind = .semi
  · rw [if_pos hsemi] at haccept ⊢
    rw [bind_ok haccept]
    rfl
  rw [if_neg hsemi] at haccept ⊢
  rw [bind_ok haccept]
  show (if (s.ahead 0).kind.isCloser = true then _ else _ : Parse Unit) s = _
  split
  · rfl
  split
  · rfl
  · rfl

/-- A statement stands here: neither the end nor a declaration. -/
def AtStatement (s : ParseState) : Prop :=
  (s.ahead 0).kind ≠ .eof ∧ startsTypeDeclaration s.rest = false

/-- One round. It takes a token where a statement stands. -/
theorem sim_skipStatementWithin_succ
    (h : Sim M.whole true Anywhere n 1 0 (skipStatementWithin n) skipStatementWithin) (hj : j ≤ 1)
    (hφ : ∀ s, φ s → 0 < j → AtStatement s) :
    Sim M.whole true φ (n + 1) 1 j (skipStatementWithin (n + 1)) skipStatementWithin := by
  have hitem : Sim M.whole true (fun s => (s.ahead 0).kind ≠ .eof) n 0 1
      (skipItem >>= fun _ => skipStatementWithin n)
      (fun m => skipItem >>= fun _ => skipStatementWithin m) :=
    Sim.bindFrom (fun _ hs => hs) (Nat.le_refl 0) sim_skipItem fun _ _ _ => h.of (by omega)
  constructor
  case goes =>
    intro s hs hφs hn
    have hstay : ¬AtStatement s → Goes j s (.ok ((), s)) := fun hat => by
      obtain rfl : j = 0 := Nat.eq_zero_of_not_pos fun hpos => hat (hφ s hφs hpos)
      exact .stay hs
    rw [skipStatementWithin_succ]
    split
    next heof => exact hstay fun hat => hat.1 heof
    next heof =>
    split
    · exact (Goes.take hs heof).mono hj
    split
    · rfl
    split
    next hstarts => exact hstay fun hat => Bool.false_ne_true (hat.2.symm.trans hstarts)
    next => exact (hitem.goes hs heof (by omega)).mono hj
  case pairs =>
    intro ys zs c s t m hb _ hn hm
    obtain ⟨m, rfl⟩ : ∃ m', m = m' + 1 := ⟨m - 1, by omega⟩
    rw [skipStatementWithin_succ, skipStatementWithin_succ, ← hb.kind_zero,
      ← hb.startsTypeDeclaration_eq]
    split
    · exact .both rfl hb
    next heof =>
    split
    · exact .both rfl (hb.next heof)
    split
    · exact .fail ⟨rfl, M.stops hb.ahead_zero⟩
    split
    · exact .both rfl hb
    · exact hitem.pairs hb heof (by omega) (by omega)

theorem sim_skipStatementWithin :
    ∀ n, Sim M.whole true Anywhere n 1 0 (skipStatementWithin n) skipStatementWithin
  | 0 => .zero
  | n + 1 => sim_skipStatementWithin_succ (sim_skipStatementWithin n) (Nat.zero_le 1)
      fun _ _ h => absurd h (Nat.lt_irrefl 0)

theorem sim_skipStatement :
    Sim M.whole true AtStatement n 0 1 skipStatement (fun _ => skipStatement) := by
  refine Sim.atBound (r := 1) (fun n => ?_) (by decide)
  cases n with
  | zero => exact .zero
  | succ n =>
    exact sim_skipStatementWithin_succ (sim_skipStatementWithin n) (Nat.le_refl 1) fun _ h _ => h

theorem sim_takeUntil {kinds : List Kind} :
    Sim M true (fun s => (s.ahead 0).kind ≠ .eof ∧ (s.ahead 0).kind ∉ kinds) n 0 1 (takeUntil kinds)
      (fun _ => takeUntil kinds) where
  goes {s} hs hφ _ := by
    obtain ⟨heof, hkind⟩ := hφ
    obtain ⟨x, l, hx⟩ := hs.cons
    rw [ParseState.ahead_zero hx] at heof hkind
    refine ⟨_, ?_, hs.rest.takeWhile_lt fun y hy => by rw [hy]; rfl, rfl, rfl, s.eof_drop _⟩
    rw [hx, List.takeWhile_cons_of_pos (by simp [heof, hkind])]
    exact Nat.succ_pos _
  pairs hb _ hn hm := Sim.takeUntil.pairs hb trivial hn hm

theorem sim_skipDirective : Sim M true (fun s => (s.ahead 0).kind = .externKw) n 0 1 skipDirective
    (fun _ => skipDirective) :=
  Sim.bindFrom (fun s hs => by rw [hs]; decide) (Nat.le_refl 0) sim_takeUntil fun _ _ _ =>
    Sim.accept rfl (Sim.pure rfl) (Sim.pure rfl)

-- ===== using directives

/-- A using directive stands here. -/
def AtUsing (s : ParseState) : Prop :=
  (s.ahead 0).kind = .usingKw
    ∨ ((s.ahead 0).isWord "global" = true ∧ (s.ahead 1).kind = .usingKw)

theorem Token.kind_of_isWord {t : Token} {word : String} (h : t.isWord word = true) :
    t.kind = .ident :=
  of_decide_eq_true (Bool.and_eq_true_iff.1 h).1

theorem acceptWord_eq {word : String} : acceptWord word s
    = if (s.ahead 0).isWord word = true then .ok (true, s.drop 1) else .ok (false, s) := by
  rw [acceptWord, bind_ok (p := checkWord word) rfl]
  split
  next h =>
    rw [bind_ok (advance_eq (by rw [Token.kind_of_isWord h]; decide))]
    rfl
  next => rfl

theorem sim_usingAlias {M : Pairing} :
    Sim M true Anywhere n 0 0 usingAlias (fun _ => usingAlias) := by
  refine Sim.checkBefore rfl ?_ (Sim.pure rfl)
  refine Sim.taking .ident rfl (fun _ hs => hs.2.1) fun x y hxy => ?_
  refine Sim.advanceAny fun _ _ _ => ?_
  exact (Sim.pure (by rw [Token.text_eq_of_alike hxy])).of ⟨Nat.zero_le _, by omega⟩

/-- A using directive from the word `static` or what comes after it. -/
def usingRest (start : Span) (isGlobal : Bool) : Parse UsingDirective := do
  let isStatic ← accept .staticKw
  let aliasName ← usingAlias
  let target ← typeRef
  let _ ← expect .semi .usingEnd
  return { target, aliasName, isStatic, isGlobal, span := some (← spanFrom start) }

theorem AtUsing.global (h : AtUsing s) (hglobal : (s.ahead 0).isWord "global" = true) :
    (s.ahead 0).kind = .ident ∧ ((s.drop 1).ahead 0).kind = .usingKw := by
  have hkind := Token.kind_of_isWord hglobal
  refine ⟨hkind, ?_⟩
  rw [ParseState.ahead_drop_one]
  rcases h with h | h
  · rw [h] at hkind
    cases hkind
  · exact h.2

theorem AtUsing.plain (h : AtUsing s) (hglobal : ¬(s.ahead 0).isWord "global" = true) :
    (s.ahead 0).kind = .usingKw :=
  h.resolve_right fun h => hglobal h.1

theorem Beside.atUsing {M : Pairing} {ys zs : List Token} {c : Kind} (hb : Beside M ys zs c s u)
    (h : AtUsing s) : AtUsing u := by
  rcases h with h | ⟨hword, h⟩
  · exact .inl (hb.kind_zero ▸ h)
  · refine .inr ⟨hb.isWord_zero _ ▸ hword, ?_⟩
    rw [← hb.kind_one (by rw [Token.kind_of_isWord hword]; rfl), h]

/-- A using directive is read past its word, and past the word `global` if that comes first. -/
theorem usingDirective_eq (hat : AtUsing s) : ∃ start, usingDirective s
    = if (s.ahead 0).isWord "global" = true
      then (advance >>= fun _ => advance >>= fun _ => usingRest start true) s
      else (advance >>= fun _ => usingRest start false) s := by
  have hword : acceptWord "global" s = _ := acceptWord_eq
  let x := s.ahead 0
  refine ⟨⟨x.line, x.column, x.line, x.column⟩, (bind_ok (p := here) rfl).trans ?_⟩
  split
  next hglobal =>
    obtain ⟨hkind, husing⟩ := hat.global hglobal
    rw [if_pos hglobal] at hword
    rw [bind_ok hword, bind_ok (expect_taken husing (by decide)),
      bind_ok (advance_eq (by rw [hkind]; decide)), bind_ok (advance_eq (by rw [husing]; decide))]
    rfl
  next hglobal =>
    have hkind := hat.plain hglobal
    rw [if_neg hglobal] at hword
    rw [bind_ok hword, bind_ok (expect_taken hkind (by decide)),
      bind_ok (advance_eq (by rw [hkind]; decide))]
    rfl

theorem sim_usingRest {start start' : Span} {isGlobal : Bool} :
    Sim M true Anywhere n 0 0 (usingRest start isGlobal) (fun _ => usingRest start' isGlobal) := by
  unfold usingRest
  refine Sim.bind (Sim.accepted rfl) fun isStatic isStatic' hstatic => ?_
  refine Sim.bind sim_usingAlias fun aliasName aliasName' halias => ?_
  refine Sim.bind (sim_typeRef true) fun target target' htarget => ?_
  refine Sim.bind (Sim.expect rfl rfl) fun _ _ _ => ?_
  refine Sim.spanFrom fun span span' => Sim.pure ?_
  rw [alike_usingDirective]
  exact ⟨htarget, alike_string?.1 halias, hstatic, rfl⟩

theorem sim_usingDirective :
    Sim M true AtUsing n 0 1 usingDirective (fun _ => usingDirective) := by
  have hplain : ∀ (start start' : Span) (isGlobal : Bool),
      Sim M true (fun s => (s.ahead 0).kind = .usingKw) n 0 1
        (advance >>= fun _ => usingRest start isGlobal)
        (fun _ => advance >>= fun _ => usingRest start' isGlobal) := fun _ _ _ =>
    Sim.taking .usingKw rfl (fun _ hs => hs) fun _ _ _ => sim_usingRest.of (by omega)
  have hglobal : ∀ start start' : Span,
      Sim M true (fun s => (s.ahead 0).kind = .ident ∧ ((s.drop 1).ahead 0).kind = .usingKw) n 0 1
        (advance >>= fun _ => advance >>= fun _ => usingRest start true)
        (fun _ => advance >>= fun _ => advance >>= fun _ => usingRest start' true) := fun _ _ =>
    Sim.taking .ident rfl (fun _ hs => hs.1) fun _ _ _ =>
      (hplain _ _ true).mono (by rintro _ ⟨s, hs, rfl⟩; exact hs.2) (by omega) (by omega)
  constructor
  case goes =>
    intro s hs hat hn
    obtain ⟨start, hrun⟩ := usingDirective_eq hat
    rw [hrun]
    split
    next hword => exact (hglobal start start).goes hs (hat.global hword) hn
    next hword => exact (hplain start start false).goes hs (hat.plain hword) hn
  case pairs =>
    intro ys zs c s t m hb hat hn hm
    obtain ⟨start, hrun⟩ := usingDirective_eq hat
    obtain ⟨start', hrun'⟩ := usingDirective_eq (hb.atUsing hat)
    rw [hrun, hrun', ← hb.isWord_zero]
    split
    next hword => exact (hglobal start start').pairs hb (hat.global hword) hn hm
    next hword => exact (hplain start start' false).pairs hb (hat.plain hword) hn hm

-- ===== namespaces

theorem sim_namePartsWithin {M : Pairing} :
    ∀ n, Sim M true Anywhere n 1 0 (namePartsWithin n) namePartsWithin
  | 0 => .zero
  | n + 1 => by
    refine Sim.succ (namePartsWithin.eq_2 n) (fun m => namePartsWithin.eq_2 m) ?_
    refine Sim.accept rfl ?_ (Sim.pure rfl)
    refine Sim.bind (Sim.expect rfl rfl) fun x y hxy => ?_
    refine Sim.bindWithin (by omega) (sim_namePartsWithin n) fun parts parts' hparts => ?_
    exact Sim.pure (by rw [Token.text_eq_of_alike hxy, alike_strings.1 hparts])

theorem sim_namespaceName : Sim M true Anywhere n 0 1 namespaceName (fun _ => namespaceName) := by
  unfold namespaceName
  refine Sim.bind (Sim.expect rfl rfl) fun x y hxy => ?_
  have hparts : Sim M true Anywhere n 0 0 nameParts (fun _ => nameParts) :=
    Sim.atBound sim_namePartsWithin (by decide)
  refine Sim.bind hparts fun parts parts' hparts => Sim.pure ?_
  rw [Token.text_eq_of_alike hxy, alike_strings.1 hparts]

theorem typeDeclaration_eq :
    typeDeclaration source s = typeDeclarationWithin source s.bound s :=
  bind_ok (p := get) (f := fun s => typeDeclarationWithin source s.bound) rfl

theorem sim_typeDeclaration (htexts : M.Texts source source') :
    Sim M true Anywhere n 0 1 (typeDeclaration source) (fun _ => typeDeclaration source') := by
  refine Sim.atBound (r := 1) (fun n => ?_) (by decide)
  exact ((declarationSim htexts n).declaration 0).narrow fun _ _ _ _ => Nat.zero_le _

-- ===== rounds

/-- What a round of the reader of namespaces meets. -/
inductive RoundKind
  | finish | externAlias | directive | inner | semi | type | other
deriving DecidableEq

/-- What stands ahead, in a namespace in braces or not. -/
def ParseState.roundKind (s : ParseState) (braced : Bool) : RoundKind :=
  if (s.ahead 0).kind = .eof || (braced && (s.ahead 0).kind = .rbrace) then .finish
  else if (s.ahead 0).kind = .externKw && (s.ahead 1).isWord "alias" then .externAlias
  else if (s.ahead 0).kind = .usingKw
      || ((s.ahead 0).isWord "global" && (s.ahead 1).kind = .usingKw) then .directive
  else if (s.ahead 0).kind = .namespaceKw then .inner
  else if (s.ahead 0).kind = .semi then .semi
  else if startsTypeDeclaration s.rest then .type
  else .other

/-- What is known before an entry of a kind. -/
def RoundKind.At (braced : Bool) (s : ParseState) : RoundKind → Prop
  | .finish => (s.ahead 0).kind = .eof ∨ (braced = true ∧ (s.ahead 0).kind = .rbrace)
  | .externAlias => (s.ahead 0).kind = .externKw
  | .directive => AtUsing s
  | .inner => (s.ahead 0).kind = .namespaceKw
  | .semi => (s.ahead 0).kind = .semi
  | .type => startsTypeDeclaration s.rest = true
  | .other => AtStatement s

theorem ParseState.at_roundKind (s : ParseState) (braced : Bool) :
    (s.roundKind braced).At braced s := by
  unfold roundKind
  split
  next h => simpa [RoundKind.At] using h
  next hend =>
  split
  next h => exact of_decide_eq_true (p := (s.ahead 0).kind = .externKw) (Bool.and_eq_true_iff.1 h).1
  split
  next h => simpa [RoundKind.At, AtUsing] using h
  split
  next h => exact h
  split
  next h => exact h
  split
  next h => exact h
  next h => exact ⟨fun heof => hend (by rw [heof]; rfl), Bool.eq_false_iff.2 h⟩

/-- Reads an entry: what it adds to a body. -/
def entryWithin (source : List Char) (n : Nat) (topLevel : Bool) : RoundKind → Parse NamespaceBody
  | .finish => pure {}
  | .externAlias => skipDirective >>= fun _ => pure {}
  | .directive => usingDirective >>= fun d => pure { usings := [d] }
  | .inner => namespaceWithin source n >>= fun m => pure { namespaces := [m] }
  | .semi => advance >>= fun _ => pure {}
  | .type => typeDeclaration source >>= fun d? => pure { types := d?.toList }
  | .other =>
    if topLevel then skipStatement >>= fun _ => pure {}
    else get >>= fun s => failAt (.expected .typeDeclaration) (s.ahead 0)

/-- What is declared by two bodies, one after the other. -/
def NamespaceBody.append (b b' : NamespaceBody) : NamespaceBody :=
  ⟨b.usings ++ b'.usings, b.types ++ b'.types, b.namespaces ++ b'.namespaces⟩

@[simp] theorem NamespaceBody.empty_append : NamespaceBody.append {} = id := rfl

/-- A round of reading a namespace: the end, or an entry and the rounds after it. -/
theorem namespaceBodyWithin_succ (braced topLevel : Bool) :
    namespaceBodyWithin source (n + 1) braced topLevel s
      = if s.roundKind braced = .finish then .ok ({}, s)
        else (entryWithin source n topLevel (s.roundKind braced) >>= fun entry =>
          namespaceBodyWithin source n braced topLevel >>= fun more =>
            pure (entry.append more)) s := by
  rw [namespaceBodyWithin, bind_ok (p := get) rfl]
  unfold ParseState.roundKind
  split
  · rfl
  split
  · simp [entryWithin]
  split
  · simp [entryWithin, NamespaceBody.append]
  split
  · simp [entryWithin, NamespaceBody.append]
  split
  · simp [entryWithin]
  split
  · simp [entryWithin, NamespaceBody.append]
  split
  next htop => simp [entryWithin, htop]
  next htop =>
    simp [entryWithin, htop]
    rfl

/-- The end of a file, or of a namespace in braces. -/
theorem namespaceBodyWithin_end {braced topLevel : Bool}
    (h : (s.ahead 0).kind = .eof ∨ (braced = true ∧ (s.ahead 0).kind = .rbrace)) :
    namespaceBodyWithin source (n + 1) braced topLevel s = .ok ({}, s) := by
  have hkind : s.roundKind braced = .finish := if_pos (by simpa using h)
  rw [namespaceBodyWithin_succ, if_pos hkind]

theorem namespaceBodyWithin_entry {k : RoundKind} {braced topLevel : Bool} {b more : NamespaceBody}
    (hkind : s.roundKind braced = k) (hne : k ≠ .finish)
    (hentry : entryWithin source n topLevel k s = .ok (b, w))
    (hmore : namespaceBodyWithin source n braced topLevel w = .ok (more, u)) :
    namespaceBodyWithin source (n + 1) braced topLevel s = .ok (b.append more, u) := by
  rw [namespaceBodyWithin_succ, hkind, if_neg hne, bind_ok hentry, bind_ok hmore]
  rfl

theorem Beside.roundKind_eq {ys zs : List Token} {c : Kind} (hb : Beside M.whole ys zs c s t)
    (braced : Bool) : t.roundKind braced = s.roundKind braced := by
  unfold ParseState.roundKind
  rw [← hb.kind_zero, ← hb.isWord_zero, ← hb.startsTypeDeclaration_eq]
  by_cases heof : (s.ahead 0).kind = .eof
  · simp [heof]
  · have hone := M.alike (hb.ahead_one (hb.eq_eof ▸ heof))
    rw [← Token.isWord_eq_of_alike hone, ← Token.kind_eq_of_alike hone]

theorem alike_append {b b' c c' : NamespaceBody} (h : Alike b c) (h' : Alike b' c') :
    Alike (b.append b') (c.append c') := by
  obtain ⟨husings, htypes, hspaces⟩ := alike_namespaceBody.1 h
  obtain ⟨husings', htypes', hspaces'⟩ := alike_namespaceBody.1 h'
  exact alike_namespaceBody.2
    ⟨husings.append husings', htypes.append htypes', hspaces.append hspaces'⟩

/-- The readers of namespaces at a bound. -/
structure NamespacesSim (M : Pairing) (source source' : List Char) (n : Nat) : Prop where
  body : ∀ braced topLevel, Sim M.whole true Anywhere n 2 0
    (namespaceBodyWithin source n braced topLevel) (namespaceBodyWithin source' · braced topLevel)
  declaration : Sim M.whole true Anywhere n 1 1 (namespaceWithin source n) (namespaceWithin source')

namespace NamespacesSim

theorem entry (h : NamespacesSim M source source' n) (htexts : M.Texts source source')
    {kind : RoundKind} (hkind : kind ≠ .finish) (braced topLevel : Bool) :
    Sim M.whole true (fun s => kind.At braced s) n 1 1 (entryWithin source n topLevel kind)
      (entryWithin source' · topLevel kind) := by
  cases kind with
  | finish => exact absurd rfl hkind
  | externAlias =>
    exact .bindFrom (fun _ => id) (Nat.zero_le 1) sim_skipDirective fun _ _ _ => .pure rfl
  | directive =>
    exact .bindFrom (fun _ => id) (Nat.zero_le 1) sim_usingDirective fun _ _ hd =>
      .pure (alike_namespaceBody.2 ⟨alike_cons.2 ⟨hd, rfl⟩, rfl, rfl⟩)
  | inner =>
    exact .bindWithin (Nat.le_refl 1) h.declaration fun _ _ hm =>
      .pure (alike_namespaceBody.2 ⟨rfl, rfl, alike_cons.2 ⟨hm, rfl⟩⟩)
  | semi => exact .taking .semi rfl (fun _ => id) fun _ _ _ => .pure rfl
  | type =>
    exact .bind (sim_typeDeclaration htexts) fun _ _ hd =>
      .pure (alike_namespaceBody.2 ⟨rfl, hd.toList, rfl⟩)
  | other =>
    cases topLevel with
    | true => exact .bindFrom (fun _ => id) (Nat.zero_le 1) sim_skipStatement fun _ _ _ => .pure rfl
    | false =>
      show Sim M.whole true _ n 1 1 (unexpected .typeDeclaration)
        fun _ => unexpected .typeDeclaration
      exact .unexpected rfl

theorem body_succ (h : NamespacesSim M source source' n) (htexts : M.Texts source source')
    (braced topLevel : Bool) : Sim M.whole true Anywhere (n + 1) 2 0
      (namespaceBodyWithin source (n + 1) braced topLevel)
      (namespaceBodyWithin source' · braced topLevel) := by
  -- what a round takes pays for the next
  have hround : ∀ {kind : RoundKind}, kind ≠ .finish →
      Sim M.whole true (fun s => kind.At braced s) n 1 1
        (entryWithin source n topLevel kind >>= fun entry =>
          namespaceBodyWithin source n braced topLevel >>= fun more => pure (entry.append more))
        (fun m => entryWithin source' m topLevel kind >>= fun entry =>
          namespaceBodyWithin source' m braced topLevel >>= fun more => pure (entry.append more)) :=
    fun hkind => .bindFrom (fun _ => id) (Nat.le_refl 1) (h.entry htexts hkind braced topLevel)
      fun _ _ hentry => .bindWithin (by omega) (h.body braced topLevel) fun _ _ hmore =>
        .pure (alike_append hentry hmore)
  constructor
  case goes =>
    intro s hs _ hn
    rw [namespaceBodyWithin_succ]
    split
    · exact .stay hs
    next hkind =>
      exact ((hround hkind).goes hs (s.at_roundKind braced) (by omega)).mono (Nat.zero_le 1)
  case pairs =>
    intro ys zs c s t m hb _ hn hm
    obtain ⟨m, rfl⟩ : ∃ m', m = m' + 1 := ⟨m - 1, by omega⟩
    rw [namespaceBodyWithin_succ, namespaceBodyWithin_succ, hb.roundKind_eq]
    split
    · exact .both rfl hb
    next hkind => exact (hround hkind).pairs hb (s.at_roundKind braced) (by omega) (by omega)

theorem content (h : NamespacesSim M source source' n) (isFileScoped : Bool) :
    Sim M.whole true Anywhere n 2 0
      (namespaceContent isFileScoped (namespaceBodyWithin source n false false)
        (namespaceBodyWithin source n true false))
      (fun m => namespaceContent isFileScoped (namespaceBodyWithin source' m false false)
        (namespaceBodyWithin source' m true false)) := by
  unfold namespaceContent
  split
  · exact h.body false false
  unfold bracedNamespace
  refine Sim.bind (Sim.expect rfl rfl) fun _ _ _ => ?_
  refine Sim.bindWithin (by omega) (h.body true false) fun _ _ hbody => ?_
  refine Sim.bind (Sim.expect rfl rfl) fun _ _ _ => ?_
  exact Sim.bind (Sim.accepted rfl) fun _ _ _ => Sim.pure hbody

theorem declaration_succ (h : NamespacesSim M source source' n) :
    Sim M.whole true Anywhere (n + 1) 1 1 (namespaceWithin source (n + 1))
      (namespaceWithin source') := by
  refine Sim.succ (namespaceWithin.eq_2 source n) (fun m => namespaceWithin.eq_2 source' m) ?_
  refine Sim.here fun _ _ => ?_
  refine Sim.bind (Sim.expect rfl rfl) fun _ _ _ => ?_
  refine Sim.bind sim_namespaceName fun name name' hname => ?_
  refine Sim.bind (Sim.accepted rfl) fun isFileScoped isFileScoped' hscoped => ?_
  cases alike_bool.1 hscoped
  cases alike_string.1 hname
  refine Sim.bindWithin (by omega) (h.content isFileScoped) fun body body' hbody => ?_
  obtain ⟨husings, htypes, hnamespaces⟩ := alike_namespaceBody.1 hbody
  exact Sim.spanFrom fun _ _ =>
    Sim.pure (alike_namespaceDecl.2 ⟨rfl, husings, htypes, hnamespaces, rfl⟩)

end NamespacesSim

theorem namespacesSim (htexts : M.Texts source source') : ∀ n, NamespacesSim M source source' n
  | 0 => ⟨fun _ _ => .zero, .zero⟩
  | n + 1 =>
    have h := namespacesSim htexts n
    ⟨h.body_succ htexts, h.declaration_succ⟩

/-- A round that comes to an entry takes a token. -/
theorem entryWithin_goes {kind : RoundKind} {braced topLevel : Bool} {entry : NamespaceBody} {b : β}
    (hkind : kind ≠ .finish) (hs : s.Closed) (hat : kind.At braced s) (hn : 16 * s.weight + 1 ≤ n)
    (hrun : entryWithin source n topLevel kind s = .ok (entry, w)) : Goes 1 s (.ok (b, w)) :=
  ((namespacesSim (Pairing.same_texts source) n).entry (Pairing.same_texts source) hkind braced
    topLevel).goes_ok hrun hs hat hn

-- ===== results

/-- What one round of the reader of namespaces adds to a body, and where it comes to. -/
inductive EntryRun (source : List Char) (n : Nat) (s : ParseState) :
    NamespaceBody → ParseState → Prop
  | skipped {w : ParseState} : EntryRun source n s {} w
  | directive {first : UsingDirective} {w : ParseState} :
      AtUsing s → usingDirective s = .ok (first, w) → EntryRun source n s { usings := [first] } w
  | inner {m : NamespaceDecl} {w : ParseState} :
      namespaceWithin source n s = .ok (m, w) → EntryRun source n s { namespaces := [m] } w
  | type {d? : Option TypeDecl} {w : ParseState} : startsTypeDeclaration s.rest = true →
      typeDeclaration source s = .ok (d?, w) → EntryRun source n s { types := d?.toList } w

theorem EntryRun.of_entryWithin {kind : RoundKind} {braced topLevel : Bool} {entry : NamespaceBody}
    (hat : kind.At braced s) (hrun : entryWithin source n topLevel kind s = .ok (entry, w)) :
    EntryRun source n s entry w := by
  cases kind with
  | finish =>
    cases hrun
    exact .skipped
  | externAlias | semi =>
    obtain ⟨_, _, -, hrun⟩ := bind_eq_ok hrun
    cases hrun
    exact .skipped
  | directive =>
    obtain ⟨d, _, hd, hrun⟩ := bind_eq_ok hrun
    cases hrun
    exact .directive hat hd
  | inner =>
    obtain ⟨m, _, hm, hrun⟩ := bind_eq_ok hrun
    cases hrun
    exact .inner hm
  | type =>
    obtain ⟨d?, _, hd, hrun⟩ := bind_eq_ok hrun
    cases hrun
    exact .type hat hd
  | other =>
    rw [entryWithin] at hrun
    split at hrun
    · obtain ⟨_, _, -, hrun⟩ := bind_eq_ok hrun
      cases hrun
      exact .skipped
    · cases hrun

/-- The rounds of reading what stands in a namespace or a file. -/
theorem namespaceBodyWithin_eq_ok {braced topLevel : Bool} {b : NamespaceBody} (hs : s.Closed)
    (hn : 16 * s.weight + 1 ≤ n)
    (hrun : namespaceBodyWithin source (n + 1) braced topLevel s = .ok (b, u)) :
    (b = {} ∧ u = s ∧ ((s.ahead 0).kind = .eof ∨ (braced = true ∧ (s.ahead 0).kind = .rbrace)))
    ∨ ∃ entry w more, EntryRun source n s entry w ∧ Goes 1 s (.ok (entry, w))
      ∧ namespaceBodyWithin source n braced topLevel w = .ok (more, u) ∧ b = entry.append more := by
  have hat := s.at_roundKind braced
  rw [namespaceBodyWithin_succ] at hrun
  split at hrun
  next hkind =>
    cases hrun
    rw [hkind] at hat
    exact .inl ⟨rfl, rfl, hat⟩
  next hkind =>
  obtain ⟨entry, w, hentry, hrun⟩ := bind_eq_ok hrun
  obtain ⟨more, _, hmore, hrun⟩ := bind_eq_ok hrun
  cases hrun
  exact .inr ⟨entry, w, more, .of_entryWithin hat hentry, entryWithin_goes hkind hs hat hn hentry,
    hmore, rfl⟩

/-- The steps of reading a namespace declaration, up to what it holds. -/
theorem namespaceWithin_eq_ok {m : NamespaceDecl} (hs : s.Closed) (hn : 16 * s.weight ≤ n)
    (hrun : namespaceWithin source (n + 1) s = .ok (m, u)) :
    ∃ word w w' braced v body t, expect .namespaceKw .namespaceWord s = .ok (word, w)
      ∧ namespaceName w = .ok (m.name, w') ∧ Goes 1 s (.ok ((), v))
      ∧ namespaceBodyWithin source n braced false v = .ok (body, t) ∧ m.usings = body.usings
      ∧ m.types = body.types ∧ m.namespaces = body.namespaces := by
  rw [namespaceWithin] at hrun
  obtain ⟨start, w, hstart, hrun⟩ := bind_eq_ok hrun
  cases hstart
  obtain ⟨word, w, hword, hrun⟩ := bind_eq_ok hrun
  obtain ⟨name, w', hname, hrun⟩ := bind_eq_ok hrun
  obtain ⟨isFileScoped, v, hscoped, hrun⟩ := bind_eq_ok hrun
  obtain ⟨body, t, hbody, hrun⟩ := bind_eq_ok hrun
  obtain ⟨span, _, hspan, hrun⟩ := bind_eq_ok hrun
  cases hspan
  cases hrun
  have hexpect : ∀ {k : Kind} {what : Expected}, (ParseFault.expected what).isPossible = true →
      k.isTaken true = true →
      Sim .same true Anywhere n 0 1 (expect k what) (fun _ => expect k what) := Sim.expect
  have hgo : Goes 1 s (.ok (isFileScoped, v)) := by
    have hopened : Goes 1 s (.ok ((), w)) := (hexpect rfl rfl).goes_ok hword hs trivial hn
    have := hopened.weight_add_le
    have hnamed : Goes 1 w (.ok ((), w')) := (sim_namespaceName (M := .same) (n := n)).goes_ok hname
      (hopened.closed hs) trivial (by omega)
    have := hnamed.weight_add_le
    have hsemi : Sim .same true Anywhere n 0 0 (accept .semi) (fun _ => accept .semi) :=
      Sim.accepted rfl
    have hmarked : Goes 0 w' (.ok (isFileScoped, v)) :=
      hsemi.goes_ok hscoped (hnamed.closed (hopened.closed hs)) trivial (by omega)
    exact ((hopened.trans hnamed).trans hmarked).mono (by omega)
  have := hgo.weight_add_le
  unfold namespaceContent at hbody
  split at hbody
  · exact ⟨word, w, w', false, v, body, _, hword, hname, hgo, hbody, rfl, rfl, rfl⟩
  · obtain ⟨opener, v', hopen, hbody⟩ := bind_eq_ok hbody
    have hopened : Goes 1 v (.ok (opener, v')) :=
      (hexpect rfl rfl).goes_ok hopen (hgo.closed hs) trivial (by omega)
    obtain ⟨inside, v'', hinside, hbody⟩ := bind_eq_ok hbody
    obtain ⟨_, _, -, hbody⟩ := bind_eq_ok hbody
    obtain ⟨_, _, -, hbody⟩ := bind_eq_ok hbody
    cases hbody
    exact ⟨word, w, w', true, v', body, v'', hword, hname,
      (hgo.trans hopened).mono (by omega), hinside, rfl, rfl, rfl⟩

/-- Without braces there is nothing that a body ends at but the end. -/
theorem namespaceBodyWithin_atEnd {topLevel : Bool} {b : NamespaceBody} :
    ∀ {n : Nat} {s : ParseState}, s.Closed → 16 * s.weight + 2 ≤ n →
    namespaceBodyWithin source n false topLevel s = .ok (b, u) → (u.ahead 0).kind = .eof
  | 0, _, _, hn, _ => absurd hn (by omega)
  | n + 1, s, hs, hn, hrun => by
    obtain ⟨-, rfl, heof | ⟨hbraced, -⟩⟩ | ⟨entry, w, more, -, hgo, hmore, -⟩ :=
      namespaceBodyWithin_eq_ok hs (by omega) hrun
    · exact heof
    · cases hbraced
    · have := hgo.weight_add_le
      exact namespaceBodyWithin_atEnd (hgo.closed hs) (by omega) hmore

theorem expect_end (h : (s.ahead 0).kind = .eof) :
    expect .eof .endOfFile s = .ok (s.ahead 0, s) := by
  rw [expect, bind_ok (p := check .eof) rfl, h]
  show advance s = _
  rw [advance, if_pos h]

/-- A file is what its body is, once only the end is left. -/
theorem sourceFile_ok {b : NamespaceBody}
    (hbody : namespaceBodyWithin source s.bound false true s = .ok (b, u))
    (hend : (u.ahead 0).kind = .eof) :
    ∃ file, sourceFile source s = .ok (file, u) ∧ file.usings = b.usings ∧ file.types = b.types
      ∧ file.namespaces = b.namespaces := by
  unfold sourceFile
  rw [bind_ok (p := here) rfl, bind_ok (p := get) rfl, bind_ok hbody, bind_ok (expect_end hend)]
  exact ⟨_, rfl, rfl, rfl, rfl⟩

/-- A file that is read is what its body is. -/
theorem sourceFile_eq_ok {file : SourceFile} (hrun : sourceFile source s = .ok (file, u)) :
    ∃ b w, namespaceBodyWithin source s.bound false true s = .ok (b, w) ∧ file.usings = b.usings
      ∧ file.types = b.types ∧ file.namespaces = b.namespaces := by
  obtain ⟨_, _, hstart, hrun⟩ := bind_eq_ok hrun
  cases hstart
  obtain ⟨_, _, hget, hrun⟩ := bind_eq_ok hrun
  cases hget
  obtain ⟨b, w, hbody, hrun⟩ := bind_eq_ok hrun
  obtain ⟨_, _, -, hrun⟩ := bind_eq_ok hrun
  obtain ⟨_, _, -, hrun⟩ := bind_eq_ok hrun
  cases hrun
  exact ⟨b, w, hbody, rfl, rfl, rfl⟩

-- ===== two parses

/-- Two states side by side up to the end. -/
abbrev Facing (M : Pairing) (s t : ParseState) : Prop :=
  Beside M.whole [] [] .eof s t

/-- Two parses go on side by side, or both stop. -/
inductive Abreast [Bare α] (M : Pairing) :
    Except ParseError (α × ParseState) → Except ParseError (α × ParseState) → Prop
  | ok {a b : α} {s t : ParseState} : Alike a b → Facing M s t → Abreast M (.ok (a, s)) (.ok (b, t))
  | error {e e' : ParseError} : M.Fails e e' → Abreast M (.error e) (.error e')

/-- Before the end, what is simulated goes on side by side. -/
theorem Sim.abreast [Bare α] {p : Parse α} {q : Nat → Parse α} (h : Sim M.whole true φ n r j p q)
    (hb : Facing M s t) (hφ : φ s) (hn : 16 * s.weight + r ≤ n) (hm : 16 * t.weight + r ≤ m) :
    Abreast M (p s) (q m t) := by
  have hgo := h.goes hb.left hφ hn
  have hpq := h.pairs hb hφ hn hm
  generalize p s = x, q m t = y at hgo hpq
  cases hpq with
  | both hab hb' => exact .ok hab hb'
  | fail he => exact .error ⟨he.fault, he.token⟩
  | past _ hpast => exact absurd hgo.length_pos (Nat.not_lt.2 hpast)
  | lost _ hc => exact absurd rfl hc

/-- Two files whose tokens are paired are read side by side. -/
theorem abreast_sourceFile (htexts : M.Texts source source') (hb : Facing M s t) :
    Abreast M (sourceFile source s) (sourceFile source' t) := by
  have hbody := ((namespacesSim htexts s.bound).body false true).abreast hb trivial
    s.weight_add_two_le_bound t.weight_add_two_le_bound
  unfold sourceFile
  rw [bind_ok (p := here) rfl, bind_ok (p := here) rfl, bind_ok (p := get) rfl,
    bind_ok (p := get) rfl]
  generalize hrun : namespaceBodyWithin source s.bound false true s = x,
    hrun' : namespaceBodyWithin source' t.bound false true t = y at hbody
  cases hbody with
  | ok hbody hb' =>
    have hend := namespaceBodyWithin_atEnd hb.left s.weight_add_two_le_bound hrun
    rw [bind_ok hrun, bind_ok hrun', bind_ok (expect_end hend),
      bind_ok (expect_end (hb'.kind_zero ▸ hend))]
    exact .ok (alike_sourceFile.2 (alike_namespaceBody.1 hbody)) hb'
  | error he =>
    rw [bind_error hrun, bind_error hrun']
    exact .error he

end SourceBundle

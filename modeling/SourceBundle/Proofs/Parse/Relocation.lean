/-
A type declaration, read again elsewhere. A declaration ends with a
closing brace or a semicolon, which is a barrier: the simulation carries
all readers up to that last token. What is left is the last token
itself, after which a semicolon would still belong to the declaration.
So the tokens of a declaration make the same declaration wherever they
stand, unless a semicolon follows them.
-/
import SourceBundle.Proofs.Parse.Declarations

namespace SourceBundle

open List Parse

variable {M : Pairing} {ys zs : List Token} {c : Kind} {s t u : ParseState}

-- ===== readers taken apart

theorem Parse.bind_eq_ok {α β : Type} {p : Parse α} {f : α → Parse β} {b : β}
    (h : (p >>= f) s = .ok (b, u)) : ∃ a w, p s = .ok (a, w) ∧ f a w = .ok (b, u) := by
  have hrun : (p s >>= fun x => f x.1 x.2) = .ok (b, u) := h
  cases hp : p s with
  | error e =>
    rw [hp] at hrun
    cases hrun
  | ok x =>
    rw [hp] at hrun
    exact ⟨x.1, x.2, rfl, hrun⟩

theorem Parse.bind_ok {α β : Type} {p : Parse α} {f : α → Parse β} {a : α} (h : p s = .ok (a, u)) :
    (p >>= f) s = f a u := by
  show (p s >>= fun x => f x.1 x.2) = _
  rw [h]
  rfl

theorem Parse.bind_error {α β : Type} {p : Parse α} {f : α → Parse β} {e : ParseError}
    (h : p s = .error e) : (p >>= f) s = .error e := by
  show (p s >>= fun x => f x.1 x.2) = _
  rw [h]
  rfl

theorem Parse.advance_eq (h : (s.ahead 0).kind ≠ .eof) :
    advance s = .ok (s.ahead 0, s.drop 1) :=
  if_neg h

theorem Parse.accept_eq {k : Kind} (hk : k ≠ .eof) :
    accept k s = if (s.ahead 0).kind = k then .ok (true, s.drop 1) else .ok (false, s) := by
  show (if decide ((s.ahead 0).kind = k) = true then (do let _ ← advance; return true : Parse Bool)
    else pure false) s = _
  by_cases h : (s.ahead 0).kind = k
  · rw [if_pos (decide_eq_true h), if_pos h, bind_ok (advance_eq (h ▸ hk))]
    rfl
  · rw [if_neg (by rwa [decide_eq_true_eq]), if_neg h]
    rfl

theorem Parse.expect_eq {k : Kind} {what : Expected} (hk : k ≠ .eof) :
    expect k what s = if (s.ahead 0).kind = k then .ok (s.ahead 0, s.drop 1)
      else .error ⟨.expected what, s.ahead 0⟩ := by
  show (if decide ((s.ahead 0).kind = k) = true then advance else unexpected what) s = _
  by_cases h : (s.ahead 0).kind = k
  · rw [if_pos (decide_eq_true h), if_pos h, advance_eq (h ▸ hk)]
  · rw [if_neg (by rwa [decide_eq_true_eq]), if_neg h]
    rfl

/-- A token of the kind asked for is taken. -/
theorem Parse.accept_taken {k : Kind} (h : (s.ahead 0).kind = k) (hk : k ≠ .eof) :
    accept k s = .ok (true, s.drop 1) :=
  (accept_eq hk).trans (if_pos h)

theorem Parse.accept_left {k : Kind} (h : (s.ahead 0).kind ≠ k) (hk : k ≠ .eof) :
    accept k s = .ok (false, s) :=
  (accept_eq hk).trans (if_neg h)

theorem Parse.expect_taken {k : Kind} {what : Expected} (h : (s.ahead 0).kind = k)
    (hk : k ≠ .eof) : expect k what s = .ok (s.ahead 0, s.drop 1) :=
  (expect_eq hk).trans (if_pos h)

-- ===== the last token

theorem ParseState.Closed.drop_one (h : s.Closed) (hx : (s.ahead 0).kind ≠ .eof) :
    (s.drop 1).Closed :=
  h.drop (h.one_lt_length hx)

theorem ParseState.Closed.last_drop_one (h : s.Closed) : (s.drop 1).last = some (s.ahead 0) := by
  obtain ⟨x, l, hs⟩ := h.cons
  rw [ParseState.last_drop_succ s (k := 0) (by rw [hs]; exact Nat.succ_pos _),
    ParseState.ahead_zero hs]
  simp only [hs, getElem_cons_zero]

theorem ParseState.Closed.length_drop_one (h : s.Closed) :
    s.rest.length = (s.drop 1).rest.length + 1 := by
  obtain ⟨x, l, hs⟩ := h.cons
  rw [ParseState.rest_drop, hs]
  rfl

theorem ParseState.Closed.weight_drop_one (h : s.Closed) : (s.drop 1).weight + 1 ≤ s.weight := by
  obtain ⟨x, l, hs⟩ := h.cons
  have := x.one_le_weight
  rw [ParseState.weight, ParseState.weight, ParseState.rest_drop, hs, Token.listWeight,
    drop_succ_cons, drop_zero]
  omega

/-- Whoever has more to read than what lies past the barrier is side by side with the other. -/
theorem Pairs.both_of_ok {α : Type} [Bare α] {loose : Bool} {a : α}
    {y : Except ParseError (α × ParseState)} (h : Pairs M loose ys zs c (.ok (a, u)) y)
    (hu : ys.length < u.rest.length) :
    ∃ b v, y = .ok (b, v) ∧ Alike a b ∧ Beside M ys zs c u v := by
  cases h with
  | both hab hb => exact ⟨_, _, rfl, hab, hb⟩
  | past _ hpast => exact absurd hpast (Nat.not_le.2 hu)

/-- The barrier is taken on both sides at once. -/
theorem Beside.take_barrier (hb : Beside M ys zs c s t) (hs : (s.drop 1).rest = ys) :
    (t.drop 1).rest = zs ∧ M.last (s.drop 1).last (t.drop 1).last := by
  rw [hb.left.last_drop_one, hb.right.last_drop_one]
  refine ⟨?_, M.taken hb.ahead_zero⟩
  obtain ⟨x, y, l, l', hx, hy, hl, -, -⟩ := hb.cons
  rw [ParseState.rest_drop, hx] at hs
  rw [ParseState.rest_drop, hy]
  cases hl with
  | stop => rfl
  | cons _ hl => exact absurd hl.length_lt (by rw [show l = ys from hs]; exact Nat.lt_irrefl _)

theorem Beside.drop_of_lt (hb : Beside M ys zs c s t) (hx : (s.ahead 0).kind ≠ .eof)
    (hlt : ys.length < (s.drop 1).rest.length) : Beside M ys zs c (s.drop 1) (t.drop 1) :=
  (hb.drop_one hx).resolve_right fun hpast => absurd hpast.1 (Nat.not_le.2 hlt)

-- ===== members

/-- How the members of a type are read: between braces, which a semicolon may follow, or as none
before a semicolon. -/
inductive MembersRun (inner : Parse (List MemberDecl × List TypeDecl)) (s : ParseState) :
    List MemberDecl × List TypeDecl → ParseState → Prop
  | braces {body : List MemberDecl × List TypeDecl} {w : ParseState} :
      (s.ahead 0).kind = .lbrace → inner (s.drop 1) = .ok (body, w) → (w.ahead 0).kind = .rbrace →
      ((w.drop 1).ahead 0).kind ≠ .semi → MembersRun inner s body (w.drop 1)
  | bracesSemi {body : List MemberDecl × List TypeDecl} {w : ParseState} :
      (s.ahead 0).kind = .lbrace → inner (s.drop 1) = .ok (body, w) → (w.ahead 0).kind = .rbrace →
      ((w.drop 1).ahead 0).kind = .semi → MembersRun inner s body ((w.drop 1).drop 1)
  | semi : (s.ahead 0).kind = .semi → MembersRun inner s ([], []) (s.drop 1)

theorem typeMembers_eq_ok_iff {keyword : TypeKeyword}
    {inner : Parse (List MemberDecl × List TypeDecl)} {body : List MemberDecl × List TypeDecl} :
    typeMembers keyword inner s = .ok (body, u)
      ↔ MembersRun (typeInner keyword inner) s body u := by
  constructor
  · intro h
    obtain ⟨opens, w, haccept, h⟩ := bind_eq_ok h
    rw [accept_eq (by decide)] at haccept
    split at haccept
    next hopen =>
      cases haccept
      obtain ⟨body', w, hblock, h⟩ := bind_eq_ok h
      obtain ⟨inside, v, hinner, hblock⟩ := bind_eq_ok hblock
      obtain ⟨_, w', hclose, hblock⟩ := bind_eq_ok hblock
      rw [expect_eq (by decide)] at hclose
      split at hclose
      next hbrace =>
        cases hclose
        cases hblock
        obtain ⟨_, w, hsemi, h⟩ := bind_eq_ok h
        rw [accept_eq (by decide)] at hsemi
        split at hsemi
        next hsemi' =>
          cases hsemi
          cases h
          exact .bracesSemi hopen hinner hbrace hsemi'
        next hsemi' =>
          cases hsemi
          cases h
          exact .braces hopen hinner hbrace hsemi'
      next => cases hclose
    next hopen =>
      cases haccept
      obtain ⟨isSemi, w, hsemi, h⟩ := bind_eq_ok h
      rw [accept_eq (by decide)] at hsemi
      split at hsemi
      next hsemi' =>
        cases hsemi
        cases h
        exact .semi hsemi'
      next =>
        cases hsemi
        cases h
  · intro h
    have hblock : ∀ {s w : ParseState}, typeInner keyword inner s = .ok (body, w) →
        (w.ahead 0).kind = .rbrace → typeBlock keyword inner s = .ok (body, w.drop 1) := by
      intro s w hinner hbrace
      unfold typeBlock
      rw [bind_ok hinner, bind_ok (expect_taken hbrace (by decide))]
      rfl
    unfold typeMembers
    cases h with
    | braces hopen hinner hbrace hsemi =>
      rw [bind_ok (accept_taken hopen (by decide)), if_pos rfl,
        bind_ok (hblock hinner hbrace), bind_ok (accept_left hsemi (by decide))]
      rfl
    | bracesSemi hopen hinner hbrace hsemi =>
      rw [bind_ok (accept_taken hopen (by decide)), if_pos rfl,
        bind_ok (hblock hinner hbrace), bind_ok (accept_taken hsemi (by decide))]
      rfl
    | semi hsemi =>
      rw [bind_ok (accept_left (by rw [hsemi]; decide) (by decide)), if_neg Bool.false_ne_true,
        bind_ok (accept_taken hsemi (by decide))]
      rfl

/-- The last token of the members closes them or is a semicolon. -/
theorem MembersRun.last {inner : Parse (List MemberDecl × List TypeDecl)}
    {body : List MemberDecl × List TypeDecl} (h : MembersRun inner s body u) (hs : s.Closed)
    (hinner : ∀ {body w}, (s.drop 1).Closed → inner (s.drop 1) = .ok (body, w) → w.Closed) :
    ∃ x, u.last = some x ∧ (x.kind = .rbrace ∨ x.kind = .semi) := by
  cases h with
  | @braces _ w hopen hrun hbrace _ =>
    have hw := hinner (hs.drop_one (by rw [hopen]; decide)) hrun
    exact ⟨w.ahead 0, hw.last_drop_one, .inl hbrace⟩
  | @bracesSemi _ w hopen hrun hbrace hsemi =>
    have hw := hinner (hs.drop_one (by rw [hopen]; decide)) hrun
    exact ⟨(w.drop 1).ahead 0, (hw.drop_one (by rw [hbrace]; decide)).last_drop_one, .inr hsemi⟩
  | semi hsemi => exact ⟨s.ahead 0, hs.last_drop_one, .inr hsemi⟩

/-- No semicolon stands at the front. -/
def SemiFree (tokens : List Token) : Prop :=
  ∀ {z l}, tokens = z :: l → z.kind ≠ .semi

theorem SemiFree.ahead_zero (h : SemiFree zs) (ht : t.Closed) (hrest : t.rest = zs) :
    (t.ahead 0).kind ≠ .semi := by
  obtain ⟨x, l, hx⟩ := ht.cons
  rw [ParseState.ahead_zero hx]
  exact h (hrest ▸ hx)

/-- The reader on the left has come to `ys`, the one on the right comes to `zs` and reads alike. -/
def Arrives {α : Type} [Bare α] (M : Pairing) (zs : List Token) (a : α) (u : ParseState)
    (y : Except ParseError (α × ParseState)) : Prop :=
  ∃ b v, y = .ok (b, v) ∧ Alike a b ∧ v.rest = zs ∧ M.last u.last v.last

theorem typeMembers_arrives {n r m : Nat} {keyword : TypeKeyword}
    {inner : Parse (List MemberDecl × List TypeDecl)}
    {inner' : Nat → Parse (List MemberDecl × List TypeDecl)}
    {body : List MemberDecl × List TypeDecl}
    (hinner : Sim M true Anywhere n r 0 inner inner') (hb : Beside M ys zs c s t)
    (hn : 16 * s.weight + r ≤ n + 16) (hm : 16 * t.weight + r ≤ m + 16)
    (hzs : SemiFree zs) (hrun : typeMembers keyword inner s = .ok (body, u)) (hu : u.rest = ys) :
    Arrives M zs body u (typeMembers keyword (inner' m) t) := by
  have hright : ∀ {body' v}, MembersRun (typeInner keyword (inner' m)) t body' v →
      Alike body body' → v.rest = zs → M.last u.last v.last →
      Arrives M zs body u (typeMembers keyword (inner' m) t) :=
    fun hv hbody hrest hlast => ⟨_, _, typeMembers_eq_ok_iff.2 hv, hbody, hrest, hlast⟩
  have hsim : Sim M true Anywhere n r 0 (typeInner keyword inner)
      (fun m => typeInner keyword (inner' m)) := sim_typeInner hinner
  have hws := hb.left.weight_drop_one
  have hwt := hb.right.weight_drop_one
  -- what stands between the braces is read side by side
  have hinside : ∀ {w}, (s.ahead 0).kind = .lbrace →
      typeInner keyword inner (s.drop 1) = .ok (body, w) → w.Closed ∧ (ys.length < w.rest.length →
      ∃ body' v, typeInner keyword (inner' m) (t.drop 1) = .ok (body', v)
        ∧ Alike body body' ∧ Beside M ys zs c w v) := by
    intro w hopen hw
    have hne : (s.ahead 0).kind ≠ .eof := by rw [hopen]; decide
    have hclosed := hb.left.drop_one hne
    have hgo := hsim.goes hclosed trivial (by omega)
    rw [hw] at hgo
    refine ⟨hgo.closed hclosed, fun hlt => ?_⟩
    have hb' := hb.drop_of_lt hne (Nat.lt_of_lt_of_le hlt hgo.length_le)
    have hpairs := hsim.pairs hb' trivial (by omega) (by omega : _ ≤ m)
    rw [hw] at hpairs
    exact hpairs.both_of_ok hlt
  cases typeMembers_eq_ok_iff.1 hrun with
  | @braces _ w hopen hw hbrace hsemi =>
    obtain ⟨hclosed, hboth⟩ := hinside hopen hw
    obtain ⟨body', v, hv, hbody, hwv⟩ := hboth (by rw [hclosed.length_drop_one, hu]; omega)
    obtain ⟨hrest, hlast⟩ := hwv.take_barrier hu
    have hbrace' : (v.ahead 0).kind = .rbrace := hwv.kind_zero ▸ hbrace
    have hafter := hzs.ahead_zero (hwv.right.drop_one (by rw [hbrace']; decide)) hrest
    exact hright (.braces (hb.kind_zero ▸ hopen) hv hbrace' hafter) hbody hrest hlast
  | @bracesSemi _ w hopen hw hbrace hsemi =>
    obtain ⟨hclosed, hboth⟩ := hinside hopen hw
    have hne : (w.ahead 0).kind ≠ .eof := by rw [hbrace]; decide
    have hlt : ys.length < (w.drop 1).rest.length := by
      rw [(hclosed.drop_one hne).length_drop_one, hu]
      omega
    obtain ⟨body', v, hv, hbody, hwv⟩ := hboth (by rw [hclosed.length_drop_one]; omega)
    have hafter := hwv.drop_of_lt hne hlt
    obtain ⟨hrest, hlast⟩ := hafter.take_barrier hu
    exact hright (.bracesSemi (hb.kind_zero ▸ hopen) hv (hwv.kind_zero ▸ hbrace)
      (hafter.kind_zero ▸ hsemi)) hbody hrest hlast
  | semi hsemi =>
    obtain ⟨hrest, hlast⟩ := hb.take_barrier hu
    exact hright (.semi (hb.kind_zero ▸ hsemi)) rfl hrest hlast

-- ===== declarations

variable {source source' : List Char} {n m a a' : Nat} {d : TypeDecl}

theorem typeRest_eq_ok {inner : String → Parse (List MemberDecl × List TypeDecl)}
    {header : TypeHeader} (h : typeRest source a inner header s = .ok (d, u)) :
    ∃ body span, typeMembers header.keyword (inner header.name) s = .ok (body, u)
      ∧ d = header.declaration body span (declarationText source a (stopOf u.last)) := by
  obtain ⟨body, w, hmembers, h⟩ := bind_eq_ok h
  obtain ⟨span, w', hspan, h⟩ := bind_eq_ok h
  cases hspan
  cases h
  exact ⟨body, _, hmembers, rfl⟩

theorem typeRest_ok {inner : String → Parse (List MemberDecl × List TypeDecl)}
    {header : TypeHeader} {body : List MemberDecl × List TypeDecl}
    (h : typeMembers header.keyword (inner header.name) s = .ok (body, u)) :
    ∃ span, typeRest source a inner header s
      = .ok (header.declaration body span (declarationText source a (stopOf u.last)), u) := by
  unfold typeRest
  rw [bind_ok h]
  exact ⟨_, rfl⟩

theorem typeFrom_eq_ok {inner : String → Parse (List MemberDecl × List TypeDecl)}
    (h : typeFrom source a inner s = .ok (some d, u)) :
    ∃ header w, typeOpening s = .ok (some header, w)
      ∧ typeRest source a inner header w = .ok (d, u) := by
  obtain ⟨header?, w, hopening, h⟩ := bind_eq_ok h
  cases header? with
  | none => cases h
  | some header =>
    obtain ⟨d', w', hrest, h⟩ := bind_eq_ok h
    cases h
    exact ⟨header, w, hopening, hrest⟩

theorem apart_eq {α : Type} (p : Parse α) (s : ParseState) :
    apart p s = (p { s with locals := #[] }).map fun x =>
      (x.1, { x.2 with locals := s.locals }) := by
  show (withLocals p s >>= fun x => _) = _
  rw [withLocals_eq]
  cases p { s with locals := #[] } <;> rfl

theorem typeDeclarationWithin_succ :
    typeDeclarationWithin source (n + 1) s
      = (typeFrom source (stopOf s.last) (typeBodyWithin source n) { s with locals := #[] }).map
          fun x => (x.1, { x.2 with locals := s.locals }) :=
  apart_eq _ s

/-- What a declaration with members is made of: what opens it, and its members. -/
theorem typeDeclarationWithin_eq_ok (h : typeDeclarationWithin source (n + 1) s = .ok (some d, u)) :
    ∃ header w v body span, typeOpening { s with locals := #[] } = .ok (some header, w)
      ∧ typeMembers header.keyword (typeBodyWithin source n header.name) w = .ok (body, v)
      ∧ d = header.declaration body span
        (declarationText source (stopOf s.last) (stopOf u.last))
      ∧ u = { v with locals := s.locals } := by
  rw [typeDeclarationWithin_succ] at h
  generalize hfrom : typeFrom source (stopOf s.last) (typeBodyWithin source n)
    { s with locals := #[] } = x at h
  cases x with
  | error e => cases h
  | ok x =>
    obtain ⟨d?, v⟩ := x
    cases h
    obtain ⟨header, w, hopening, hrest⟩ := typeFrom_eq_ok hfrom
    obtain ⟨body, span, hmembers, hd⟩ := typeRest_eq_ok hrest
    exact ⟨header, w, v, body, span, hopening, hmembers, hd, rfl⟩

theorem typeOpening_closed {header? : Option TypeHeader} (hs : s.Closed)
    (h : typeOpening s = .ok (header?, u)) : u.Closed ∧ u.weight + 1 ≤ s.weight := by
  have hgo := (sim_typeOpening (M := .same) (n := 16 * s.weight) (k := 0)).goes hs
    (fun _ _ => Nat.zero_le _) (Nat.le_refl _)
  rw [h] at hgo
  exact ⟨hgo.closed hs, hgo.weight_add_le⟩

/-- A declaration ends with a closing brace or a semicolon. -/
theorem typeDeclarationWithin_last (hs : s.Closed) (hn : 16 * s.weight + 1 ≤ n)
    (h : typeDeclarationWithin source n s = .ok (some d, u)) :
    ∃ x, u.last = some x ∧ (x.kind = .rbrace ∨ x.kind = .semi) := by
  obtain ⟨n, rfl⟩ : ∃ n', n = n' + 1 := ⟨n - 1, by omega⟩
  obtain ⟨header, w, v, body, span, hopening, hmembers, -, rfl⟩ := typeDeclarationWithin_eq_ok h
  obtain ⟨hw, hweight⟩ :=
    typeOpening_closed (s := { s with locals := #[] }) ⟨hs.rest, hs.eof⟩ hopening
  have hsim : Sim .same true Anywhere n 2 0
      (typeInner header.keyword (typeBodyWithin source n header.name))
      (fun m => typeInner header.keyword (typeBodyWithin source m header.name)) :=
    sim_typeInner ((declarationSim (Pairing.same_texts source) n).body header.name)
  refine (typeMembers_eq_ok_iff.1 hmembers).last hw fun hclosed hrun => ?_
  have := hw.weight_drop_one
  have hle : w.weight + 1 ≤ s.weight := hweight
  have hgo := hsim.goes hclosed trivial (by omega)
  rw [hrun] at hgo
  exact hgo.closed hclosed

theorem typeRest_arrives {header header' : TypeHeader} (hsim : DeclarationSim M source source' n)
    (hb : Beside M ys zs c s t) (hn : 16 * s.weight ≤ n + 14) (hm : 16 * t.weight ≤ m + 14)
    (hzs : SemiFree zs) (hheader : Alike header header')
    (htext : ∀ u u', M.last u u' →
      declarationText source a (stopOf u) = declarationText source' a' (stopOf u'))
    (hrun : typeRest source a (typeBodyWithin source n) header s = .ok (d, u)) (hu : u.rest = ys) :
    Arrives M zs d u (typeRest source' a' (typeBodyWithin source' m) header' t) := by
  obtain ⟨body, span, hmembers, rfl⟩ := typeRest_eq_ok hrun
  obtain ⟨-, hkeyword, hname, -⟩ := alike_typeHeader.1 hheader
  obtain ⟨body', v, hmembers', hbody, hrest, hlast⟩ :=
    typeMembers_arrives (m := m) (hsim.body header.name) hb (by omega) (by omega) hzs hmembers hu
  rw [hkeyword, hname] at hmembers'
  obtain ⟨span', hrun'⟩ : ∃ span', typeRest source' a' (typeBodyWithin source' m) header' t
      = .ok (header'.declaration body' span' (declarationText source' a' (stopOf v.last)), v) :=
    typeRest_ok hmembers'
  refine ⟨_, v, hrun', ?_, hrest, hlast⟩
  rw [htext u.last v.last hlast]
  exact alike_declaration hheader hbody

theorem typeFrom_arrives (hsim : DeclarationSim M source source' n) (hb : Beside M ys zs c s t)
    (hn : 16 * s.weight ≤ n) (hm : 16 * t.weight ≤ m) (hzs : SemiFree zs)
    (htext : ∀ u u', M.last u u' →
      declarationText source a (stopOf u) = declarationText source' a' (stopOf u'))
    (hrun : typeFrom source a (typeBodyWithin source n) s = .ok (some d, u)) (hu : u.rest = ys) :
    Arrives M zs (some d) u (typeFrom source' a' (typeBodyWithin source' m) t) := by
  obtain ⟨header, w, hopening, hrest⟩ := typeFrom_eq_ok hrun
  obtain ⟨hw, hweight⟩ := typeOpening_closed hb.left hopening
  -- the members take a token at least, so the opening has stayed before the barrier
  have hlt : ys.length < w.rest.length := by
    obtain ⟨body, -, hmembers, -⟩ := typeRest_eq_ok hrest
    have hgo : Goes 1 w (typeMembers header.keyword (typeBodyWithin source n header.name) w) :=
      (sim_typeMembers (hsim.body header.name)).goes hw trivial (by omega)
    rw [hmembers] at hgo
    obtain ⟨k, hk, hlt, hdrop, -⟩ := hgo
    rw [← hu, hdrop, ParseState.rest_drop, length_drop]
    omega
  have hpairs := (sim_typeOpening (M := M) (n := n) (k := 0)).pairs hb
    (fun _ _ => Nat.zero_le _) hn hm
  rw [hopening] at hpairs
  obtain ⟨header?, v, hopening', hheader, hwv⟩ := hpairs.both_of_ok hlt
  cases header? with
  | none => cases hheader
  | some header' =>
    have := hb.weight_add_le hwv hweight
    obtain ⟨d', v', hrest', hd, hv', hlast⟩ := typeRest_arrives (m := m) hsim hwv (by omega)
      (by omega) hzs (alike_some.1 hheader) htext hrest hu
    refine ⟨some d', v', ?_, alike_some.2 hd, hv', hlast⟩
    unfold typeFrom
    rw [bind_ok hopening']
    exact bind_ok hrest'

/-- The tokens of a declaration, read elsewhere, make the same declaration, if no semicolon
follows. -/
theorem typeDeclarationWithin_arrives (htexts : M.Texts source source') (hs : s.Closed)
    (ht : t.Closed) (hc : M.barrier c = true) (hrest : Ahead M ys zs c s.rest t.rest)
    (hlast : M.last s.last t.last) (hn : 16 * s.weight + 1 ≤ n) (hm : 16 * t.weight + 1 ≤ m)
    (hzs : SemiFree zs) (hrun : typeDeclarationWithin source n s = .ok (some d, u))
    (hu : u.rest = ys) :
    Arrives M zs (some d) u (typeDeclarationWithin source' m t) := by
  obtain ⟨n, rfl⟩ : ∃ n', n = n' + 1 := ⟨n - 1, by omega⟩
  obtain ⟨m, rfl⟩ : ∃ m', m = m' + 1 := ⟨m - 1, by omega⟩
  have hb : Beside M ys zs c { s with locals := #[] } { t with locals := #[] } :=
    ⟨⟨hs.rest, hs.eof⟩, ⟨ht.rest, ht.eof⟩, hc, hrest, hlast, rfl⟩
  rw [typeDeclarationWithin_succ] at hrun ⊢
  generalize hfrom : typeFrom source (stopOf s.last) (typeBodyWithin source n)
    { s with locals := #[] } = x at hrun
  cases x with
  | error e => cases hrun
  | ok x =>
    obtain ⟨d?, v⟩ := x
    cases hrun
    obtain ⟨d', v', hfrom', hd, hv', hlast'⟩ :=
      typeFrom_arrives (m := m) (declarationSim htexts n) hb
      (Nat.le_of_succ_le_succ hn) (Nat.le_of_succ_le_succ hm) hzs
      (fun o o' ho => htexts _ _ o o' hlast ho) hfrom hu
    rw [hfrom']
    exact ⟨d', { v' with locals := t.locals }, rfl, hd, hv', hlast'⟩

end SourceBundle

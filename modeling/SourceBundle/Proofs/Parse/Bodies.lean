/-
Bodies, simulated: chains, groups, arguments, creations, the holes of
interpolated strings, and the locals declared among them. As for types,
all readers are simulated together, by induction on the bound of the
left one.

The tokens of a hole are a text of their own, closed by an end token, so
inside a hole the barrier is the end on both sides.
-/
import SourceBundle.Proofs.Parse.Types

namespace SourceBundle

open List Parse

variable {M : Pairing} {φ : ParseState → Prop} {n r j : Nat}

-- ===== chains as types

theorem Expr.isEmptyGroup_bare (e : Expr) : (bare e).isEmptyGroup = e.isEmptyGroup := by
  cases e with
  | group m items => cases items <;> rfl
  | _ => rfl

theorem Expr.all_isEmptyGroup_bare (es : List Expr) :
    (Expr.bareExprs es).all Expr.isEmptyGroup = es.all Expr.isEmptyGroup := by
  rw [Expr.bareExprs_eq]
  show (es.map bare).all _ = _
  rw [all_map]
  exact congrArg (es.all ·) (funext Expr.isEmptyGroup_bare)

/-- Whether a chain reads as a type, and as which, does not depend on its place. -/
theorem Expr.asType?_bare : ∀ e : Expr, (bare e).asType? = bare e.asType?
  | .ident m name typeArgs qualifier => by
    show (if _ then _ else _) = bare (if _ then _ else _)
    split
    · rfl
    · show some _ = some (bare _)
      rw [TypeRef.bare_eq]
      rfl
  | .member m target name typeArgs conditional => by
    have ih := Expr.asType?_bare target
    show (Expr.member ⟨none, 0⟩ (bare target) name _ conditional).asType? = _
    rw [Expr.asType?, Expr.asType?, ih]
    cases conditional with
    | true => rfl
    | false =>
      cases target.asType? with
      | none => rfl
      | some inner =>
        show (if (!(bare inner).args.isEmpty || decide ((bare inner).rank ≠ 0)) = true then none
            else _) = bare (if (!inner.args.isEmpty || decide (inner.rank ≠ 0)) = true then none
            else some _)
        rw [TypeRef.bare_eq inner]
        have hempty : (bare inner.args).isEmpty = inner.args.isEmpty := by
          cases inner.args <;> rfl
        simp only [hempty]
        split
        · rfl
        · show some _ = some (bare _)
          rw [TypeRef.bare_eq]
  | .element m target args => by
    have ih := Expr.asType?_bare target
    show (Expr.element ⟨none, 0⟩ (bare target) (Expr.bareExprs args)).asType? = _
    rw [Expr.asType?, Expr.asType?, ih, Expr.all_isEmptyGroup_bare]
    split
    · cases target.asType? with
      | none => rfl
      | some inner =>
        show some { bare inner with rank := (bare inner).rank + 1 } = some (bare _)
        rw [TypeRef.bare_eq, TypeRef.bare_eq]
    · rfl
  | .call .. | .creation .. | .array .. | .group .. | .literal .. | .interpolated .. | .thisRef _
  | .baseRef _ => rfl

theorem Alike.asType? {e e' : Expr} (h : Alike e e') : Alike e.asType? e'.asType? := by
  show bare e.asType? = bare e'.asType?
  rw [← Expr.asType?_bare, ← Expr.asType?_bare, show bare e = bare e' from h]

theorem Expr.asParameter?_bare (e : Expr) : (bare e).asParameter? = bare e.asParameter? := by
  cases e with
  | ident m name typeArgs qualifier => cases typeArgs <;> rfl
  | _ => rfl

theorem Expr.lambdaParameters_bare (e : Expr) :
    (bare e).lambdaParameters = bare e.lambdaParameters := by
  have hmap : ∀ es : List Expr, (bare es).mapM Expr.asParameter?
      = bare (es.mapM Expr.asParameter?) := by
    intro es
    induction es with
    | nil => rfl
    | cons e es ih =>
      show (bare e :: bare es).mapM Expr.asParameter? = _
      rw [mapM_cons, mapM_cons, ih, Expr.asParameter?_bare]
      cases e.asParameter? with
      | none => rfl
      | some l => cases es.mapM Expr.asParameter? <;> rfl
  have hget : ∀ ls : Option (List LocalDecl), (bare ls).getD [] = bare (ls.getD []) := by
    intro ls
    cases ls <;> rfl
  cases e with
  | group m items =>
    show ((Expr.bareExprs items).mapM Expr.asParameter?).getD [] = _
    rw [Expr.bareExprs_eq, hmap, hget]
    rfl
  | ident m name typeArgs qualifier =>
    exact (congrArg (Option.getD · []) (hmap [.ident m name typeArgs qualifier])).trans (hget _)
  | _ => rfl

theorem Alike.lambdaParameters {e e' : Expr} (h : Alike e e') :
    Alike e.lambdaParameters e'.lambdaParameters := by
  show bare e.lambdaParameters = bare e'.lambdaParameters
  rw [← Expr.lambdaParameters_bare, ← Expr.lambdaParameters_bare, show bare e = bare e' from h]

-- ===== holes

/-- Lists of paired tokens stand side by side up to their ends. -/
theorem ahead_of_closed : ∀ {ts ts' : List Token}, List.Forall₂ M.tok ts ts' → Token.Closed ts →
    Ahead M [] [] .eof ts ts'
  | _, _, .nil, hclosed => hclosed.elim
  | x :: _, _, .cons hxy hrest, hclosed => by
    by_cases hx : x.kind = .eof
    · rw [Token.closed_cons_eof hx] at hclosed
      subst hclosed
      cases hrest
      exact .stop hxy hx
    · exact .cons hxy (ahead_of_closed hrest ((Token.closed_cons hx).1 hclosed).2)

theorem closed_ofTokens {s : ParseState} {ts : List Token} (h : Token.Closed ts) :
    ParseState.Closed { s with rest := ts, eof := ts.getLastD default, last := none } := by
  refine ⟨h, ?_⟩
  rw [getLastD_eq_getLast?]
  cases hlast : ts.getLast? with
  | none => exact absurd (getLast?_eq_none_iff.1 hlast) h.ne_nil
  | some x => rfl

/-- A hole is read as a text of its own. -/
theorem Sim.withTokens {α : Type} [Bare α] {p : Parse α} {q : Nat → Parse α} {ts ts' : List Token}
    (hpair : List.Forall₂ M.stop ts ts') (hclosed : Token.Closed ts) (hclosed' : Token.Closed ts')
    {r' : Nat} (h : Sim M.inside true Anywhere n r' j p q)
    (hr : 16 * Token.listWeight ts + r' ≤ r + 16) :
    Sim M true Anywhere n r 0 (Parse.withTokens ts p) (fun m => Parse.withTokens ts' (q m)) := by
  have hwithTokens : ∀ {ts : List Token} {p : Parse α} {s : ParseState}, Parse.withTokens ts p s
      = (p { s with rest := ts, eof := ts.getLastD default, last := none }).map fun x =>
        (x.1, { x.2 with rest := s.rest, eof := s.eof, last := s.last }) := by
    intro ts p s
    show (p { s with rest := ts, eof := ts.getLastD default, last := none } >>= fun x => _) = _
    cases p { s with rest := ts, eof := ts.getLastD default, last := none } <;> rfl
  have hpos : ∀ {s : ParseState}, s.Closed → 0 < s.weight := fun hs => hs.rest.weight_pos
  constructor
  case goes =>
    intro s hs _ hn
    have hgo := h.goes (closed_ofTokens (s := s) hclosed) trivial (by
      have := hpos hs
      show 16 * Token.listWeight ts + r' ≤ n
      omega)
    rw [hwithTokens]
    generalize p _ = x at hgo
    cases x with
    | error e => exact hgo
    | ok x => exact ⟨0, Nat.le_refl 0, length_pos_iff.2 hs.rest.ne_nil, rfl, rfl, rfl⟩
  case pairs =>
    intro ys zs c s t m hb _ hn hm
    have hs := hpos hb.left
    have ht := hpos hb.right
    have hahead : Ahead M.inside [] [] .eof ts ts' := ahead_of_closed hpair hclosed
    have hw : Token.listWeight ts = Token.listWeight ts' := Nat.add_right_cancel hahead.weight_add
    have hgo := h.goes (closed_ofTokens (s := s) hclosed) trivial (by
      show 16 * Token.listWeight ts + r' ≤ n
      omega)
    have hpq := h.pairs (s := { s with rest := ts, eof := ts.getLastD default, last := none })
      (t := { t with rest := ts', eof := ts'.getLastD default, last := none }) (m := m)
      ⟨closed_ofTokens hclosed, closed_ofTokens hclosed', rfl, hahead, trivial, hb.locals⟩ trivial
      (by show 16 * Token.listWeight ts + r' ≤ n; omega)
      (by show 16 * Token.listWeight ts' + r' ≤ m; omega)
    rw [hwithTokens, hwithTokens]
    generalize p _ = x, q m _ = y at hgo hpq
    cases hpq with
    | both hab hb' =>
      exact .both hab ⟨⟨hb.left.rest, hb.left.eof⟩, ⟨hb.right.rest, hb.right.eof⟩, hb.within,
        hb.rest, hb.last, hb'.locals⟩
    | fail he => exact .fail ⟨he.fault, he.token⟩
    | past _ hpast => exact absurd hgo.length_pos (Nat.not_lt.2 hpast)
    | lost _ hc => exact absurd rfl hc

-- ===== locals

theorem sim_recordParameters {d : Nat} {e e' : Expr} (he : Alike e e') :
    Sim M true Anywhere n 0 0 (recordParameters d e) (fun _ => recordParameters d e') := by
  unfold recordParameters
  refine Sim.look look_localCount fun x y hxy => ?_
  cases alike_nat.1 hxy
  split
  · exact (Sim.recordLocals he.lambdaParameters).of (by omega)
  · exact Sim.pure rfl

theorem sim_collectionOf {es es' : List Expr} (h : Alike es es') :
    Sim M true Anywhere n 0 0 (collectionOf es) (fun _ => collectionOf es') := by
  match es, es', h with
  | [], [], _ => exact Sim.pure rfl
  | [e], [e'], h => exact Sim.pure (alike_some.2 (alike_cons.1 h).1)
  | e₁ :: e₂ :: es, e₁' :: e₂' :: es', h =>
    exact Sim.bind Sim.newMark fun _ _ _ => Sim.pure (alike_some.2 (alike_group.2 h))
  | [], _ :: _, h => exact absurd h not_alike_nil_cons
  | _ :: _, [], h => exact absurd h not_alike_cons_nil
  | [_], _ :: _ :: _, h => exact absurd (alike_cons.1 h).2 not_alike_nil_cons
  | _ :: _ :: _, [_], h => exact absurd (alike_cons.1 h).2 not_alike_cons_nil

theorem sim_recordCollection {d : Nat} {es es' : List Expr} (h : Alike es es') :
    Sim M true Anywhere n 0 0 (recordCollection d es) (fun _ => recordCollection d es') := by
  unfold recordCollection
  refine Sim.look look_localCount fun x y hxy => ?_
  cases alike_nat.1 hxy
  split
  · refine Sim.bind (sim_collectionOf h) fun a b hab => ?_
    match a, b, hab with
    | none, none, _ => exact Sim.pure rfl
    | some e, some e', hab =>
      refine (Sim.updateLocal fun l l' hl => ?_).of (by omega)
      rw [alike_localDecl] at hl ⊢
      exact ⟨hl.1, hl.2.1, hab, rfl, hl.2.2.2.2⟩
  · exact Sim.pure rfl

theorem endsLocal_congr {nullable : Bool} {x y : Token} (h : Alike x y) :
    endsLocal nullable x = endsLocal nullable y := by
  rw [endsLocal, endsLocal, Token.kind_eq_of_alike h, Token.text_eq_of_alike h]

/-- What `declaredName?` sees. -/
def ParseState.declared? (s : ParseState) : Option (Token × Bool) :=
  if (s.ahead 0).kind = .ident then
    if endsLocal false (s.ahead 1) then some (s.ahead 0, false) else none
  else if (s.ahead 0).kind = .question && (s.ahead 1).kind = .ident then
    if endsLocal true (s.ahead 2) then some (s.ahead 1, true) else none
  else none

theorem look_declaredName? : Look M φ declaredName? ParseState.declared? where
  eq s := by
    show (ite _ _ _ : Parse _) s = .ok (ite _ _ _, s)
    split
    · rfl
    · split <;> rfl
  alike {ys zs c s t} hb _ := by
    rw [ParseState.declared?, ParseState.declared?, ← hb.kind_zero]
    by_cases hident : (s.ahead 0).kind = .ident
    · have hone := M.alike (hb.ahead_one (hident ▸ hb.kind_ne rfl))
      rw [if_pos hident, if_pos hident, endsLocal_congr hone]
      split
      · exact alike_some.2 (alike_pair.2 ⟨M.alike hb.ahead_zero, rfl⟩)
      · rfl
    · rw [if_neg hident, if_neg hident]
      by_cases hquestion : (s.ahead 0).kind = .question
      · have hzero : (s.ahead 0).kind ≠ c := hquestion ▸ hb.kind_ne rfl
        have hone := M.alike (hb.ahead_one hzero)
        rw [← Token.kind_eq_of_alike hone]
        by_cases hname : (s.ahead 1).kind = .ident
        · have htwo := M.alike (hb.ahead_two hzero (hname ▸ hb.kind_ne rfl))
          rw [endsLocal_congr htwo]
          simp only [hquestion, hname, decide_true, Bool.and_true, if_true]
          split
          · exact alike_some.2 (alike_pair.2 ⟨hone, rfl⟩)
          · rfl
        · simp [hname]
      · simp [hquestion]

/-- The tokens that a declaration of a local takes are no end. -/
theorem ParseState.ahead_of_declared? {s : ParseState} {x : Token} {nullable : Bool}
    (h : s.declared? = some (x, nullable)) :
    ∀ i < (if nullable = true then 2 else 1), (s.ahead i).kind ≠ .eof := by
  rw [ParseState.declared?] at h
  split at h
  next hident =>
    split at h
    · cases h
      intro i hi
      obtain rfl : i = 0 := by simpa using hi
      rw [hident]
      decide
    · cases h
  next =>
    split at h
    next hquestion =>
      simp only [Bool.and_eq_true, decide_eq_true_eq] at hquestion
      split at h
      · cases h
        intro i hi
        match i, hi with
        | 0, _ => rw [hquestion.1]; decide
        | 1, _ => rw [hquestion.2]; decide
      · cases h
    · cases h

-- ===== links

theorem ofKinds_of_isBarrier {k : Kind} (hk : k.isBarrier = true) (next after : Kind) :
    Link.ofKinds k next after = .none := by
  cases k <;> first | rfl | cases hk

theorem ofKinds_congr {k next next' after after' : Kind}
    (h : k.isBarrier = false → next = next')
    (h' : k.isBarrier = false → next.isBarrier = false → after = after') :
    Link.ofKinds k next after = Link.ofKinds k next' after' := by
  cases hk : k.isBarrier with
  | true => rw [ofKinds_of_isBarrier hk, ofKinds_of_isBarrier hk]
  | false =>
    obtain rfl := h hk
    cases hnext : next.isBarrier with
    | false => rw [h' hk hnext]
    | true =>
      have hne : next ≠ .lbracket := by
        rintro rfl
        cases hnext
      simp [Link.ofKinds, hne]

theorem look_nextLink : Look M φ nextLink
    (fun s => .ofKinds (s.ahead 0).kind (s.ahead 1).kind (s.ahead 2).kind) where
  eq _ := rfl
  alike {ys zs c s t} hb _ := by
    rw [← hb.kind_zero]
    refine ofKinds_congr (fun h => hb.kind_one h) fun h h' => ?_
    exact Token.kind_eq_of_alike (M.alike (hb.ahead_two (hb.kind_ne h) (hb.kind_ne h')))

theorem ofKinds_eq_access {k next after : Kind} {c : Bool}
    (h : Link.ofKinds k next after = .access c) : k ≠ .eof ∧ next ≠ .eof := by
  constructor
  · rintro rfl
    cases h
  · rintro rfl
    unfold Link.ofKinds at h
    simp only [reduceCtorEq, decide_false, Bool.or_self, Bool.and_false, Bool.false_and,
      Bool.false_eq_true, if_false] at h
    split at h
    · cases h
    · split at h <;> cases h

theorem ofKinds_eq_mark {k next after : Kind} (h : Link.ofKinds k next after = .mark) :
    k ≠ .eof := by
  rintro rfl
  cases h

-- ===== arguments

theorem sim_skipArgumentName :
    Sim M true Anywhere n 0 0 skipArgumentName (fun _ => skipArgumentName) := by
  refine Sim.checkBefore rfl ?_ (Sim.pure rfl)
  refine (Sim.skip fun s hs i hi => ?_).lower (by omega)
  obtain ⟨-, hzero, hone⟩ := hs
  match i, hi with
  | 0, _ => rw [hzero]; decide
  | 1, _ => rw [mem_singleton.1 hone]; decide

theorem sim_skipArgumentModifiers :
    Sim M true Anywhere n 0 0 skipArgumentModifiers (fun _ => skipArgumentModifiers) :=
  Sim.run (f := fun t => [.refKw, .outKw, .inKw].contains t.kind) (v := fun _ => ()) (fun _ => rfl)
    (fun h => by simp only [Token.kind_eq_of_alike h]) (.inl ⟨rfl, fun x hx => by rw [hx]; rfl⟩)
    fun _ => rfl

-- ===== bodies

/-- The readers of bodies at a bound. -/
structure BodySim (M : Pairing) (n : Nat) : Prop where
  items : ∀ stops, Sim M true Anywhere n 3 0 (itemsWithin n stops) (itemsWithin · stops)
  item : Sim M true (fun s => (s.ahead 0).kind ≠ .eof) n 2 1 (itemWithin n) itemWithin
  block : Sim M true Anywhere n 1 1 (blockWithin n) blockWithin
  group : ∀ opener closer what, opener.isTaken true = true → closer.isTaken true = true →
    (ParseFault.expected what).isPossible = true →
    Sim M true Anywhere n 1 1 (groupWithin n opener closer what)
      (groupWithin · opener closer what)
  foreach : Sim M true (fun s => (s.ahead 0).kind = .foreachKw) n 1 1 (foreachWithin n)
    foreachWithin
  declaration : ∀ e e', Alike e e' →
    Sim M true Anywhere n 1 0 (localWithin n e) (localWithin · e')
  head : Sim M true (fun s => startsChain (s.ahead 0).kind = true) n 1 1 (headWithin n) headWithin
  holes : ∀ hs hs', List.Forall₂ (List.Forall₂ M.stop) hs hs' → Token.AllClosed hs →
    Token.AllClosed hs' → Sim M true Anywhere n (16 * Token.holesWeight hs + 1) 0
      (holesWithin n hs) (holesWithin · hs')
  creation : ∀ start start',
    Sim M true Anywhere n 2 0 (creationWithin n start) (creationWithin · start')
  initializer : Sim M true Anywhere n 1 0 (initializerWithin n) initializerWithin
  argumentList : ∀ closer, closer.isTaken true = true →
    Sim M true Anywhere n 1 1 (argumentListWithin n closer) (argumentListWithin · closer)
  arguments : ∀ closer,
    Sim M true Anywhere n 5 0 (argumentsWithinBrackets n closer) (argumentsWithinBrackets · closer)
  argument : ∀ closer,
    Sim M true Anywhere n 4 0 (argumentWithin n closer) (argumentWithin · closer)
  chain : ∀ e e' start start', Alike e e' →
    Sim M true Anywhere n 2 0 (chainWithin n e start) (chainWithin · e' start')

namespace BodySim

section

variable (h : BodySim M n)
include h

theorem items_succ (stops : List Kind) :
    Sim M true Anywhere (n + 1) 3 0 (itemsWithin (n + 1) stops) (itemsWithin · stops) := by
  refine Sim.succ (itemsWithin.eq_2 stops n) (fun m => itemsWithin.eq_2 stops m) ?_
  refine Sim.peek fun x y hxy => ?_
  simp only [← Token.kind_eq_of_alike hxy]
  split
  · exact Sim.pure rfl
  next hx =>
  have heof : x.kind ≠ .eof := fun heof => hx (by rw [heof]; rfl)
  refine Sim.look look_localCount fun d d' hd => ?_
  cases alike_nat.1 hd
  refine Sim.bindFrom (fun s hs => hs.1.2 ▸ heof) (by omega) h.item fun a b hab => ?_
  match a, b, hab with
  | none, none, _ => exact (h.items stops).of (by omega)
  | some e, some e', he =>
    rw [alike_some] at he
    refine Sim.check ?_ ?_
    · refine Sim.bind (sim_recordParameters he) fun _ _ _ => ?_
      exact Sim.bindWithin (by omega) (h.items stops) fun es es' hes => Sim.pure (by simp [he, hes])
    · refine Sim.bindWithin (by omega) (h.declaration e e' he) fun i i' hi => ?_
      refine Sim.bindWithin (by omega) (h.items stops) fun es es' hes => Sim.pure ?_
      rw [alike_cons]
      exact ⟨he, hi.toList.append hes⟩

theorem item_succ :
    Sim M true (fun s => (s.ahead 0).kind ≠ .eof) (n + 1) 2 1 (itemWithin (n + 1)) itemWithin := by
  refine Sim.succ (itemWithin.eq_2 n) itemWithin.eq_2 ?_
  refine Sim.here fun start start' => ?_
  refine Sim.peek fun x y hxy => ?_
  simp only [← Token.kind_eq_of_alike hxy]
  split
  · refine Sim.bindWithin (by omega) (h.group .lparen .rparen _ rfl rfl rfl) fun a b hab => ?_
    exact Sim.bindWithin (by omega) (h.chain a b start start' hab) fun _ _ hab =>
      Sim.pure (by simpa using hab)
  split
  · exact Sim.bindWithin (by omega) h.block fun _ _ hab => Sim.pure (by simpa using hab)
  split
  · exact Sim.bindWithin (by omega) (h.group .lbracket .rbracket _ rfl rfl rfl)
      fun _ _ hab => Sim.pure (by simpa using hab)
  split
  next hx => exact h.foreach.mono (fun s hs => hs.2 ▸ hx) (by omega) (by omega)
  split
  next hx =>
    refine Sim.bindFrom (fun s hs => hs.2 ▸ hx) (by omega) h.head fun a b hab => ?_
    exact Sim.bindWithin (by omega) (h.chain a b start start' hab) fun _ _ hab =>
      Sim.pure (by simpa using hab)
  · exact Sim.advance (fun s hs => hs.1) (.inl rfl) fun _ _ _ => Sim.pure rfl

theorem block_succ : Sim M true Anywhere (n + 1) 1 1 (blockWithin (n + 1)) blockWithin := by
  refine Sim.succ (blockWithin.eq_2 n) blockWithin.eq_2 ?_
  refine Sim.here fun start start' => ?_
  refine Sim.bind (Sim.expect rfl rfl) fun _ _ _ => ?_
  refine Sim.bindWithin (by omega) (h.items _) fun es es' hes => ?_
  refine Sim.bind (Sim.expect rfl rfl) fun _ _ _ => ?_
  exact Sim.bind Sim.markFrom fun _ _ _ => Sim.pure (by simpa using hes)

theorem group_succ {opener closer : Kind} {what : Expected} (ho : opener.isTaken true = true)
    (hc : closer.isTaken true = true) (hw : (ParseFault.expected what).isPossible = true) :
    Sim M true Anywhere (n + 1) 1 1 (groupWithin (n + 1) opener closer what)
      (groupWithin · opener closer what) := by
  refine Sim.succ (groupWithin.eq_2 opener closer what n) (groupWithin.eq_2 opener closer what) ?_
  refine Sim.here fun start start' => ?_
  refine Sim.bind (Sim.expect hw ho) fun _ _ _ => ?_
  refine Sim.bindWithin (by omega) (h.items _) fun es es' hes => ?_
  refine Sim.bind (Sim.expect hw hc) fun _ _ _ => ?_
  exact Sim.bind Sim.markFrom fun _ _ _ => Sim.pure (by simpa using hes)

theorem foreach_succ :
    Sim M true (fun s => (s.ahead 0).kind = .foreachKw) (n + 1) 1 1 (foreachWithin (n + 1))
      foreachWithin := by
  refine Sim.succ (foreachWithin.eq_2 n) foreachWithin.eq_2 ?_
  refine Sim.here fun start start' => ?_
  refine Sim.taking .foreachKw rfl (fun s hs => hs) fun _ _ _ => ?_
  refine Sim.accept rfl ?_ (Sim.pure rfl)
  refine Sim.look look_localCount fun d d' hd => ?_
  cases alike_nat.1 hd
  refine Sim.bindWithin (by omega) (h.items _) fun es es' hes => ?_
  refine Sim.bindWithin (by omega) (Sim.whenTaken rfl (h.items _)) fun fs fs' hfs => ?_
  refine Sim.bind (Sim.expect rfl rfl) fun _ _ _ => ?_
  refine Sim.bind (sim_recordCollection hfs) fun _ _ _ => ?_
  refine Sim.bind Sim.markFrom fun _ _ _ => Sim.pure ?_
  simpa using hes.append hfs

theorem declaration_succ {e e' : Expr} (he : Alike e e') :
    Sim M true Anywhere (n + 1) 1 0 (localWithin (n + 1) e) (localWithin · e') := by
  refine Sim.succ (localWithin.eq_2 e n) (fun m => localWithin.eq_2 e' m) ?_
  refine Sim.look look_declaredName? fun a b hab => ?_
  match htype : e.asType?, htype' : e'.asType?, he.asType?, a, b, hab with
  | none, none, _, _, _, _ => exact Sim.pure rfl
  | some type, some type', _, none, none, _ => exact Sim.pure rfl
  | some type, some type', ht, some (x, nullable), some (x', nullable'), hx =>
    rw [alike_some] at ht
    rw [alike_some, alike_pair] at hx
    obtain ⟨hx, hnullable⟩ := hx
    cases alike_bool.1 hnullable
    have hskip : Sim M true (fun s => Anywhere s ∧ s.declared? = some (x, nullable)) n 0 1
        (skip (if nullable = true then 2 else 1))
          (fun _ => skip (if nullable = true then 2 else 1)) :=
      (Sim.skip fun s hs => ParseState.ahead_of_declared? hs.2).lower (by split <;> decide)
    refine Sim.bindFrom (fun _ hs => hs) (Nat.zero_le _) hskip fun _ _ _ => ?_
    have htype : Alike (if nullable = true then { type with nullable := true } else type)
        (if nullable = true then { type' with nullable := true } else type') := by
      split
      · rw [alike_typeRef] at ht ⊢
        exact ⟨ht.1, ht.2.1, ht.2.2.1, ht.2.2.2.1, rfl, ht.2.2.2.2.2⟩
      · exact ht
    generalize (if nullable = true then { type with nullable := true } else type) = type,
      (if nullable = true then { type' with nullable := true } else type') = type' at htype
    refine Sim.bind (Sim.recordLocal ?_) fun i i' hi => ?_
    · rw [alike_localDecl]
      refine ⟨Token.text_eq_of_alike hx, ?_, rfl, rfl, rfl, rfl⟩
      simp only [(alike_typeRef.1 htype).1]
      split
      · rfl
      · exact alike_some.2 htype
    cases alike_nat.1 hi
    refine Sim.accept rfl ?_ (Sim.pure rfl)
    refine Sim.peek fun u v huv => ?_
    simp only [← Token.kind_eq_of_alike huv]
    split
    · exact Sim.pure rfl
    next hu =>
    have heof : u.kind ≠ .eof := fun heof => hu (by rw [heof]; rfl)
    refine Sim.bindFrom (fun s hs => hs.2 ▸ heof) (by omega) h.item fun a b hab => ?_
    refine Sim.bind (Sim.updateLocal fun l l' hl => ?_) fun _ _ _ => Sim.pure hab
    rw [alike_localDecl] at hl ⊢
    exact ⟨hl.1, hl.2.1, hab, hl.2.2.2⟩

/-- The head of a chain may be a token with holes, whose tokens both readers may stop at. -/
theorem head_succ (hplain : BodySim .plain n) :
    Sim M true (fun s => startsChain (s.ahead 0).kind = true) (n + 1) 1 1 (headWithin (n + 1))
      headWithin := by
  refine Sim.succ (headWithin.eq_2 n) headWithin.eq_2 ?_
  refine Sim.here fun start start' => ?_
  have heof : ∀ s : ParseState, startsChain (s.ahead 0).kind = true → (s.ahead 0).kind ≠ .eof :=
    fun s hs hkind => by rw [hkind] at hs; cases hs
  refine Sim.advanceAmong (S := (BodySim · n)) hplain h heof (.inl rfl)
    fun N h x y hstop hx hy => ?_
  have hxy := N.stop_alike hstop
  have htext := Token.text_eq_of_alike hxy
  have hmark : ∀ {e e' : Mark → Expr}, (∀ m m', Alike (e m) (e' m')) →
      ∀ {φ : ParseState → Prop} {r : Nat}, Sim N true φ n r 0
        (do return e (← markFrom start)) (fun _ => do return e' (← markFrom start')) :=
    fun he => Sim.bind Sim.markFrom fun m m' _ => Sim.pure (he m m')
  rw [← Token.kind_eq_of_alike hxy, ← htext]
  split
  · refine Sim.bind (sim_qualifiedName hxy).loosen fun a b hab => ?_
    obtain ⟨name, qualifier⟩ := a
    obtain ⟨name', qualifier'⟩ := b
    rw [alike_pair] at hab
    refine Sim.bind (Sim.whenNext sim_typeArgsInExpr) fun as bs habs => hmark fun _ _ => ?_
    simpa [habs] using hab
  · exact hmark fun _ _ => by simp
  · exact hmark fun _ _ => alike_thisRef
  · exact hmark fun _ _ => alike_baseRef
  · have := x.one_le_weight
    exact (h.creation start start').of (by omega)
  · have hholes : Sim N true Anywhere n (16 * x.weight) 0 (holesWithin n (x.holes.getD []))
        (holesWithin · (y.holes.getD [])) := by
      have halike := (alike_token.1 hxy).2.2
      match hhx : x.holes, hhy : y.holes, halike with
      | none, none, _ =>
        have := x.one_le_weight
        exact (h.holes [] [] .nil trivial trivial).of ⟨show 16 * 0 + 1 ≤ _ by omega, by omega⟩
      | some hs, some hs', _ =>
        have hw := Token.weight_of_holes hhx
        exact (h.holes hs hs' (N.stop_holes hstop hhx hhy) (Token.allClosed_of_holes hx hhx)
          (Token.allClosed_of_holes hy hhy)).of (by omega)
    exact Sim.bindWithin (by omega) hholes fun es es' hes => hmark fun _ _ => by simpa using hes
  · exact Sim.bind Sim.skipGroup fun _ _ _ => hmark fun _ _ => by simp
  · exact Sim.bind Sim.skipGroup fun _ _ _ => hmark fun _ _ => by simp
  · exact Sim.bind Sim.skipGroup fun _ _ _ => hmark fun _ _ => by simp
  · exact hmark fun _ _ => by simp
  · split
    · exact hmark fun _ _ => by simp
    next hnone =>
      -- what starts a chain and is none of the above stands for a value
      refine Sim.nowhere fun s' hs' => ?_
      obtain ⟨s, hs, rfl, -⟩ := hs'
      simp only [startsChain, contains_eq_mem, mem_cons, not_mem_nil, or_false,
        decide_eq_true_eq] at hs
      rcases hs with hs | hs | hs | hs | hs | hs | hs | hs | hs | hs | hs | hs | hs | hs | hs
      all_goals first | contradiction | exact absurd (hs ▸ hnone) (by decide)

theorem initializer_succ :
    Sim M true Anywhere (n + 1) 1 0 (initializerWithin (n + 1)) initializerWithin := by
  refine Sim.succ (initializerWithin.eq_2 n) initializerWithin.eq_2 ?_
  refine Sim.accept rfl ?_ (Sim.pure rfl)
  refine Sim.bindWithin (by omega) (h.items _) fun es es' hes => ?_
  exact Sim.bind (Sim.expect rfl rfl) fun _ _ _ => Sim.pure hes

theorem creation_succ (start start' : Span) :
    Sim M true Anywhere (n + 1) 2 0 (creationWithin (n + 1) start) (creationWithin · start') := by
  refine Sim.succ (creationWithin.eq_2 start n) (fun m => creationWithin.eq_2 start' m) ?_
  have hmark : ∀ {e e' : Mark → Expr}, (∀ m m', Alike (e m) (e' m')) →
      ∀ {φ : ParseState → Prop} {r : Nat}, Sim M true φ n r 0
        (do return e (← markFrom start)) (fun _ => do return e' (← markFrom start')) :=
    fun he => Sim.bind Sim.markFrom fun m m' _ => Sim.pure (he m m')
  refine Sim.check ?_ (Sim.check ?_ (Sim.check ?_ ?_))
  · refine Sim.bindWithin (by omega) (h.argumentList .rparen rfl) fun as bs habs => ?_
    refine Sim.bindWithin (by omega) h.initializer fun is is' his => hmark fun _ _ => ?_
    simp [habs, his]
  · refine Sim.bind Sim.skipBalanced fun _ _ _ => ?_
    exact Sim.bindWithin (by omega) h.initializer fun is is' his =>
      hmark fun _ _ => by simpa using his
  · exact Sim.bindWithin (by omega) h.initializer fun is is' his =>
      hmark fun _ _ => by simpa using his
  · refine Sim.bind (sim_typeRef false) fun type type' htype => ?_
    refine Sim.check ?_ (Sim.check ?_ (Sim.check ?_ (Sim.unexpected rfl)))
    · refine Sim.bindWithin (by omega) (h.argumentList .rparen rfl) fun as bs habs => ?_
      refine Sim.bindWithin (by omega) h.initializer fun is is' his => hmark fun _ _ => ?_
      simp [htype, habs, his]
    · refine Sim.bindWithin (by omega) h.initializer fun is is' his => hmark fun _ _ => ?_
      simp [htype, his]
    · refine Sim.bindWithin (by omega) (h.argumentList .rbracket rfl) fun as bs habs => ?_
      refine Sim.bind Sim.skipSections fun _ _ _ => ?_
      refine Sim.bindWithin (by omega) h.initializer fun is is' his => hmark fun _ _ => ?_
      simpa [htype] using habs.append his

theorem argumentList_succ {closer : Kind} (hc : closer.isTaken true = true) :
    Sim M true Anywhere (n + 1) 1 1 (argumentListWithin (n + 1) closer)
      (argumentListWithin · closer) := by
  refine Sim.succ (argumentListWithin.eq_2 closer n) (fun m => argumentListWithin.eq_2 closer m) ?_
  have hopener : (openerOf closer).isTaken true = true := by
    unfold openerOf
    split <;> rfl
  have hend : (ParseFault.expected (argumentsEnd closer)).isPossible = true := by
    unfold argumentsEnd
    split <;> rfl
  refine Sim.bind (Sim.expect rfl hopener) fun _ _ _ => ?_
  refine Sim.bindWithin (by omega) (Sim.unlessNext (h.arguments closer)) fun as bs habs => ?_
  exact Sim.bind (Sim.expect hend hc) fun _ _ _ => Sim.pure habs

theorem argument_succ (closer : Kind) :
    Sim M true Anywhere (n + 1) 4 0 (argumentWithin (n + 1) closer) (argumentWithin · closer) := by
  refine Sim.succ (argumentWithin.eq_2 closer n) (fun m => argumentWithin.eq_2 closer m) ?_
  refine Sim.here fun start start' => ?_
  refine Sim.bind sim_skipArgumentName fun _ _ _ => ?_
  refine Sim.bind sim_skipArgumentModifiers fun _ _ _ => ?_
  refine Sim.bindWithin (by omega) (h.items _) fun es es' hes => ?_
  match es, es', hes with
  | [e], [e'], hes => exact Sim.pure (alike_cons.1 hes).1
  | [], [], hes =>
    exact Sim.bind Sim.markFrom fun _ _ _ => Sim.pure (alike_group.2 hes)
  | _ :: _ :: _, _ :: _ :: _, hes =>
    exact Sim.bind Sim.markFrom fun _ _ _ => Sim.pure (alike_group.2 hes)
  | [], _ :: _, hes => exact absurd hes not_alike_nil_cons
  | _ :: _, [], hes => exact absurd hes not_alike_cons_nil
  | [_], _ :: _ :: _, hes => exact absurd (alike_cons.1 hes).2 not_alike_nil_cons
  | _ :: _ :: _, [_], hes => exact absurd (alike_cons.1 hes).2 not_alike_cons_nil

theorem arguments_succ (closer : Kind) :
    Sim M true Anywhere (n + 1) 5 0 (argumentsWithinBrackets (n + 1) closer)
      (argumentsWithinBrackets · closer) := by
  refine Sim.succ (argumentsWithinBrackets.eq_2 closer n)
    (fun m => argumentsWithinBrackets.eq_2 closer m) ?_
  refine Sim.bindWithin (by omega) (h.argument closer) fun a b hab => ?_
  refine Sim.accept rfl ?_ (Sim.pure (by simpa using hab))
  exact Sim.bindWithin (by omega) (h.arguments closer) fun as bs habs =>
    Sim.pure (by simp [hab, habs])

theorem chain_succ {e e' : Expr} {start start' : Span} (he : Alike e e') :
    Sim M true Anywhere (n + 1) 2 0 (chainWithin (n + 1) e start) (chainWithin · e' start') := by
  refine Sim.succ (chainWithin.eq_2 e start n) (fun m => chainWithin.eq_2 e' start' m) ?_
  refine Sim.look look_nextLink fun link link' hlink => ?_
  cases alike_link.1 hlink
  cases link with
  | access conditional =>
    refine Sim.advance (fun s hs => (ofKinds_eq_access hs.2).1) (.inl rfl) fun _ _ _ => ?_
    refine Sim.advance ?_ (.inl rfl) fun x y hxy => ?_
    · rintro _ ⟨s, hs, -, rfl⟩
      rw [ParseState.ahead_drop_one]
      exact (ofKinds_eq_access hs.2).2
    refine Sim.bind (Sim.whenNext sim_typeArgsInExpr) fun as bs habs => ?_
    refine Sim.bind Sim.markFrom fun _ _ _ => (h.chain _ _ _ _ ?_).of (by omega)
    simp [he, Token.text_eq_of_alike hxy, habs]
  | call =>
    refine Sim.bindWithin (by omega) (h.argumentList .rparen rfl) fun as bs habs => ?_
    refine Sim.bind Sim.markFrom fun _ _ _ => (h.chain _ _ _ _ ?_).of (by omega)
    simp [he, habs]
  | element =>
    refine Sim.bindWithin (by omega) (h.argumentList .rbracket rfl) fun as bs habs => ?_
    refine Sim.bind Sim.markFrom fun _ _ _ => (h.chain _ _ _ _ ?_).of (by omega)
    simp [he, habs]
  | mark =>
    refine Sim.advance (fun s hs => ofKinds_eq_mark hs.2) (.inl rfl) fun _ _ _ => ?_
    exact (h.chain e e' start start' he).of (by omega)
  | none => exact Sim.pure he

end

/-- A hole needs the readers of bodies for its own tokens, whatever the pairing around it. -/
theorem holes_succ (h : BodySim M n) (hinside : BodySim M.inside n) :
    ∀ hs hs', List.Forall₂ (List.Forall₂ M.stop) hs hs' → Token.AllClosed hs →
      Token.AllClosed hs' → Sim M true Anywhere (n + 1) (16 * Token.holesWeight hs + 1) 0
        (holesWithin (n + 1) hs) (holesWithin · hs')
  | _, _, .nil, _, _ => by
    simp only [holesWithin]
    exact Sim.pure rfl
  | hole :: hs, hole' :: hs', .cons hpair hpairs, hclosed, hclosed' => by
    refine Sim.succ (holesWithin.eq_3 n hole hs) (fun m => holesWithin.eq_3 m hole' hs') ?_
    have hw : Token.holesWeight (hole :: hs) = Token.listWeight hole + Token.holesWeight hs := rfl
    have hpos := hclosed.1.weight_pos
    have hhole := Sim.withTokens (M := M) (r := 16 * Token.holesWeight (hole :: hs)) hpair
      hclosed.1 hclosed'.1 (hinside.items []) (by omega)
    have hrest := h.holes hs hs' hpairs hclosed.2 hclosed'.2
    refine Sim.bindWithin (by omega) hhole fun es es' hes => ?_
    match es, es', hes with
    | [], [], _ => exact hrest.of (by omega)
    | [e], [e'], hes =>
      exact Sim.bindWithin (by omega) hrest fun fs fs' hfs =>
        Sim.pure (alike_cons.2 ⟨(alike_cons.1 hes).1, hfs⟩)
    | e₁ :: e₂ :: es, e₁' :: e₂' :: es', hes =>
      refine Sim.bind Sim.newMark fun _ _ _ => ?_
      exact Sim.bindWithin (by omega) hrest fun fs fs' hfs =>
        Sim.pure (alike_cons.2 ⟨alike_group.2 hes, hfs⟩)
    | [], _ :: _, hes => exact absurd hes not_alike_nil_cons
    | _ :: _, [], hes => exact absurd hes not_alike_cons_nil
    | [_], _ :: _ :: _, hes => exact absurd (alike_cons.1 hes).2 not_alike_nil_cons
    | _ :: _ :: _, [_], hes => exact absurd (alike_cons.1 hes).2 not_alike_cons_nil

end BodySim

theorem bodySim (M : Pairing) : ∀ n, BodySim M n
  | 0 => ⟨fun _ => .zero, .zero, .zero, fun _ _ _ _ _ _ => .zero, .zero, fun _ _ _ => .zero, .zero,
      fun _ _ _ _ _ => .zero, fun _ _ => .zero, .zero, fun _ _ => .zero, fun _ => .zero,
      fun _ => .zero, fun _ _ _ _ _ => .zero⟩
  | n + 1 =>
    have h := bodySim M n
    ⟨h.items_succ, h.item_succ, h.block_succ, fun _ _ _ => h.group_succ, h.foreach_succ,
      fun _ _ => h.declaration_succ, h.head_succ (bodySim .plain n),
      h.holes_succ (bodySim M.inside n), h.creation_succ,
      h.initializer_succ, fun _ => h.argumentList_succ, h.arguments_succ, h.argument_succ,
      fun _ _ _ _ => h.chain_succ⟩

theorem sim_items (stops : List Kind) :
    Sim M true Anywhere n 0 0 (items stops) (fun _ => items stops) :=
  Sim.atBound (fun n => (bodySim M n).items stops) (by decide)

theorem sim_item :
    Sim M true (fun s => (s.ahead 0).kind ≠ .eof) n 0 1 item (fun _ => item) :=
  Sim.atBound (fun n => (bodySim M n).item) (by decide)

theorem sim_localDeclaration {e e' : Expr} (he : Alike e e') :
    Sim M true Anywhere n 0 0 (localDeclaration e) (fun _ => localDeclaration e') :=
  Sim.atBound (fun n => (bodySim M n).declaration e e' he) (by decide)

theorem sim_block : Sim M true Anywhere n 0 1 block (fun _ => block) :=
  Sim.atBound (fun n => (bodySim M n).block) (by decide)

theorem sim_argumentList {closer : Kind} (hc : closer.isTaken true = true) :
    Sim M true Anywhere n 0 1 (argumentList closer) (fun _ => argumentList closer) :=
  Sim.atBound (fun n => (bodySim M n).argumentList closer hc) (by decide)

end SourceBundle

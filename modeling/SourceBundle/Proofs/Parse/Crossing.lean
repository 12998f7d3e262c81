/-
Reading up to a last semicolon. One reader comes to its end after the
semicolon, the other has further tokens behind it. A semicolon is a
barrier, so the two go side by side before it; here they also take it
together (`Across`), since only a reader that is done with a directive
or a statement takes a semicolon last: an item leaves its statement
open.

# Rounds

Each round of reading at file level takes a directive, a delegate, a
statement or a lone semicolon, on both sides the same one
(`across_entry`). So what is read before the last semicolon takes no more
than the semicolon, whatever stands behind it (`passes_of_across`).

# Brackets

Whether a declaration starts is looked up behind bracketed sections, as
far ahead as these go. Sections that do not close before the semicolon
would close somewhere behind it, or not, and the two readers would see
different things. This is why the tokens are asked to be `Bracketed`.
-/
import SourceBundle.Proofs.Parse.Aloof
import SourceBundle.Proofs.Parse.Layout
import SourceBundle.Proofs.Parse.Tails

namespace SourceBundle

open List Parse

variable {α β : Type} {M : Pairing} {e : Token} {zs : List Token} {s t u v w : ParseState}
  {n m j : Nat} {source : List Char}

-- ===== the last semicolon

/-- One reader is before a last semicolon and the other beside it, or both have just taken it. -/
def Across (M : Pairing) (e : Token) (zs : List Token) (s t : ParseState) : Prop :=
  Beside M [e] zs .semi s t ∨ (s.rest = [e] ∧ t.Closed ∧ t.rest = zs)

namespace Beside

/-- Before the last semicolon there is something to read. -/
theorem front_ne_eof (hb : Beside M [e] zs .semi s t) : (s.ahead 0).kind ≠ .eof := by
  obtain ⟨x, y, l, l', hs, -, hl, hx, -⟩ := hb.cons
  rw [hx]
  intro heof
  have hclosed := hb.left.rest
  rw [hs, Token.closed_cons_eof heof] at hclosed
  have := (hl.tail (by rw [heof]; decide)).length_lt
  rw [hclosed] at this
  exact absurd this (Nat.not_lt_zero _)

/-- A token is taken on both sides. -/
theorem take (hb : Beside M [e] zs .semi s t) : Across M e zs (s.drop 1) (t.drop 1) := by
  have heof := hb.front_ne_eof
  obtain ⟨x, y, l, l', hs, ht, hl, -, -⟩ := hb.cons
  rcases hb.drop_one heof with hb' | ⟨hpast, -⟩
  · exact .inl hb'
  · have hrest : (s.drop 1).rest = [e] := by
      rw [Past, ParseState.rest_drop, hs] at hpast
      rw [ParseState.rest_drop, hs]
      cases hl with
      | stop => rfl
      | cons _ hl => exact absurd hl.length_lt (Nat.not_lt.2 hpast)
    exact .inr ⟨hrest, hb.right.drop_one (hb.kind_zero ▸ heof), (hb.take_barrier hrest).1⟩

theorem take_ne_semi (hb : Beside M [e] zs .semi s t) (h : (s.ahead 0).kind ≠ .semi) :
    Beside M [e] zs .semi (s.drop 1) (t.drop 1) :=
  (hb.drop_one hb.front_ne_eof).resolve_right fun hpast => h hpast.2.1

end Beside

/-- The barrier stands where it is said to. -/
theorem Ahead.split {ys l l' : List Token} {c : Kind} (h : Ahead M ys zs c l l') :
    ∃ front x, l = front ++ x :: ys ∧ x.kind = c := by
  induction h with
  | @stop x y _ hx => exact ⟨[], x, rfl, hx⟩
  | @cons x y l l' _ _ ih =>
    obtain ⟨front, z, rfl, hz⟩ := ih
    exact ⟨x :: front, z, rfl, hz⟩

/-- Whoever is past the last semicolon has taken it last. -/
theorem Beside.last_of_past {a : α} (hb : Beside M [e] zs .semi s t)
    (hgo : Goes j s (.ok (a, u))) (hpast : Past [e] u) :
    ∃ x, u.last = some x ∧ x.kind = .semi := by
  obtain ⟨front, x, hrest, hx⟩ := hb.rest.split
  have hpos := hgo.length_pos
  obtain ⟨k, -, hk, hu, hlast, -⟩ := hgo
  rw [Past, length_singleton] at hpast
  have hlength : s.rest.length = front.length + 2 := by
    rw [hrest, length_append]
    rfl
  rw [hu, ParseState.rest_drop, length_drop] at hpast hpos
  obtain rfl : k = front.length + 1 := by omega
  refine ⟨x, ?_, hx⟩
  rw [hlast, ParseState.last_drop_succ s (by omega)]
  simp only [hrest, getElem_append_right (Nat.le_refl _), Nat.sub_self, getElem_cons_zero]

/-- A reader that leaves the statement open stays before the last semicolon, and so does the
other. -/
theorem Pairs.beside [Bare α] {a : α} {y : Except ParseError (α × ParseState)}
    (h : Pairs M true [e] zs .semi (.ok (a, u)) y) (hb : Beside M [e] zs .semi s t)
    (hgo : Goes j s (.ok (a, u))) (hopen : StaysOpen s u) :
    ∃ b v, y = .ok (b, v) ∧ Alike a b ∧ Beside M [e] zs .semi u v := by
  refine h.both_of_ok (Nat.lt_of_not_le fun hpast => ?_)
  obtain ⟨x, hx, hsemi⟩ := hb.last_of_past hgo hpast
  obtain ⟨hrest, -⟩ | hnone | ⟨x', hx', hne⟩ := hopen
  · exact hb.not_past (by rwa [Past, ← hrest])
  · exact absurd hgo.length_pos (by rw [hnone]; exact Nat.lt_irrefl 0)
  · rw [hx] at hx'
    cases hx'
    exact hne hsemi

section

variable [Bare α] {p q : Parse α} {φ : ParseState → Prop} {a : α}

/-- Two readers of which the left one leaves the statement open. -/
theorem Sim.beside_of_open (h : ∀ n, Sim M true φ n 0 j p fun _ => q)
    (hb : Beside M [e] zs .semi s t) (hφ : φ s) (hrun : p s = .ok (a, u)) (hopen : StaysOpen s u) :
    ∃ b v, q t = .ok (b, v) ∧ Alike a b ∧ Beside M [e] zs .semi u v
      ∧ u.weight + j ≤ s.weight := by
  have hgo := (h (16 * s.weight)).goes hb.left hφ (Nat.le_refl _)
  have hpairs := (h (16 * s.weight)).pairs hb hφ (Nat.le_refl _) (Nat.le_refl (16 * t.weight))
  rw [hrun] at hgo hpairs
  obtain ⟨b, v, hrun', hab, hb'⟩ := hpairs.beside hb hgo hopen
  exact ⟨b, v, hrun', hab, hb', hgo.weight_add_le⟩

/-- Two readers of which the left one has more than the end left to read. -/
theorem Sim.beside_of_rest (h : ∀ n, Sim M true φ n 0 j p fun _ => q)
    (hb : Beside M [e] zs .semi s t) (hφ : φ s) (hrun : p s = .ok (a, u))
    (hu : (u.ahead 0).kind ≠ .eof) :
    ∃ b v, q t = .ok (b, v) ∧ Alike a b ∧ Beside M [e] zs .semi u v := by
  have hgo := (h (16 * s.weight)).goes hb.left hφ (Nat.le_refl _)
  have hpairs := (h (16 * s.weight)).pairs hb hφ (Nat.le_refl _) (Nat.le_refl (16 * t.weight))
  rw [hrun] at hgo hpairs
  exact hpairs.both_of_ok ((hgo.closed hb.left).one_lt_length hu)

end

-- ===== directives

theorem across_skipDirective (hb : Beside M [e] zs .semi s t)
    (hrun : skipDirective s = .ok ((), u)) :
    ∃ v, skipDirective t = .ok ((), v) ∧ Across M e zs u v := by
  obtain ⟨xs, w, htake, hrun⟩ := bind_eq_ok hrun
  obtain ⟨ys, v, htake', -, hb', -⟩ := Sim.beside_of_open (fun _ => Sim.takeUntil) hb trivial htake
    ((LeavesOpen.of_takeUntil (by decide)).run htake)
  obtain ⟨isSemi, w', haccept, hrun⟩ := bind_eq_ok hrun
  cases hrun
  unfold skipDirective
  rw [bind_ok htake']
  rw [accept_eq (by decide)] at haccept
  split at haccept
  next hsemi =>
    cases haccept
    exact ⟨v.drop 1, bind_ok (accept_taken (hb'.kind_zero ▸ hsemi) (by decide)), hb'.take⟩
  next hsemi =>
    cases haccept
    exact ⟨v, bind_ok (accept_left (hb'.kind_zero ▸ hsemi) (by decide)), .inl hb'⟩

/-- A using directive after the word `using`, up to its semicolon. -/
def usingTarget : Parse (Bool × Option String × TypeRef) := do
  let isStatic ← accept .staticKw
  let aliasName ← usingAlias
  let target ← typeRef
  return (isStatic, aliasName, target)

theorem sim_usingTarget : Sim M true Anywhere n 0 0 usingTarget (fun _ => usingTarget) := by
  unfold usingTarget
  refine Sim.bind (Sim.accepted rfl) fun isStatic isStatic' hstatic => ?_
  refine Sim.bind sim_usingAlias fun aliasName aliasName' halias => ?_
  refine Sim.bind (sim_typeRef true) fun target target' htarget => Sim.pure ?_
  exact alike_pair.2 ⟨hstatic, alike_pair.2 ⟨halias, htarget⟩⟩

theorem usingRest_eq (start : Span) (isGlobal : Bool) : usingRest start isGlobal = do
    let (isStatic, aliasName, target) ← usingTarget
    let _ ← expect .semi .usingEnd
    return { target, aliasName, isStatic, isGlobal, span := some (← spanFrom start) } := by
  unfold usingRest usingTarget
  simp only [bind_assoc, pure_bind]

theorem across_usingRest {start start' : Span} {isGlobal : Bool} {d : UsingDirective}
    (hb : Beside M [e] zs .semi s t) (hrun : usingRest start isGlobal s = .ok (d, u)) :
    ∃ d' v, usingRest start' isGlobal t = .ok (d', v) ∧ Alike d d' ∧ Across M e zs u v := by
  rw [usingRest_eq] at hrun ⊢
  obtain ⟨⟨isStatic, aliasName, target⟩, w, htarget, hrun⟩ := bind_eq_ok hrun
  obtain ⟨_, w', hsemi, hrun⟩ := bind_eq_ok hrun
  cases hrun
  rw [expect_eq (by decide)] at hsemi
  split at hsemi
  next hkind =>
    cases hsemi
    obtain ⟨⟨isStatic', aliasName', target'⟩, v, htarget', halike, hb'⟩ :=
      Sim.beside_of_rest (fun _ => sim_usingTarget) hb trivial htarget (by rw [hkind]; decide)
    obtain ⟨hstatic, halias, htype⟩ : isStatic = isStatic' ∧ aliasName = aliasName'
        ∧ Alike target target' := by
      simpa using halike
    have hsemi' : expect .semi .usingEnd v = .ok (v.ahead 0, v.drop 1) :=
      expect_taken (hb'.kind_zero ▸ hkind) (by decide)
    refine ⟨_, v.drop 1, (bind_ok htarget').trans (bind_ok hsemi'), ?_, hb'.take⟩
    exact alike_usingDirective.2 ⟨htype, halias, hstatic, rfl⟩
  next => cases hsemi

theorem across_usingDirective {d : UsingDirective} (hb : Beside M [e] zs .semi s t)
    (hat : AtUsing s)
    (hrun : usingDirective s = .ok (d, u)) :
    ∃ d' v, usingDirective t = .ok (d', v) ∧ Alike d d' ∧ Across M e zs u v := by
  obtain ⟨start, hs⟩ := usingDirective_eq hat
  obtain ⟨start', ht⟩ := usingDirective_eq (hb.atUsing hat)
  rw [hs] at hrun
  rw [ht, ← hb.isWord_zero]
  split at hrun
  next hglobal =>
    obtain ⟨hkind, husing⟩ := hat.global hglobal
    rw [if_pos hglobal]
    have hb' := hb.take_ne_semi (by rw [hkind]; decide)
    rw [bind_ok (advance_eq hb.front_ne_eof), bind_ok (advance_eq hb'.front_ne_eof)] at hrun
    rw [bind_ok (advance_eq (hb.kind_zero ▸ hb.front_ne_eof)),
      bind_ok (advance_eq (hb'.kind_zero ▸ hb'.front_ne_eof))]
    exact across_usingRest (hb'.take_ne_semi (by rw [husing]; decide)) hrun
  next hglobal =>
    rw [bind_ok (advance_eq hb.front_ne_eof)] at hrun
    rw [if_neg hglobal, bind_ok (advance_eq (hb.kind_zero ▸ hb.front_ne_eof))]
    exact across_usingRest (hb.take_ne_semi (by rw [hat.plain hglobal]; decide)) hrun

-- ===== delegates

theorem across_skipDelegate (hb : Beside M [e] zs .semi s t)
    (hrun : skipDelegate s = .ok ((), u)) :
    ∃ v, skipDelegate t = .ok ((), v) ∧ Across M e zs u v := by
  obtain ⟨tok, w, hpeek, hrun⟩ := bind_eq_ok hrun
  cases hpeek
  obtain ⟨xs, w, htake, hrun⟩ := bind_eq_ok hrun
  obtain ⟨ys, v, htake', -, hb', -⟩ := Sim.beside_of_open (fun _ => Sim.takeUntil) hb trivial htake
    ((LeavesOpen.of_takeUntil (by decide)).run htake)
  obtain ⟨isSemi, w', haccept, hrun⟩ := bind_eq_ok hrun
  rw [accept_eq (by decide)] at haccept
  split at haccept
  next hsemi =>
    cases haccept
    cases hrun
    refine ⟨v.drop 1, ?_, hb'.take⟩
    unfold skipDelegate
    have haccept' : accept .semi v = .ok (true, v.drop 1) :=
      accept_taken (hb'.kind_zero ▸ hsemi) (by decide)
    rw [bind_ok (p := peek) rfl, bind_ok htake', bind_ok haccept']
    rfl
  next hsemi =>
    cases haccept
    cases hrun

theorem across_typeOpening (hb : Beside M [e] zs .semi s t)
    (hrun : typeOpening s = .ok (none, u)) :
    ∃ v, typeOpening t = .ok (none, v) ∧ Across M e zs u v := by
  obtain ⟨_, w, hsections, hrun⟩ := bind_eq_ok hrun
  obtain ⟨_, v, hsections', -, hb', -⟩ := Sim.beside_of_open (fun _ => Sim.skipSections) hb trivial
    hsections (LeavesOpen.run hsections)
  obtain ⟨start, w', hstart, hrun⟩ := bind_eq_ok hrun
  cases hstart
  obtain ⟨ms, w', hmodifiers, hrun⟩ := bind_eq_ok hrun
  obtain ⟨isDelegate, w'', hcheck, hrun⟩ := bind_eq_ok hrun
  cases hcheck
  by_cases hkind : (w'.ahead 0).kind = .delegateKw
  · obtain ⟨ms', v', hmodifiers', -, hb''⟩ :=
      Sim.beside_of_rest (fun _ => sim_modifiers) hb' trivial
      hmodifiers (by rw [hkind]; decide)
    rw [decide_eq_true hkind, if_pos rfl] at hrun
    obtain ⟨_, w'', hskip, hrun⟩ := bind_eq_ok hrun
    cases hrun
    obtain ⟨v'', hskip', hacross⟩ := across_skipDelegate hb'' hskip
    refine ⟨v'', ?_, hacross⟩
    unfold typeOpening
    rw [bind_ok hsections', bind_ok (p := here) rfl, bind_ok hmodifiers',
      bind_ok (p := check .delegateKw) rfl, decide_eq_true (hb''.kind_zero ▸ hkind), if_pos rfl,
      bind_ok hskip']
    rfl
  · rw [decide_eq_false hkind, if_neg Bool.false_ne_true] at hrun
    obtain ⟨isType, w'', hat, hrun⟩ := bind_eq_ok hrun
    cases hat
    split at hrun
    · obtain ⟨header, w'', hheader, hrun⟩ := bind_eq_ok hrun
      cases hrun
    · cases hrun

theorem Beside.withLocals (hb : Beside M [e] zs .semi s t) (locals locals' : Array LocalDecl)
    (h : Alike locals.toList locals'.toList) :
    Beside M [e] zs .semi (s.withLocals locals) (t.withLocals locals') :=
  ⟨⟨hb.left.rest, hb.left.eof⟩, ⟨hb.right.rest, hb.right.eof⟩, hb.within, hb.rest, hb.last, h⟩

/-- A declaration that is none is a delegate, which ends with its semicolon. -/
theorem across_typeDeclaration (hb : Beside M [e] zs .semi s t)
    (hrun : typeDeclaration source s = .ok (none, u)) :
    ∃ v, typeDeclaration source t = .ok (none, v) ∧ Across M e zs u v := by
  obtain ⟨n, hn⟩ : ∃ n, s.bound = n + 1 := ⟨s.bound - 1, by have := s.weight_lt_bound; omega⟩
  obtain ⟨m, hm⟩ : ∃ m, t.bound = m + 1 := ⟨t.bound - 1, by have := t.weight_lt_bound; omega⟩
  rw [typeDeclaration_eq, hn, typeDeclarationWithin_succ] at hrun
  rw [typeDeclaration_eq, hm, typeDeclarationWithin_succ]
  generalize hfrom : typeFrom source (stopOf s.last) (typeBodyWithin source n)
    { s with locals := #[] } = x at hrun
  cases x with
  | error err => cases hrun
  | ok x =>
    obtain ⟨d?, w⟩ := x
    cases hrun
    obtain ⟨header?, w', hopening, hfrom⟩ := bind_eq_ok hfrom
    cases header? with
    | some header =>
      obtain ⟨d, w'', hrest, hfrom⟩ := bind_eq_ok hfrom
      cases hfrom
    | none =>
      cases hfrom
      obtain ⟨v, hopening', hacross⟩ := across_typeOpening (hb.withLocals #[] #[] rfl)
        hopening
      refine ⟨v.withLocals t.locals, ?_, ?_⟩
      · have hfrom' : typeFrom source (stopOf t.last) (typeBodyWithin source m)
            { t with locals := #[] } = .ok (none, v) := bind_ok hopening'
        rw [hfrom']
        rfl
      · rcases hacross with hb' | ⟨hs, ht, hzs⟩
        · exact .inl (hb'.withLocals _ _ hb.locals)
        · exact .inr ⟨hs, ⟨ht.rest, ht.eof⟩, hzs⟩

-- ===== statements

/-- The bracketed sections that open among the tokens close among them. -/
def Bracketed (ts : List Token) : Prop :=
  ∀ i < ts.length, (sectionsLength? 0 (ts.drop i)).isSome = true

theorem Bracketed.sections {ts : List Token} (h : Bracketed ts) :
    ∃ k, sectionsLength? 0 ts = some k := by
  cases ts with
  | nil => exact ⟨0, rfl⟩
  | cons x ts => exact Option.isSome_iff_exists.1 (h 0 (Nat.succ_pos _))

theorem Bracketed.after {a : α} (h : Bracketed s.rest) (hgo : Goes j s (.ok (a, u))) :
    Bracketed u.rest := by
  obtain ⟨k, -, -, hrest, -⟩ := hgo
  intro i hi
  rw [hrest, ParseState.rest_drop, length_drop] at hi
  rw [hrest, ParseState.rest_drop, drop_drop]
  exact h _ (by omega)

/-- Sections that close before the last semicolon are followed by the same on both sides. -/
theorem Beside.starts_eq (hb : Beside M [e] zs .semi s t) {k : Nat}
    (hk : sectionsLength? 0 s.rest = some k) :
    startsTypeDeclaration s.rest = startsTypeDeclaration t.rest := by
  have hlt := sectionsLength?_lt hb.left.rest hk
  have hgo : Goes 0 s (.ok ((), s.drop k)) :=
    ⟨k, Nat.zero_le k, hlt, rfl, rfl, s.eof_drop k⟩
  have hbefore : ¬ Past [e] (s.drop k) := by
    intro hpast
    obtain ⟨x, hx, hsemi⟩ := hb.last_of_past hgo hpast
    obtain ⟨rfl, -⟩ | ⟨i, y, rfl, hy, hclose⟩ := sectionsLength?_last hk
    · exact hb.not_past hpast
    · obtain ⟨hi, rfl⟩ := List.getElem?_eq_some_iff.1 hy
      rw [s.last_drop_succ hi] at hx
      cases hx
      rw [hclose] at hsemi
      cases hsemi
  have hcounts := hb.rest.sectionsLength? hb.barrier 0
  rw [SourceBundle.startsTypeDeclaration_eq, SourceBundle.startsTypeDeclaration_eq]
  rw [hk] at hcounts ⊢
  generalize sectionsLength? 0 t.rest = b at hcounts
  cases hcounts with
  | past hpast =>
    rw [Past, ParseState.rest_drop] at hbefore
    exact absurd hpast hbefore
  | both =>
    have hrest := ((hb.drop hlt).resolve_right fun hpast => hbefore hpast.1).rest
    rw [ParseState.rest_drop, ParseState.rest_drop] at hrest
    exact hrest.startsPast hb.barrier

theorem across_skipStatementWithin : ∀ {n m : Nat} {s t : ParseState},
    Beside M [e] zs .semi s t → Bracketed s.rest → 16 * s.weight + 1 ≤ n → 16 * t.weight + 1 ≤ m →
    skipStatementWithin n s = .ok ((), u) →
    ∃ v, skipStatementWithin m t = .ok ((), v) ∧ Across M e zs u v
  | 0, _, _, _, _, _, hn, _, _ => absurd hn (by omega)
  | _ + 1, 0, _, _, _, _, _, hm, _ => absurd hm (by omega)
  | n + 1, m + 1, s, t, hb, hbrackets, hn, hm, hrun => by
    obtain ⟨k, hk⟩ := hbrackets.sections
    rw [skipStatementWithin_succ, if_neg hb.front_ne_eof] at hrun
    rw [skipStatementWithin_succ, ← hb.kind_zero, ← hb.starts_eq hk, if_neg hb.front_ne_eof]
    split at hrun
    next hsemi =>
      cases hrun
      rw [if_pos hsemi]
      exact ⟨_, rfl, hb.take⟩
    next hsemi =>
    rw [if_neg hsemi]
    split at hrun
    next => cases hrun
    next hcloser =>
    rw [if_neg hcloser]
    split at hrun
    next hstarts =>
      cases hrun
      rw [if_pos hstarts]
      exact ⟨_, rfl, .inl hb⟩
    next hstarts =>
    rw [if_neg hstarts]
    -- an item leaves the statement open, so it ends before the last semicolon on both sides
    obtain ⟨_, w, hitem, hrun⟩ := bind_eq_ok hrun
    obtain ⟨_, v, hitem', -, hb', hless⟩ := Sim.beside_of_open (fun _ => sim_skipItem) hb
      hb.front_ne_eof hitem (staysOpen_skipItem hsemi hitem)
    have hgo : Goes 1 s (.ok ((), w)) := (sim_skipItem (M := M)).goes_ok hitem hb.left
      hb.front_ne_eof (Nat.le_refl (16 * s.weight))
    have := hb.weight_add_le hb' hless
    rw [bind_ok hitem']
    exact across_skipStatementWithin hb' (hbrackets.after hgo) (by omega) (by omega) hrun

-- ===== rounds

/-- A body with further usings in front. -/
def NamespaceBody.after (usings : List UsingDirective) (b : NamespaceBody) : NamespaceBody :=
  { b with usings := usings ++ b.usings }

theorem NamespaceBody.after_nil : NamespaceBody.after [] = id := rfl

theorem NamespaceBody.after_append (us vs : List UsingDirective) :
    NamespaceBody.after (us ++ vs) = NamespaceBody.after us ∘ NamespaceBody.after vs := by
  funext b
  simp [NamespaceBody.after]

/-- Reading at file level takes usings and comes to a state before `zs`. Without statements the
locals are as they were. -/
structure Passes (source : List Char) (zs : List Token) (topLevel : Bool)
    (usings : List UsingDirective) (m : Nat) (t : ParseState) (m' : Nat) (r : ParseState) :
    Prop where
  reads : namespaceBodyWithin source m false true t
    = (NamespaceBody.after usings <$> namespaceBodyWithin source m' false true) r
  closed : r.Closed
  rest : r.rest = zs
  bound : 16 * r.weight + 2 ≤ m'
  locals : topLevel = false → r.locals = t.locals

/-- A round in front. -/
theorem Passes.before {topLevel : Bool} {us vs : List UsingDirective} {m' : Nat} {r : ParseState}
    (h : Passes source zs topLevel vs m v m' r)
    (hround : namespaceBodyWithin source (m + 1) false true t
      = (NamespaceBody.after us <$> namespaceBodyWithin source m false true) v)
    (hlocals : topLevel = false → v.locals = t.locals) :
    Passes source zs topLevel (us ++ vs) (m + 1) t m' r where
  reads := by
    rw [hround, Parse.map_apply, h.reads, Parse.map_apply, Parse.map_apply,
      NamespaceBody.after_append]
    cases namespaceBodyWithin source m' false true r <;> rfl
  closed := h.closed
  rest := h.rest
  bound := h.bound
  locals hplain := (h.locals hplain).trans (hlocals hplain)

theorem Across.weight_add (h : Across M e zs s t) :
    s.weight + Token.listWeight zs = t.weight + Token.listWeight [e] := by
  rcases h with hb | ⟨hs, -, ht⟩
  · exact hb.weight_add
  · rw [ParseState.weight, ParseState.weight, hs, ht, Nat.add_comm]

theorem NamespaceBody.map_after_nil (p : Parse NamespaceBody) :
    NamespaceBody.after [] <$> p = p := by
  rw [NamespaceBody.after_nil, id_map]

theorem Beside.roundKind_eq_semi (hb : Beside M [e] zs .semi s t) (hbrackets : Bracketed s.rest) :
    t.roundKind false = s.roundKind false := by
  obtain ⟨k, hk⟩ := hbrackets.sections
  unfold ParseState.roundKind
  rw [← hb.kind_zero, ← hb.isWord_zero, ← hb.starts_eq hk]
  by_cases hsemi : (s.ahead 0).kind = .semi
  · simp [Token.isWord, hsemi]
  · have hone := M.alike (hb.ahead_one hsemi)
    rw [← Token.isWord_eq_of_alike hone, ← Token.kind_eq_of_alike hone]

/-- The two readers take an entry each, with usings that are alike. -/
theorem across_entry {kind : RoundKind} {topLevel : Bool} {entry : NamespaceBody}
    (hb : Beside M [e] zs .semi s t) (hbrackets : Bracketed s.rest) (hkind : kind ≠ .finish)
    (hat : kind.At false s) (hrun : entryWithin source n topLevel kind s = .ok (entry, w))
    (htypes : entry.types = []) (hspaces : entry.namespaces = []) :
    ∃ us v, entryWithin source m true kind t = .ok ({ usings := us }, v) ∧ Alike entry.usings us
      ∧ Across M e zs w v ∧ (topLevel = false → v.locals = t.locals) := by
  cases kind with
  | finish => exact absurd rfl hkind
  | externAlias =>
    obtain ⟨_, _, hskip, hrun⟩ := bind_eq_ok hrun
    cases hrun
    obtain ⟨v, hskip', hacross⟩ := across_skipDirective hb hskip
    exact ⟨[], v, bind_ok hskip', alike_nil, hacross, fun _ => Aloof.locals_eq hskip'⟩
  | directive =>
    obtain ⟨d, _, hd, hrun⟩ := bind_eq_ok hrun
    cases hrun
    obtain ⟨d', v, hd', halike, hacross⟩ := across_usingDirective hb hat hd
    exact ⟨[d'], v, bind_ok hd', alike_cons.2 ⟨halike, alike_nil⟩, hacross,
      fun _ => Aloof.locals_eq hd'⟩
  | inner =>
    obtain ⟨_, _, -, hrun⟩ := bind_eq_ok hrun
    cases hrun
    cases hspaces
  | semi =>
    have heof := hb.front_ne_eof
    rw [entryWithin, bind_ok (advance_eq heof)] at hrun
    cases hrun
    exact ⟨[], t.drop 1, bind_ok (advance_eq (hb.kind_zero ▸ heof)), alike_nil, hb.take,
      fun _ => t.locals_drop 1⟩
  | type =>
    obtain ⟨d?, _, hd, hrun⟩ := bind_eq_ok hrun
    cases hrun
    cases d? with
    | some d => cases htypes
    | none =>
      obtain ⟨v, hd', hacross⟩ := across_typeDeclaration hb hd
      exact ⟨[], v, bind_ok hd', alike_nil, hacross, fun _ => Aloof.locals_eq hd'⟩
  | other =>
    cases topLevel with
    | false => cases hrun
    | true =>
      obtain ⟨_, _, hskip, hrun⟩ := bind_eq_ok hrun
      cases hrun
      obtain ⟨v, hskip', hacross⟩ := across_skipStatementWithin hb hbrackets s.weight_lt_bound
        t.weight_lt_bound hskip
      have hskip' : skipStatement t = .ok ((), v) := hskip'
      exact ⟨[], v, bind_ok hskip', alike_nil, hacross, fun h => absurd h (by decide)⟩

/-- What is read up to the last semicolon is read in the same way with other tokens behind it: it
takes usings that are alike, and no more than the semicolon. -/
theorem passes_of_across {topLevel : Bool} : ∀ {n m : Nat} {s t : ParseState} {b : NamespaceBody},
    Across M e zs s t → s.Closed → Bracketed s.rest → 16 * s.weight + 2 ≤ n →
    16 * t.weight + 2 ≤ m → namespaceBodyWithin source n false topLevel s = .ok (b, u) →
    b.types = [] → b.namespaces = [] →
    ∃ usings m' r, Alike b.usings usings ∧ Passes source zs topLevel usings m t m' r
  | 0, _, _, _, _, _, _, _, hn, _, _, _, _ => absurd hn (by omega)
  | _ + 1, 0, _, _, _, _, _, _, _, hm, _, _, _ => absurd hm (by omega)
  | n + 1, m + 1, s, t, b, hacross, hs, hbrackets, hn, hm, hrun, htypes, hspaces => by
    have hweight := hacross.weight_add
    rcases hacross with hb | ⟨hrest, ht, hzs⟩
    · have hat := s.at_roundKind false
      rw [namespaceBodyWithin_succ] at hrun
      split at hrun
      next hkind =>
        rw [hkind] at hat
        exact absurd (hat.resolve_right nofun) hb.front_ne_eof
      next hkind =>
      obtain ⟨entry, w, hentry, hrun⟩ := bind_eq_ok hrun
      obtain ⟨more, _, hmore, hrun⟩ := bind_eq_ok hrun
      cases hrun
      obtain ⟨htypes, htypes'⟩ := append_eq_nil_iff.1 htypes
      obtain ⟨hspaces, hspaces'⟩ := append_eq_nil_iff.1 hspaces
      obtain ⟨us, v, hentry', halike, hacross, hlocals⟩ :=
        across_entry (m := m) hb hbrackets hkind hat hentry htypes hspaces
      have hgo : Goes 1 s (.ok ((), w)) := entryWithin_goes hkind hs hat (by omega) hentry
      have hweight' := hacross.weight_add
      have hless := hgo.weight_add_le
      obtain ⟨vs, m', r, halike', hpasses⟩ := passes_of_across (m := m) hacross (hgo.closed hs)
        (hbrackets.after hgo) (by omega) (by omega) hmore htypes' hspaces'
      refine ⟨us ++ vs, m', r, halike.append halike', hpasses.before ?_ hlocals⟩
      rw [namespaceBodyWithin_succ, hb.roundKind_eq_semi hbrackets, if_neg hkind, bind_ok hentry']
      exact congrFun (bind_pure_comp (NamespaceBody.after us) _) v
    · -- only the end is left on the left
      have heof : (s.ahead 0).kind = .eof := by
        rw [ParseState.ahead_zero hrest]
        have hclosed := hs.rest
        rw [hrest] at hclosed
        by_contra hne
        exact ((Token.closed_cons hne).1 hclosed).2
      rw [namespaceBodyWithin_end (.inl heof)] at hrun
      cases hrun
      refine ⟨[], m + 1, t, alike_nil, ?_, ht, hzs, hm, fun _ => rfl⟩
      rw [NamespaceBody.map_after_nil]

end SourceBundle

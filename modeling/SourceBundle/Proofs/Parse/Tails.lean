/-
The last token of an item. A statement at file level is a run of items
up to a semicolon, and no item ends with one: whatever an item holds in
brackets, their end is taken with it.

So a reader of items leaves the statement open (`LeavesOpen`): it takes
nothing, or it takes a last token that is no semicolon. Nothing is asked
of what stands in brackets, since what comes last is their end
(`Shuts`).
-/
import SourceBundle.Proofs.Parse.Relocation

namespace SourceBundle

open List Parse

variable {α β : Type}

-- ===== open

/-- The token taken last is no semicolon. There may be no tokens left at all, but no list that is
closed by an end token comes to that. -/
def ShutAt (s : ParseState) : Prop :=
  s.rest = [] ∨ ∃ x, s.last = some x ∧ x.kind ≠ .semi

/-- Nothing was taken on the way from one state to another, or a last token that is no
semicolon. -/
def StaysOpen (s s' : ParseState) : Prop :=
  (s'.rest = s.rest ∧ s'.last = s.last) ∨ ShutAt s'

/-- A reader leaves the statement that it reads in open. -/
class LeavesOpen (p : Parse α) : Prop where
  run : ∀ {s s' : ParseState} {a : α}, p s = .ok (a, s') → StaysOpen s s'

/-- A reader takes tokens, the last of which is no semicolon. -/
class Shuts (p : Parse α) : Prop where
  run : ∀ {s s' : ParseState} {a : α}, p s = .ok (a, s') → ShutAt s'

/-- A kind of token that may stand inside a statement. -/
class Kind.Inner (k : Kind) : Prop where
  ne_semi : k ≠ .semi
  ne_eof : k ≠ .eof

namespace Kind

instance : Inner .lparen := ⟨nofun, nofun⟩
instance : Inner .rparen := ⟨nofun, nofun⟩
instance : Inner .rbracket := ⟨nofun, nofun⟩
instance : Inner .lbrace := ⟨nofun, nofun⟩
instance : Inner .rbrace := ⟨nofun, nofun⟩
instance : Inner .lt := ⟨nofun, nofun⟩
instance : Inner .gt := ⟨nofun, nofun⟩
instance : Inner .ident := ⟨nofun, nofun⟩
instance : Inner .comma := ⟨nofun, nofun⟩
instance : Inner .doubleColon := ⟨nofun, nofun⟩
instance : Inner .eq := ⟨nofun, nofun⟩

end Kind

theorem StaysOpen.trans {s w s' : ParseState} (h : StaysOpen s w) (h' : StaysOpen w s') :
    StaysOpen s s' := by
  obtain ⟨hrest, hlast⟩ | hshut := h'
  · obtain ⟨hrest', hlast'⟩ | hnone | ⟨x, hx⟩ := h
    · exact .inl ⟨hrest.trans hrest', hlast.trans hlast'⟩
    · exact .inr (.inl (hrest.trans hnone))
    · exact .inr (.inr ⟨x, hlast ▸ hx⟩)
  · exact .inr hshut

theorem StaysOpen.shut {s s' : ParseState} (h : StaysOpen s s') (hs : ShutAt s) : ShutAt s' := by
  obtain ⟨hrest, hlast⟩ | hshut := h
  · rwa [ShutAt, hrest, hlast]
  · exact hshut

/-- Taking tokens leaves the statement open if none of them is a semicolon. -/
theorem staysOpen_drop {s : ParseState} {k : Nat} (h : ∀ x ∈ s.rest.take k, x.kind ≠ .semi) :
    StaysOpen s (s.drop k) := by
  cases k with
  | zero => exact .inl ⟨rfl, rfl⟩
  | succ k =>
    by_cases hk : k < s.rest.length
    · refine .inr (.inr ⟨s.rest[k], s.last_drop_succ hk, h _ ?_⟩)
      rw [mem_take_iff_getElem]
      exact ⟨k, by omega, rfl⟩
    · refine .inr (.inl ?_)
      rw [ParseState.rest_drop]
      exact drop_eq_nil_of_le (by omega)

theorem ParseState.ahead_of_getElem? {s : ParseState} {k : Nat} {x : Token}
    (h : s.rest[k]? = some x) : s.ahead k = x := by
  rw [ParseState.ahead, getD_eq_getElem?_getD, h]
  rfl

/-- Taking tokens up to one that is no semicolon. -/
theorem shutAt_drop {s : ParseState} {k : Nat} (h : (s.ahead k).kind ≠ .semi) :
    ShutAt (s.drop (k + 1)) := by
  by_cases hk : k < s.rest.length
  · refine .inr ⟨s.rest[k], s.last_drop_succ hk, ?_⟩
    rwa [ParseState.ahead_of_getElem? (getElem?_eq_getElem hk)] at h
  · refine .inl ?_
    rw [ParseState.rest_drop]
    exact drop_eq_nil_of_le (by omega)

theorem staysOpen_advance {s w : ParseState} {x : Token} (h : (s.ahead 0).kind ≠ .semi)
    (hrun : advance s = .ok (x, w)) : StaysOpen s w := by
  simp only [advance] at hrun
  split at hrun
  · cases hrun
    exact .inl ⟨rfl, rfl⟩
  · cases hrun
    exact .inr (shutAt_drop h)

-- ===== readers

namespace LeavesOpen

instance of_pure (a : α) : LeavesOpen (pure a) where
  run h := by
    cases h
    exact .inl ⟨rfl, rfl⟩

instance of_bind (p : Parse α) (f : α → Parse β) [hp : LeavesOpen p] [hf : ∀ a, LeavesOpen (f a)] :
    LeavesOpen (p >>= f) where
  run h := by
    obtain ⟨a, w, ha, hb⟩ := bind_eq_ok h
    exact (hp.run ha).trans ((hf a).run hb)

instance (priority := low) of_shuts (p : Parse α) [hp : Shuts p] : LeavesOpen p where
  run h := .inr (hp.run h)

instance of_ite (c : Prop) [Decidable c] (p q : Parse α) [LeavesOpen p] [LeavesOpen q] :
    LeavesOpen (if c then p else q) := by
  split <;> infer_instance

instance of_get : LeavesOpen get where
  run h := by
    cases h
    exact .inl ⟨rfl, rfl⟩

instance of_failAt (fault : ParseFault) (token : Token) :
    LeavesOpen (failAt fault token : Parse α) where
  run h := nomatch h

instance of_newMark (span : Option Span) : LeavesOpen (newMark span) where
  run h := by
    cases h
    exact .inl ⟨rfl, rfl⟩

instance of_recordLocal (l : LocalDecl) : LeavesOpen (recordLocal l) where
  run h := by
    cases h
    exact .inl ⟨rfl, rfl⟩

instance of_updateLocal (i : Nat) (f : LocalDecl → LocalDecl) : LeavesOpen (updateLocal i f) where
  run h := by
    cases h
    exact .inl ⟨rfl, rfl⟩

/-- What is read in a hole takes none of the tokens around it. -/
instance of_withTokens (tokens : List Token) (p : Parse α) : LeavesOpen (withTokens tokens p) where
  run h := by
    obtain ⟨s₀, w, hget, h⟩ := bind_eq_ok h
    cases hget
    obtain ⟨_, w, hset, h⟩ := bind_eq_ok h
    cases hset
    obtain ⟨a, w, ha, h⟩ := bind_eq_ok h
    cases h
    exact .inl ⟨rfl, rfl⟩

-- ----- tokens

variable {k opener closer : Kind} {ks : List Kind} {what : Expected}

instance of_peek : LeavesOpen peek := by unfold peek; infer_instance
instance of_unexpected : LeavesOpen (unexpected what : Parse α) := by
  unfold unexpected; infer_instance
instance of_exhausted : LeavesOpen (exhausted : Parse α) := by unfold exhausted; infer_instance
instance of_check : LeavesOpen (check k) := by unfold check; infer_instance
instance of_checkBefore : LeavesOpen (checkBefore k ks) := by unfold checkBefore; infer_instance
instance of_here : LeavesOpen here := by unfold here; infer_instance
instance of_spanFrom (start : Span) : LeavesOpen (spanFrom start) := by
  unfold spanFrom; infer_instance
instance of_markFrom (start : Span) : LeavesOpen (markFrom start) := by
  unfold markFrom; infer_instance
instance of_declaredName? : LeavesOpen declaredName? := by unfold declaredName?; infer_instance
instance of_localCount : LeavesOpen localCount := by unfold localCount; infer_instance

instance of_accept [hk : k.Inner] : LeavesOpen (accept k) where
  run {s} s' a h := by
    rw [accept_eq hk.ne_eof] at h
    split at h
    next hkind =>
      cases h
      exact .inr (shutAt_drop (hkind ▸ hk.ne_semi))
    next =>
      cases h
      exact .inl ⟨rfl, rfl⟩

theorem of_takeUntil (hks : .semi ∈ ks) : LeavesOpen (takeUntil ks) where
  run {s} s' a h := by
    cases h
    refine staysOpen_drop fun x hx hsemi => ?_
    rw [← prefix_iff_eq_take.1 (List.takeWhile_prefix _)] at hx
    have hkind := all_eq_true.1 all_takeWhile x hx
    rw [hsemi, contains_iff_mem.2 hks] at hkind
    cases hkind

instance of_skipCommas : LeavesOpen skipCommas where
  run {s} s' a h := by
    cases h
    refine staysOpen_drop fun x hx hsemi => ?_
    rw [← prefix_iff_eq_take.1 (List.takeWhile_prefix _)] at hx
    have hkind := all_eq_true.1 all_takeWhile x hx
    rw [hsemi] at hkind
    cases hkind

end LeavesOpen

namespace Shuts

variable {k opener closer : Kind} {what : Expected}

/-- Whatever was read, its end comes last. -/
instance (priority := low) of_last (p : Parse α) (f : α → Parse β) [hf : ∀ a, Shuts (f a)] :
    Shuts (p >>= f) where
  run h := by
    obtain ⟨a, w, -, hb⟩ := bind_eq_ok h
    exact (hf a).run hb

instance of_bind (p : Parse α) (f : α → Parse β) [hp : Shuts p] [hf : ∀ a, LeavesOpen (f a)] :
    Shuts (p >>= f) where
  run h := by
    obtain ⟨a, w, ha, hb⟩ := bind_eq_ok h
    exact ((hf a).run hb).shut (hp.run ha)

instance of_expect [hk : k.Inner] : Shuts (expect k what) where
  run {s} s' a h := by
    rw [expect_eq hk.ne_eof] at h
    split at h
    next hkind =>
      cases h
      exact shutAt_drop (hkind ▸ hk.ne_semi)
    next => cases h

end Shuts

-- ===== brackets

instance leavesOpen_skipBalanced {opener closer : Kind} [hk : closer.Inner] :
    LeavesOpen (skipBalanced opener closer) where
  run {s} s' a h := by
    obtain ⟨s₀, w, hget, h⟩ := bind_eq_ok h
    cases hget
    generalize hlength : balancedLength? opener closer 0 s.rest = length at h
    cases length with
    | none => cases h
    | some k =>
      obtain ⟨i, x, rfl, hx, hkind, -⟩ := balancedLength?_last hlength
      cases h
      exact .inr (shutAt_drop (by rw [ParseState.ahead_of_getElem? hx, hkind]; exact hk.ne_semi))

instance leavesOpen_skipSections : LeavesOpen skipSections where
  run {s} s' a h := by
    rw [skipSections_eq] at h
    generalize hlength : sectionsLength? 0 s.rest = length at h
    cases length with
    | none => cases h
    | some k =>
      cases h
      obtain ⟨rfl, -⟩ | ⟨i, x, rfl, hx, hkind⟩ := sectionsLength?_last hlength
      · exact .inl ⟨rfl, rfl⟩
      · exact .inr (shutAt_drop (by rw [ParseState.ahead_of_getElem? hx, hkind]; decide))

instance leavesOpen_skipGroup {opener closer : Kind} [closer.Inner] :
    LeavesOpen (skipGroup opener closer) := by
  unfold skipGroup; infer_instance

-- ===== types

section

variable {k : Kind} {p : Parse (List α)} [LeavesOpen p]

instance leavesOpen_whenNext : LeavesOpen (whenNext k p) := by unfold whenNext; infer_instance

end

instance leavesOpen_unboundOr {p : Parse (List TypeRef)} [LeavesOpen p] :
    LeavesOpen (unboundOr p) := by
  unfold unboundOr; infer_instance

instance leavesOpen_qualifiedName (tok : Token) : LeavesOpen (qualifiedName tok) := by
  unfold qualifiedName; infer_instance

/-- A token that is no semicolon is taken, and then the statement stays open. -/
theorem staysOpen_advance_bind {s s' : ParseState} {a : α} {f : Token → Parse α}
    [hf : ∀ x, LeavesOpen (f x)] (h : (s.ahead 0).kind ≠ .semi)
    (hrun : (advance >>= f) s = .ok (a, s')) : StaysOpen s s' := by
  obtain ⟨x, w, hadvance, hrun⟩ := bind_eq_ok hrun
  exact (staysOpen_advance h hadvance).trans ((hf x).run hrun)

instance leavesOpen_typeHead {tuple arguments : Parse (List TypeRef)}
    {dotted : TypeRef → Parse TypeRef} [LeavesOpen arguments] [∀ t, LeavesOpen (dotted t)] :
    LeavesOpen (typeHead tuple arguments dotted) where
  run {s} s' a h := by
    obtain ⟨tok, w, hpeek, h⟩ := bind_eq_ok h
    cases hpeek
    generalize hkind : (s.ahead 0).kind = kind at h
    split at h
    · exact LeavesOpen.run h
    · exact staysOpen_advance_bind (by rw [hkind]; decide) h
    · exact staysOpen_advance_bind (by rw [hkind]; decide) h
    · exact LeavesOpen.run h

/-- The readers of types leave a statement open. -/
structure TypesLeaveOpen (n : Nat) : Prop where
  type : ∀ a, LeavesOpen (typeWithin n a)
  dotted : ∀ t, LeavesOpen (dottedWithin n t)
  suffixes : ∀ a t, LeavesOpen (suffixesWithin n a t)
  tuple : LeavesOpen (tupleWithin n)
  arguments : LeavesOpen (argumentsWithin n)
  types : LeavesOpen (typesWithin n)

/-- A choice that rests on a look at the next token. -/
theorem LeavesOpen.of_checked {k : Kind} {g : Bool → Bool} {p q : Parse α} (hg : g false = false)
    (hq : LeavesOpen q) (hp : ∀ {s s' : ParseState} {a : α}, (s.ahead 0).kind = k →
      p s = .ok (a, s') → StaysOpen s s') :
    LeavesOpen (check k >>= fun b => if g b = true then p else q) where
  run {s} s' a h := by
    obtain ⟨isNext, w, hcheck, h⟩ := bind_eq_ok h
    cases hcheck
    split at h
    next hnext =>
      refine hp (Decidable.byContradiction fun hkind => ?_) h
      rw [decide_eq_false hkind, hg] at hnext
      cases hnext
    next => exact hq.run h

namespace TypesLeaveOpen

variable {n : Nat} (h : TypesLeaveOpen n)
include h

theorem dotted_succ (t : TypeRef) : LeavesOpen (dottedWithin (n + 1) t) where
  run {s} s' a hrun := by
    have := h.arguments; have := h.dotted
    unfold dottedWithin at hrun
    obtain ⟨goesOn, w, hcheck, hrun⟩ := bind_eq_ok hrun
    cases hcheck
    split at hrun
    next hkinds =>
      simp only [Bool.and_eq_true, decide_eq_true_eq, contains_iff_mem,
        mem_singleton] at hkinds
      obtain ⟨hdot, hident⟩ := hkinds
      rw [bind_ok (advance_eq (by rw [hdot]; decide))] at hrun
      refine StaysOpen.trans (.inr (shutAt_drop (by rw [hdot]; decide)))
        (staysOpen_advance_bind ?_ hrun)
      rw [ParseState.ahead_drop_one, hident]
      decide
    next =>
      cases hrun
      exact .inl ⟨rfl, rfl⟩

theorem suffixes_succ (allowArray : Bool) (t : TypeRef) :
    LeavesOpen (suffixesWithin (n + 1) allowArray t) := by
  have := h.suffixes
  unfold suffixesWithin
  refine .of_checked (g := fun b => b && !t.nullable && decide (t.rank = 0)) rfl
    (.of_checked (g := id) rfl inferInstance ?_) ?_
  · exact fun hkind hrun => staysOpen_advance_bind (by rw [hkind]; decide) hrun
  · exact fun hkind hrun => staysOpen_advance_bind (by rw [hkind]; decide) hrun

end TypesLeaveOpen

theorem typesLeaveOpen : ∀ n, TypesLeaveOpen n
  | 0 => ⟨fun _ => .of_exhausted, fun _ => .of_exhausted, fun _ _ => .of_exhausted, .of_exhausted,
      .of_exhausted, .of_exhausted⟩
  | n + 1 => by
    have h := typesLeaveOpen n
    have := h.type; have := h.dotted; have := h.suffixes; have := h.tuple
    have := h.arguments; have := h.types
    constructor
    · intro a; unfold typeWithin; infer_instance
    · exact h.dotted_succ
    · exact h.suffixes_succ
    · unfold tupleWithin; infer_instance
    · unfold argumentsWithin; infer_instance
    · unfold typesWithin; infer_instance

instance leavesOpen_typeRef (a : Bool) : LeavesOpen (typeRef a) := by
  have := fun n => (typesLeaveOpen n).type a
  unfold typeRef; infer_instance

instance leavesOpen_typeArgsInExpr : LeavesOpen typeArgsInExpr where
  run {s} s' a h := by
    unfold typeArgsInExpr at h
    split at h
    · cases h
      exact .inl ⟨rfl, rfl⟩
    next args w harguments =>
      split at h
      · cases h
        exact (typesLeaveOpen _).arguments.run harguments
      · cases h
        exact .inl ⟨rfl, rfl⟩

-- ===== bodies

instance shuts_block (n : Nat) : Shuts (blockWithin n) := by
  cases n with
  | zero => exact ⟨nofun⟩
  | succ n => unfold blockWithin; infer_instance

instance shuts_group (n : Nat) (opener closer : Kind) [closer.Inner] (what : Expected) :
    Shuts (groupWithin n opener closer what) := by
  cases n with
  | zero => exact ⟨nofun⟩
  | succ n => unfold groupWithin; infer_instance

instance shuts_argumentList (n : Nat) (closer : Kind) [closer.Inner] :
    Shuts (argumentListWithin n closer) := by
  cases n with
  | zero => exact ⟨nofun⟩
  | succ n => unfold argumentListWithin; infer_instance

instance leavesOpen_initializer (n : Nat) : LeavesOpen (initializerWithin n) := by
  cases n with
  | zero => exact ⟨nofun⟩
  | succ n => unfold initializerWithin; infer_instance

instance leavesOpen_creation (n : Nat) (start : Span) : LeavesOpen (creationWithin n start) := by
  cases n with
  | zero => exact ⟨nofun⟩
  | succ n =>
    unfold creationWithin
    refine @LeavesOpen.of_bind _ _ _ _ _ fun _ => @LeavesOpen.of_ite _ _ _ _ _ _ ?_
    refine @LeavesOpen.of_bind _ _ _ _ _ fun _ => @LeavesOpen.of_ite _ _ _ _ _ _ ?_
    refine @LeavesOpen.of_bind _ _ _ _ _ fun _ => @LeavesOpen.of_ite _ _ _ _ _ _ ?_
    refine @LeavesOpen.of_bind _ _ _ _ _ fun type => ?_
    refine @LeavesOpen.of_bind _ _ _ _ _ fun _ => @LeavesOpen.of_ite _ _ _ _ _ _ ?_
    infer_instance

/-- Holes take none of the tokens around them. -/
theorem leavesOpen_holes : ∀ (n : Nat) (holes : List (List Token)), LeavesOpen (holesWithin n holes)
  | _, [] => by unfold holesWithin; infer_instance
  | 0, _ :: _ => ⟨nofun⟩
  | n + 1, hole :: holes => by
    have := leavesOpen_holes n
    unfold holesWithin
    refine @LeavesOpen.of_bind _ _ _ _ _ fun es => ?_
    split <;> infer_instance

/-- A token is taken, which is no semicolon if what follows goes well. -/
theorem LeavesOpen.of_advance {f : Token → Parse α} (hf : ∀ x, LeavesOpen (f x))
    (hsemi : ∀ x w, x.kind = .semi → ∃ e, f x w = .error e) : LeavesOpen (advance >>= f) where
  run {s} s' a h := by
    by_cases hkind : (s.ahead 0).kind = .semi
    · obtain ⟨e, he⟩ := hsemi (s.ahead 0) (s.drop 1) hkind
      rw [bind_ok (advance_eq (by rw [hkind]; decide)), he] at h
      cases h
    · exact staysOpen_advance_bind hkind h

instance leavesOpen_head (n : Nat) : LeavesOpen (headWithin n) := by
  have := leavesOpen_holes
  cases n with
  | zero => exact ⟨nofun⟩
  | succ n =>
    unfold headWithin
    refine @LeavesOpen.of_bind _ _ _ _ _ fun start =>
      .of_advance (fun tok => ?_) fun tok w hkind => ?_
    · split
      case h_11 =>
        split <;> infer_instance
      all_goals infer_instance
    · rw [hkind]
      exact ⟨_, rfl⟩

theorem ofKinds_ne_none {kind next after : Kind} (h : Link.ofKinds kind next after ≠ .none) :
    kind ≠ .semi ∧ kind ≠ .eof := by
  constructor
  · rintro rfl
    exact h (ofKinds_of_isBarrier rfl next after)
  · rintro rfl
    exact h (ofKinds_of_isBarrier rfl next after)

theorem ofKinds_access_next {kind next after : Kind} {conditional : Bool}
    (h : Link.ofKinds kind next after = .access conditional) : next ≠ .semi := by
  rintro rfl
  unfold Link.ofKinds at h
  simp only [reduceCtorEq, decide_false, Bool.or_self, Bool.and_false, Bool.false_and,
    Bool.false_eq_true, if_false] at h
  split at h
  · cases h
  · split at h <;> cases h

theorem leavesOpen_chain : ∀ (n : Nat) (e : Expr) (start : Span), LeavesOpen (chainWithin n e start)
  | 0, _, _ => ⟨nofun⟩
  | n + 1, e, start => by
    have := leavesOpen_chain n
    refine ⟨fun {s s' a} h => ?_⟩
    unfold chainWithin at h
    obtain ⟨link, w, hnext, h⟩ := bind_eq_ok h
    cases hnext
    generalize hlink : Link.ofKinds (s.ahead 0).kind (s.ahead 1).kind (s.ahead 2).kind = link at h
    have hkind : link ≠ .none → (s.ahead 0).kind ≠ .semi ∧ (s.ahead 0).kind ≠ .eof :=
      fun hne => ofKinds_ne_none (hlink ▸ hne)
    cases link with
    | access conditional =>
      obtain ⟨hsemi, heof⟩ := hkind (by simp)
      dsimp only at h
      rw [bind_ok (advance_eq heof)] at h
      refine StaysOpen.trans (.inr (shutAt_drop hsemi)) (staysOpen_advance_bind ?_ h)
      rw [ParseState.ahead_drop_one]
      exact ofKinds_access_next hlink
    | call => exact LeavesOpen.run h
    | element => exact LeavesOpen.run h
    | mark => exact staysOpen_advance_bind (hkind (by simp)).1 h
    | none =>
      cases h
      exact .inl ⟨rfl, rfl⟩

instance leavesOpen_recordCollection (declared : Nat) (source : List Expr) :
    LeavesOpen (recordCollection declared source) := by
  unfold recordCollection
  refine @LeavesOpen.of_bind _ _ _ _ _ fun count => @LeavesOpen.of_ite _ _ _ _ _ ?_ _
  refine @LeavesOpen.of_bind _ _ _ _ ?_ fun e => ?_
  · unfold collectionOf
    split <;> infer_instance
  · split <;> infer_instance

theorem staysOpen_foreach {n : Nat} {s s' : ParseState} {o : Option Expr}
    (h : (s.ahead 0).kind ≠ .semi) (hrun : foreachWithin n s = .ok (o, s')) : StaysOpen s s' := by
  cases n with
  | zero => cases hrun
  | succ n =>
    unfold foreachWithin at hrun
    obtain ⟨start, w, hstart, hrun⟩ := bind_eq_ok hrun
    cases hstart
    refine @staysOpen_advance_bind _ _ _ _ _ (fun word => ?_) h hrun
    refine @LeavesOpen.of_bind _ _ _ _ _ fun isOpen => @LeavesOpen.of_ite _ _ _ _ _ _ ?_
    refine @LeavesOpen.of_bind _ _ _ _ _ fun declared => ?_
    refine @LeavesOpen.of_shuts _ _ (@Shuts.of_last _ _ _ _ fun header => ?_)
    exact @Shuts.of_last _ _ _ _ fun source => inferInstance

/-- An item that starts with no semicolon ends with none. -/
theorem staysOpen_item {n : Nat} {s s' : ParseState} {o : Option Expr}
    (h : (s.ahead 0).kind ≠ .semi) (hrun : itemWithin n s = .ok (o, s')) : StaysOpen s s' := by
  have := leavesOpen_chain
  cases n with
  | zero => cases hrun
  | succ n =>
    unfold itemWithin at hrun
    obtain ⟨start, w, hstart, hrun⟩ := bind_eq_ok hrun
    cases hstart
    obtain ⟨tok, w, hpeek, hrun⟩ := bind_eq_ok hrun
    cases hpeek
    dsimp only at hrun
    split at hrun
    · exact LeavesOpen.run hrun
    split at hrun
    · exact LeavesOpen.run hrun
    split at hrun
    · exact LeavesOpen.run hrun
    split at hrun
    · exact staysOpen_foreach h hrun
    split at hrun
    · exact LeavesOpen.run hrun
    · exact staysOpen_advance_bind h hrun

/-- The name of a local is an identifier, with a question mark before it if its type is
nullable. -/
theorem staysOpen_declared {s w : ParseState} {name : Token} {nullable : Bool}
    (h : declaredName? s = .ok (some (name, nullable), w)) :
    w = s ∧ StaysOpen s (s.drop (if nullable then 2 else 1)) := by
  obtain ⟨s₀, w', hget, h⟩ := bind_eq_ok h
  cases hget
  split at h
  next hident =>
    split at h
    · cases h
      exact ⟨rfl, .inr (shutAt_drop (by rw [hident]; decide))⟩
    · cases h
  next =>
    split at h
    next hkinds =>
      rw [Bool.and_eq_true, decide_eq_true_eq, decide_eq_true_eq] at hkinds
      split at h
      · cases h
        exact ⟨rfl, .inr (shutAt_drop (by rw [hkinds.2]; decide))⟩
      · cases h
    next => cases h

instance leavesOpen_local (n : Nat) (e : Expr) : LeavesOpen (localWithin n e) where
  run {s} s' a hrun := by
    cases n with
    | zero => cases hrun
    | succ n =>
      unfold localWithin at hrun
      obtain ⟨declared, w, hdeclared, h⟩ := bind_eq_ok hrun
      generalize e.asType? = type at h
      cases type with
      | none =>
        cases h
        exact LeavesOpen.run hdeclared
      | some type =>
        cases declared with
        | none =>
          cases h
          exact LeavesOpen.run hdeclared
        | some declared =>
          obtain ⟨name, nullable⟩ := declared
          obtain ⟨hw, hname⟩ := staysOpen_declared hdeclared
          subst w
          obtain ⟨_, w, hskip, h⟩ := bind_eq_ok h
          cases hskip
          refine hname.trans ?_
          obtain ⟨i, w, hrecord, h⟩ := bind_eq_ok h
          refine (LeavesOpen.run hrecord).trans ?_
          obtain ⟨hasInit, w', haccept, h⟩ := bind_eq_ok h
          refine (LeavesOpen.run haccept).trans ?_
          cases hasInit with
          | false =>
            cases h
            exact .inl ⟨rfl, rfl⟩
          | true =>
            obtain ⟨tok, w'', hpeek, h⟩ := bind_eq_ok h
            cases hpeek
            dsimp only at h
            split at h
            · cases h
              exact .inl ⟨rfl, rfl⟩
            next hkind =>
              obtain ⟨init, w'', hitem, h⟩ := bind_eq_ok h
              cases h
              have hsemi : (w'.ahead 0).kind ≠ .semi := fun hsemi => by
                rw [hsemi] at hkind
                exact hkind rfl
              have hopen : StaysOpen w' w'' := staysOpen_item hsemi hitem
              exact hopen

/-- What is passed over as an item of a statement does not end the statement. -/
theorem staysOpen_skipItem {s s' : ParseState} (h : (s.ahead 0).kind ≠ .semi)
    (hrun : skipItem s = .ok ((), s')) : StaysOpen s s' := by
  obtain ⟨o, w, hitem, hrun⟩ := bind_eq_ok hrun
  have hopen := staysOpen_item h hitem
  cases o with
  | none =>
    cases hrun
    exact hopen
  | some e =>
    obtain ⟨_, w', hlocal, hrun⟩ := bind_eq_ok hrun
    cases hrun
    exact hopen.trans ((leavesOpen_local w.bound e).run hlocal)

end SourceBundle

/-
Plain readers: those that make no expressions and declare no locals.
Most readers are plain, and that one is plain is found from the readers
that it is put together from.
-/
import SourceBundle.Proofs.Parse.Relocation

namespace SourceBundle

open Parse

variable {α β : Type}

/-- The state with other locals and another number for the next expression. -/
def ParseState.withMade (s : ParseState) (locals : Array LocalDecl) (nextNode : Nat) : ParseState :=
  { s with locals, nextNode }

theorem ParseState.withMade_drop (s : ParseState) (locals : Array LocalDecl) (node k : Nat) :
    (s.withMade locals node).drop k = (s.drop k).withMade locals node := by
  cases k <;> rfl

/-- A reader makes no expressions and declares no locals, and what it reads does not depend on
them. -/
class Plain (p : Parse α) : Prop where
  run : ∀ (s : ParseState) (locals : Array LocalDecl) (node : Nat),
    p (s.withMade locals node) = (p s).map fun x => (x.1, x.2.withMade locals node)

namespace Plain

theorem kept {p : Parse α} [hp : Plain p] {s s' : ParseState} {a : α} (h : p s = .ok (a, s')) :
    s'.locals = s.locals ∧ s'.nextNode = s.nextNode := by
  have hsame : p s = (p s).map fun x => (x.1, x.2.withMade s.locals s.nextNode) :=
    hp.run s s.locals s.nextNode
  rw [h] at hsame
  injection hsame with hpair
  exact ⟨congrArg (fun x => x.2.locals) hpair, congrArg (fun x => x.2.nextNode) hpair⟩

instance of_pure (a : α) : Plain (pure a) where
  run _ _ _ := rfl

instance of_bind (p : Parse α) (f : α → Parse β) [hp : Plain p] [hf : ∀ a, Plain (f a)] :
    Plain (p >>= f) where
  run s locals node := by
    have hmade := hp.run s locals node
    cases hrun : p s with
    | error e =>
      rw [hrun] at hmade
      rw [bind_error hmade, bind_error hrun]
      rfl
    | ok x =>
      rw [hrun] at hmade
      rw [bind_ok hmade, bind_ok hrun]
      exact (hf x.1).run x.2 locals node

instance of_ite (c : Prop) [Decidable c] (p q : Parse α) [Plain p] [Plain q] :
    Plain (if c then p else q) := by
  split <;> infer_instance

instance of_dite (c : Prop) [Decidable c] (p : c → Parse α) (q : ¬c → Parse α)
    [∀ h, Plain (p h)] [∀ h, Plain (q h)] : Plain (if h : c then p h else q h) := by
  split <;> infer_instance

instance of_failAt (fault : ParseFault) (token : Token) : Plain (failAt fault token : Parse α) where
  run _ _ _ := rfl

/-- A look at the state that sees neither the locals nor the next number. -/
theorem of_look {f : ParseState → Parse α} [hf : ∀ s, Plain (f s)]
    (h : ∀ s locals node, f (s.withMade locals node) = f s) : Plain (get >>= f) where
  run s locals node := by
    show f (s.withMade locals node) (s.withMade locals node) = (f s s).map _
    rw [h]
    exact (hf s).run s locals node

-- ----- tokens

variable {k opener closer : Kind} {ks : List Kind} {what : Expected}

instance of_skip (n : Nat) : Plain (skip n) where
  run s locals node := congrArg (fun w => Except.ok ((), w)) (s.withMade_drop locals node n)

instance of_advance : Plain advance where
  run s locals node := by
    show (if (s.ahead 0).kind = .eof then Except.ok (s.ahead 0, s.withMade locals node)
      else .ok (s.ahead 0, (s.withMade locals node).drop 1)) = (advance s).map _
    rw [advance]
    split <;> rfl

instance of_takeUntil : Plain (takeUntil ks) where
  run s locals node := congrArg (fun w => Except.ok (_, w)) (s.withMade_drop locals node _)

instance of_peek : Plain peek := of_look fun _ _ _ => rfl
instance of_unexpected : Plain (unexpected what : Parse α) := by unfold unexpected; infer_instance
instance of_exhausted : Plain (exhausted : Parse α) := by unfold exhausted; infer_instance
instance of_atEnd : Plain atEnd := by unfold atEnd; infer_instance
instance of_check : Plain (check k) := by unfold check; infer_instance
instance of_checkBefore : Plain (checkBefore k ks) := of_look fun _ _ _ => rfl
instance of_checkWord (word : String) : Plain (checkWord word) := by
  unfold checkWord; infer_instance
instance of_accept : Plain (accept k) := by unfold accept; infer_instance
instance of_acceptWord (word : String) : Plain (acceptWord word) := by
  unfold acceptWord; infer_instance
instance of_expect : Plain (expect k what) := by unfold expect; infer_instance
instance of_expectName : Plain (expectName what) := by unfold expectName; infer_instance
instance of_here : Plain here := by unfold here; infer_instance
instance of_spanFrom (start : Span) : Plain (spanFrom start) := of_look fun _ _ _ => rfl

section

variable {p : Parse (List α)} [Plain p]

instance of_whenNext : Plain (whenNext k p) := by unfold whenNext; infer_instance

end

instance of_skipBalanced : Plain (skipBalanced opener closer) := by
  refine @of_look _ _ (fun s => ?_) fun _ _ _ => rfl
  split <;> infer_instance

instance of_skipGroup : Plain (skipGroup opener closer) := by unfold skipGroup; infer_instance

instance of_skipSections : Plain skipSections := by
  refine @of_look _ _ (fun s => ?_) fun _ _ _ => rfl
  split <;> infer_instance

instance of_skipCommas : Plain skipCommas := of_look fun _ _ _ => rfl

-- ----- types

instance of_qualifiedName (tok : Token) : Plain (qualifiedName tok) := by
  unfold qualifiedName; infer_instance

instance of_unboundOr {p : Parse (List TypeRef)} [Plain p] : Plain (unboundOr p) := by
  unfold unboundOr; infer_instance

instance of_typeHead {tuple arguments : Parse (List TypeRef)} {dotted : TypeRef → Parse TypeRef}
    [Plain tuple] [Plain arguments] [∀ t, Plain (dotted t)] :
    Plain (typeHead tuple arguments dotted) := by
  unfold typeHead
  refine @of_bind _ _ _ _ _ fun tok => ?_
  split <;> infer_instance

/-- The readers of types are plain. -/
structure Types (n : Nat) : Prop where
  type : ∀ a, Plain (typeWithin n a)
  dotted : ∀ t, Plain (dottedWithin n t)
  suffixes : ∀ a t, Plain (suffixesWithin n a t)
  tuple : Plain (tupleWithin n)
  arguments : Plain (argumentsWithin n)
  types : Plain (typesWithin n)

theorem types : ∀ n, Types n
  | 0 => ⟨fun _ => of_exhausted, fun _ => of_exhausted, fun _ _ => of_exhausted, of_exhausted,
      of_exhausted, of_exhausted⟩
  | n + 1 => by
    have ⟨_, _, _, _, _, _⟩ := types n
    constructor
    · intro a; unfold typeWithin; infer_instance
    · intro t; unfold dottedWithin; infer_instance
    · intro a t
      unfold suffixesWithin
      refine @of_bind _ _ _ _ _ fun isNullable => ?_
      split <;> infer_instance
    · unfold tupleWithin; infer_instance
    · unfold argumentsWithin; infer_instance
    · unfold typesWithin; infer_instance

instance of_typeRef (a : Bool) : Plain (typeRef a) := by
  have := fun n => (types n).type a
  exact of_look fun _ _ _ => rfl

instance of_types : Plain Parse.types := by
  have := fun n => (types n).types
  exact of_look fun _ _ _ => rfl

instance of_typeArgsInExpr : Plain typeArgsInExpr where
  run s locals node := by
    have harguments := (types s.bound).arguments.run s locals node
    unfold typeArgsInExpr
    rw [show (s.withMade locals node).bound = s.bound from rfl, harguments]
    cases argumentsWithin s.bound s with
    | error e => rfl
    | ok x =>
      show (if mayFollowTypeArgs (x.2.ahead 0).kind then _ else _)
        = Except.map _ (if _ then _ else _)
      split <;> rfl

-- ----- declarations

instance of_declaredName? : Plain declaredName? := of_look fun _ _ _ => rfl
instance of_skipArgumentName : Plain skipArgumentName := by unfold skipArgumentName; infer_instance
instance of_skipArgumentModifiers : Plain skipArgumentModifiers := of_look fun _ _ _ => rfl
instance of_nextLink : Plain nextLink := of_look fun _ _ _ => rfl
instance of_modifiers : Plain modifiers := of_look fun _ _ _ => rfl
instance of_parameterModifier : Plain parameterModifier := of_look fun _ _ _ => rfl
instance of_skipVariance : Plain skipVariance := by unfold skipVariance; infer_instance

theorem of_typeParamsWithin : ∀ n, Plain (typeParamsWithin n)
  | 0 => of_exhausted
  | n + 1 => by
    have := of_typeParamsWithin n
    unfold typeParamsWithin; infer_instance

instance of_typeParamList : Plain typeParamList := by
  have := of_typeParamsWithin
  have : Plain typeParamNames := of_look fun _ _ _ => rfl
  unfold typeParamList; infer_instance

theorem of_skipConstraintWithin : ∀ n, Plain (skipConstraintWithin n)
  | 0 => of_exhausted
  | n + 1 => by
    have := of_skipConstraintWithin n
    unfold skipConstraintWithin skipTokenOrGroup; infer_instance

instance of_skipConstraints : Plain skipConstraints := by
  have := of_skipConstraintWithin
  have : Plain skipConstraint := of_look fun _ _ _ => rfl
  unfold skipConstraints; infer_instance

theorem of_memberNameWithin : ∀ (n : Nat) (name : String), Plain (memberNameWithin n name)
  | 0, _ => of_exhausted
  | n + 1, _ => by
    have := of_memberNameWithin n
    unfold memberNameWithin; infer_instance

instance of_memberName (first : String) : Plain (memberName first) := by
  have := of_memberNameWithin
  exact of_look fun _ _ _ => rfl

instance of_startsConstructor (name : String) : Plain (startsConstructor name) :=
  of_look fun _ _ _ => rfl

instance of_typeKeyword : Plain typeKeyword := by
  unfold typeKeyword
  refine @of_bind _ _ _ _ _ fun tok => ?_
  split <;> infer_instance

instance of_atTypeKeyword : Plain atTypeKeyword := of_look fun _ _ _ => rfl
instance of_skipDelegate : Plain skipDelegate := by unfold skipDelegate; infer_instance
instance of_usingDirective : Plain usingDirective := by
  unfold usingDirective usingAlias; infer_instance

theorem of_namePartsWithin : ∀ n, Plain (namePartsWithin n)
  | 0 => of_exhausted
  | n + 1 => by
    have := of_namePartsWithin n
    unfold namePartsWithin; infer_instance

instance of_namespaceName : Plain namespaceName := by
  have := of_namePartsWithin
  have : Plain nameParts := of_look fun _ _ _ => rfl
  unfold namespaceName; infer_instance

instance of_skipDirective : Plain skipDirective := by unfold skipDirective; infer_instance

end Plain

end SourceBundle

/-
Readers that have nothing to do with locals (`Aloof`). What stands at
file level or in a namespace, statements apart, is read in the same way
whatever locals were declared before: type declarations are read apart,
and no other reader looks at locals.
-/
import SourceBundle.Proofs.Parse.Files
import SourceBundle.Proofs.Parse.Plain

namespace SourceBundle

open Parse

variable {α β : Type}

/-- The state with other locals. -/
def ParseState.withLocals (s : ParseState) (locals : Array LocalDecl) : ParseState :=
  { s with locals }

/-- What is read does not depend on the locals, and they stay as they are. -/
class Aloof (p : Parse α) : Prop where
  run : ∀ (s : ParseState) (locals : Array LocalDecl),
    p (s.withLocals locals) = (p s).map fun x => (x.1, x.2.withLocals locals)

namespace Aloof

theorem locals_eq {p : Parse α} [hp : Aloof p] {s w : ParseState} {a : α} (h : p s = .ok (a, w)) :
    w.locals = s.locals := by
  have hsame : p s = (p s).map fun x => (x.1, x.2.withLocals s.locals) := hp.run s s.locals
  rw [h] at hsame
  injection hsame with hpair
  exact congrArg (fun x => x.2.locals) hpair

instance of_bind (p : Parse α) (f : α → Parse β) [hp : Aloof p] [hf : ∀ a, Aloof (f a)] :
    Aloof (p >>= f) where
  run s locals := by
    have hlocals := hp.run s locals
    cases hrun : p s with
    | error e =>
      rw [hrun] at hlocals
      rw [bind_error hlocals, bind_error hrun]
      rfl
    | ok x =>
      rw [hrun] at hlocals
      rw [bind_ok hlocals, bind_ok hrun]
      exact (hf x.1).run x.2 locals

instance of_ite (c : Prop) [Decidable c] (p q : Parse α) [Aloof p] [Aloof q] :
    Aloof (if c then p else q) := by
  split <;> infer_instance

/-- A plain reader declares no locals. -/
instance (priority := low) of_plain (p : Parse α) [hp : Plain p] : Aloof p where
  run s locals := by
    have hmade := hp.run s locals s.nextNode
    cases hrun : p s with
    | error e =>
      rw [hrun] at hmade
      exact hmade
    | ok x =>
      rw [hrun] at hmade
      have hnode := (Plain.kept hrun).2.symm
      exact hmade.trans (congrArg (fun n => Except.ok (x.1, x.2.withMade locals n)) hnode)

/-- A look at the state that does not see the locals. -/
theorem of_look {f : ParseState → Parse α} [hf : ∀ s, Aloof (f s)]
    (h : ∀ s locals, f (s.withLocals locals) = f s) : Aloof (get >>= f) where
  run s locals := by
    show f (s.withLocals locals) (s.withLocals locals) = (f s s).map _
    rw [h]
    exact (hf s).run s locals

variable {source : List Char}

instance of_typeDeclaration : Aloof (typeDeclaration source) where
  run s locals := by
    rw [typeDeclaration_eq, typeDeclaration_eq]
    show typeDeclarationWithin source s.bound _ = _
    obtain ⟨n, hn⟩ : ∃ n, s.bound = n + 1 := ⟨s.bound - 1, by have := s.weight_lt_bound; omega⟩
    rw [hn, typeDeclarationWithin_succ, typeDeclarationWithin_succ]
    show (typeFrom source (stopOf s.last) (typeBodyWithin source n) { s with locals := #[] }).map _
      = _
    generalize typeFrom source (stopOf s.last) (typeBodyWithin source n)
      { s with locals := #[] } = x
    cases x <;> rfl

/-- The readers of namespaces have nothing to do with locals. -/
structure Namespaces (source : List Char) (n : Nat) : Prop where
  body : ∀ braced, Aloof (namespaceBodyWithin source n braced false)
  declaration : Aloof (namespaceWithin source n)

theorem namespaces (source : List Char) : ∀ n, Namespaces source n
  | 0 => ⟨fun _ => of_plain exhausted, of_plain exhausted⟩
  | n + 1 => by
    have ⟨_, _⟩ := namespaces source n
    constructor
    · intro braced
      rw [namespaceBodyWithin]
      refine @of_look _ _ (fun s => ?_) fun _ _ => rfl
      dsimp only
      rw [if_neg Bool.false_ne_true]
      infer_instance
    · rw [namespaceWithin]
      refine @of_bind _ _ _ _ _ fun start => ?_
      refine @of_bind _ _ _ _ _ fun _ => @of_bind _ _ _ _ _ fun name => ?_
      refine @of_bind _ _ _ _ _ fun isFileScoped => @of_bind _ _ _ _ ?_ fun body => inferInstance
      unfold namespaceContent bracedNamespace
      infer_instance

end Aloof

end SourceBundle

/-
Questions about the hierarchy and what they remember. Of each name that
was asked about it is remembered whether the part that was asked about
first reaches outside by its keyword. If the parts of each name agree in
this (`Uniform`), the memory says of every part what the part itself
says (`Right`), and no answer depends on what was asked before: each
question is `Steady`. One that passes over the memory is so anyway, and
the others come down to `reachesOutside`.
-/
import SourceBundle.Proofs.Binding.Ancestry

namespace SourceBundle

-- ===== memory

/-- Types of one name agree in whether they reach outside by their keywords. -/
def Declarations.Uniform (ds : Declarations) : Prop :=
  ∀ t ∈ ds.types, ∀ t' ∈ ds.types, t.qualifiedName = t'.qualifiedName →
    t.hasHiddenBase = t'.hasHiddenBase

instance (ds : Declarations) : Decidable ds.Uniform :=
  inferInstanceAs (Decidable (∀ t ∈ ds.types, ∀ t' ∈ ds.types,
    t.qualifiedName = t'.qualifiedName → t.hasHiddenBase = t'.hasHiddenBase))

/-- What is remembered of a name is right of each type of the name. -/
def BaseMemo.Right (ds : Declarations) (memo : BaseMemo) : Prop :=
  ∀ t ∈ ds.types, ∀ own, memo.lookup t.qualifiedName = some own → own = t.hasHiddenBase

theorem BaseMemo.right_nil (ds : Declarations) : BaseMemo.Right ds [] :=
  nofun

/-- The answer to a question does not depend on what is remembered, and what is remembered stays
right. -/
structure Steady (ds : Declarations) {α : Type} (x : StateM BaseMemo α) : Prop where
  keeps : ∀ memo : BaseMemo, memo.Right ds → BaseMemo.Right ds (x memo).2
  same : ∀ memo memo' : BaseMemo, memo.Right ds → memo'.Right ds → (x memo).1 = (x memo').1

variable {ds : Declarations} {α β : Type}

namespace Steady

theorem of_pure (a : α) : Steady ds (pure a) where
  keeps _ hmemo := hmemo
  same _ _ _ _ := rfl

theorem bind {x : StateM BaseMemo α} {f : α → StateM BaseMemo β} (hx : Steady ds x)
    (hf : ∀ a, Steady ds (f a)) : Steady ds (x >>= f) where
  keeps memo hmemo := (hf (x memo).1).keeps _ (hx.keeps memo hmemo)
  same memo memo' hmemo hmemo' := by
    show (f (x memo).1 (x memo).2).1 = (f (x memo').1 (x memo').2).1
    rw [hx.same memo memo' hmemo hmemo']
    exact (hf _).same _ _ (hx.keeps memo hmemo) (hx.keeps memo' hmemo')

end Steady

-- ===== questions

namespace Declarations

/-- The one question that reads what is remembered. -/
theorem Uniform.steady_reachesOutside (hds : ds.Uniform) {t : DeclaredType} (ht : t ∈ ds.types) :
    Steady ds (ds.reachesOutside t) := by
  have hrun : ∀ memo : BaseMemo, memo.Right ds →
      (ds.reachesOutside t memo).1 = (t.hasHiddenBase || ds.hasForeignBase t.qualifiedName)
        ∧ BaseMemo.Right ds (ds.reachesOutside t memo).2 := by
    intro memo hmemo
    cases hlookup : memo.lookup t.qualifiedName with
    | some own =>
      have hrun : ds.reachesOutside t memo
          = (own || ds.hasForeignBase t.qualifiedName, memo) := by
        simp only [reachesOutside, Bind.bind, StateT.bind, get, getThe, MonadStateOf.get,
          StateT.get, pure, hlookup]
        rfl
      rw [hrun, hmemo t ht own hlookup]
      exact ⟨rfl, hmemo⟩
    | none =>
      have hrun : ds.reachesOutside t memo
          = (t.hasHiddenBase || ds.hasForeignBase t.qualifiedName,
              (t.qualifiedName, t.hasHiddenBase) :: memo) := by
        simp only [reachesOutside, Bind.bind, StateT.bind, get, getThe, MonadStateOf.get,
          StateT.get, pure, hlookup]
        rfl
      rw [hrun]
      refine ⟨rfl, fun o ho own hown => ?_⟩
      change List.lookup o.qualifiedName ((t.qualifiedName, t.hasHiddenBase) :: memo) = some own
        at hown
      rw [List.lookup_cons] at hown
      split at hown
      · next hname =>
        cases hown
        exact hds t ht o ho (beq_iff_eq.1 hname).symm
      · exact hmemo o ho own hown
  refine ⟨fun memo hmemo => (hrun memo hmemo).2, fun memo memo' hmemo hmemo' => ?_⟩
  rw [(hrun memo hmemo).1, (hrun memo' hmemo').1]

theorem Uniform.steady_baseClass (hds : ds.Uniform) {t : DeclaredType} (ht : t ∈ ds.types) :
    Steady ds (ds.baseClass t) :=
  (hds.steady_reachesOutside ht).bind fun _ => .of_pure _

theorem Uniform.steady_findName (hds : ds.Uniform) (name : String) {types : List DeclaredType}
    (htypes : ∀ t ∈ types, t ∈ ds.types) : Steady ds (ds.findName name types) := by
  induction types with
  | nil => exact .of_pure _
  | cons t types ih =>
    unfold findName
    split
    · exact .of_pure _
    · exact (hds.steady_reachesOutside (htypes t List.mem_cons_self)).bind fun _ =>
        ih fun o ho => htypes o (List.mem_cons_of_mem _ ho)

theorem Uniform.steady_isSubtype (hds : ds.Uniform) {t : DeclaredType} (ht : t ∈ ds.types)
    (base : DeclaredType) : Steady ds (ds.isSubtype t base) :=
  hds.steady_findName _ fun _ ho => mem_of_mem_lineage ht ho

theorem Uniform.steady_fit (hds : ds.Uniform) {arg : BoundType} (harg : arg.Known ds)
    (param : BoundType) : Steady ds (ds.fit arg param) := by
  unfold fit
  split
  · exact .of_pure _
  split
  · exact .of_pure _
  split
  · exact .of_pure _
  split
  · next a p ha _ =>
    split
    · exact .of_pure _
    · exact (hds.steady_isSubtype (harg.source a ha) p).bind fun _ => .of_pure _
  · exact .of_pure _
  · exact .of_pure _

theorem Uniform.steady_fitParam (hds : ds.Uniform) (r : MemberRef) (p : Param) {arg : BoundType}
    (harg : arg.Known ds) : Steady ds (ds.fitParam r p arg) := by
  refine (hds.steady_fit harg _).bind fun whole => ?_
  split
  · exact (hds.steady_fit harg _).bind fun _ => .of_pure _
  · exact .of_pure _

theorem Uniform.steady_fitArgs (hds : ds.Uniform) (r : MemberRef) (params : List Param)
    {args : List (Option BoundType)} (hargs : ∀ arg ∈ args, ∀ a ∈ arg, a.Known ds) (place : Nat) :
    Steady ds (ds.fitArgs r params place args) := by
  induction args generalizing place with
  | nil => exact .of_pure _
  | cons arg args ih =>
    have hrest := ih fun o ho => hargs o (List.mem_cons_of_mem _ ho)
    unfold fitArgs
    split
    · next a p _ =>
      refine (hds.steady_fitParam r p (hargs _ List.mem_cons_self a rfl)).bind fun fit => ?_
      split
      · exact .of_pure _
      · exact (hrest _).bind fun _ => .of_pure _
    · exact hrest _

theorem Uniform.steady_fitOverloads (hds : ds.Uniform) (skip : Nat)
    {args : List (Option BoundType)} (hargs : ∀ arg ∈ args, ∀ a ∈ arg, a.Known ds)
    (refs : List MemberRef) : Steady ds (ds.fitOverloads skip args refs) := by
  induction refs with
  | nil => exact .of_pure _
  | cons r refs ih =>
    exact (hds.steady_fitArgs r _ hargs 0).bind fun _ => ih.bind fun _ => .of_pure _

end Declarations

namespace Index

variable {ix : Index}

theorem steady_findMembersIn (hix : ix.Uniform) (name : String) {types : List DeclaredType}
    (htypes : ∀ t ∈ types, t ∈ ix.types) :
    Steady ix (ix.findMembersIn name types) := by
  induction types with
  | nil => exact .of_pure _
  | cons t types ih =>
    unfold findMembersIn
    split
    · refine (hix.steady_reachesOutside (htypes t List.mem_cons_self)).bind fun _ => ?_
      exact (ih fun o ho => htypes o (List.mem_cons_of_mem _ ho)).bind fun _ => .of_pure _
    · exact .of_pure _

theorem steady_findMembers (hix : ix.Uniform) {t : DeclaredType} (ht : t ∈ ix.types)
    (name : String) : Steady ix (ix.findMembers t name) :=
  steady_findMembersIn hix name fun _ ho => Declarations.mem_of_mem_lineage ht ho

theorem steady_extensionsFor (hix : ix.Uniform) {receiver : BoundType}
    (hreceiver : receiver.Known ix) (refs : List MemberRef) :
    Steady ix (ix.extensionsFor receiver refs) := by
  induction refs with
  | nil => exact .of_pure _
  | cons r refs ih =>
    have htakes : Steady ix (ix.takesReceiver r receiver) := by
      unfold takesReceiver
      split
      · exact .of_pure _
      · exact (hix.steady_fit hreceiver _).bind fun _ => .of_pure _
    exact htakes.bind fun _ => ih.bind fun _ => .of_pure _

theorem steady_extensionMethods (hix : ix.Uniform) (name : String) {receiver : Option BoundType}
    (hreceiver : ∀ t ∈ receiver, t.Known ix) :
    Steady ix (ix.extensionMethods name receiver) := by
  cases receiver with
  | none => exact .of_pure _
  | some t => exact steady_extensionsFor hix (hreceiver t rfl) _

end Index

end SourceBundle

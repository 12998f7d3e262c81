/-
Members, simulated: modifiers, parameters, bodies, constructors, fields
and the members of enums. Each reader takes at least the tokens that
the bound of what follows is paid with.
-/
import SourceBundle.Proofs.Parse.Bodies

namespace SourceBundle

open Parse

variable {M : Pairing} {φ : ParseState → Prop} {n r j : Nat}

-- ===== modifiers

/-- A modifier is told by its token and the kind of the next. -/
theorem Token.isModifier_congr {t t' next next' : Token} (ht : Alike t t')
    (hnext : next.kind = next'.kind) : t.isModifier next = t'.isModifier next' := by
  rw [Token.isModifier, Token.isModifier, Token.kind_eq_of_alike ht, Token.text_eq_of_alike ht,
    hnext]

/-- No barrier is a modifier. -/
theorem Token.isModifier_of_isBarrier {t : Token} (ht : t.kind.isBarrier = true) (next : Token) :
    t.isModifier next = false := by
  unfold Token.isModifier
  split <;> first | rfl | (next hkind => rw [hkind] at ht; cases ht)

/-- The modifiers end before the tokens do. -/
theorem modifierCount_lt {l : List Token} (h : Token.Closed l) : modifierCount l < l.length := by
  induction l with
  | nil => exact h.elim
  | cons x l ih =>
    rw [modifierCount, List.length_cons]
    split
    next hx =>
      have heof : x.kind ≠ .eof := fun heof => by
        rw [Token.isModifier_of_isBarrier (by rw [heof]; rfl)] at hx
        cases hx
      have := ih ((Token.closed_cons heof).1 h).2
      omega
    · exact Nat.succ_pos _

/-- Paired tokens have as many modifiers in front, in the same words. -/
theorem Ahead.modifierCount {ys zs l l' : List Token} {c : Kind} (hc : c.isBarrier = true)
    (h : Ahead M ys zs c l l') : modifierCount l = modifierCount l'
      ∧ Alike (l.take (modifierCount l)) (l'.take (modifierCount l))
      ∧ ys.length < (l.drop (modifierCount l)).length := by
  induction h with
  | @stop x y hxy hx =>
    have hbarrier : x.kind.isBarrier = true := hx ▸ hc
    have hbarrier' : y.kind.isBarrier = true := Token.kind_eq_of_alike (M.alike hxy) ▸ hbarrier
    simp only [SourceBundle.modifierCount, Token.isModifier_of_isBarrier hbarrier,
      Token.isModifier_of_isBarrier hbarrier']
    exact ⟨rfl, rfl, Nat.lt_succ_self _⟩
  | @cons x y l l' hxy h ih =>
    have hhead : (l.headD x).kind = (l'.headD y).kind := by
      cases h <;> exact Token.kind_eq_of_alike (M.alike ‹_›)
    simp only [SourceBundle.modifierCount, ← Token.isModifier_congr (M.alike hxy) hhead, ← ih.1]
    split
    · rw [Nat.add_comm]
      exact ⟨trivial, alike_cons.2 ⟨M.alike hxy, ih.2.1⟩, ih.2.2⟩
    · exact ⟨trivial, rfl, Nat.lt_succ_of_lt h.length_lt⟩

/-- Tokens that are alike have the same texts. -/
theorem Alike.map_text {ts ts' : List Token} (h : Alike ts ts') :
    ts.map (·.text) = ts'.map (·.text) := by
  induction ts generalizing ts' with
  | nil =>
    cases ts' with
    | nil => rfl
    | cons => exact absurd h not_alike_nil_cons
  | cons t ts ih =>
    cases ts' with
    | nil => exact absurd h not_alike_cons_nil
    | cons t' ts' =>
      rw [alike_cons] at h
      rw [List.map_cons, List.map_cons, Token.text_eq_of_alike h.1, ih h.2]

/-- Modifiers are read alike. -/
theorem sim_modifiers : Sim M true Anywhere n 0 0 modifiers (fun _ => modifiers) :=
  Sim.count (d := modifierCount) (v := fun l => (l.take (modifierCount l)).map (·.text))
    (fun _ => rfl) (fun _ hl => modifierCount_lt hl) fun hc h => by
      obtain ⟨hcount, htake, hlt⟩ := h.modifierCount hc
      exact .inl ⟨hcount, alike_strings.2 (hcount ▸ htake.map_text), hlt⟩

/-- Tokens that are alike are the same modifier of a parameter. -/
theorem ParamModifier.ofToken?_congr {x y : Token} (h : Alike x y) :
    ParamModifier.ofToken? x = ParamModifier.ofToken? y := by
  rw [ParamModifier.ofToken?, ParamModifier.ofToken?, Token.kind_eq_of_alike h,
    Token.text_eq_of_alike h]

/-- The last modifier of a parameter counts. -/
theorem sim_parameterModifier :
    Sim M true Anywhere n 0 0 parameterModifier (fun _ => parameterModifier) :=
  Sim.run (f := fun t => (ParamModifier.ofToken? t).isSome)
    (v := fun u => u.getLast?.bind ParamModifier.ofToken?) (fun _ => rfl)
    (fun h => by rw [ParamModifier.ofToken?_congr h])
    (.inl ⟨rfl, fun x hx => by rw [ParamModifier.ofToken?, hx]; rfl⟩) fun {u u'} h => by
      rw [alike_paramModifier?]
      match u.getLast?, u'.getLast?, h.getLast? with
      | none, none, _ => rfl
      | some x, some y, hxy => exact ParamModifier.ofToken?_congr (alike_some.1 hxy)

-- ===== parameters

/-- Parameters, of which each takes at least a token. -/
theorem sim_parametersWithin {closer : Kind} :
    ∀ n, Sim M true Anywhere n 1 1 (parametersWithin closer n) (parametersWithin closer)
  | 0 => .zero
  | n + 1 => by
    refine Sim.succ (parametersWithin.eq_2 closer n) (parametersWithin.eq_2 closer) ?_
    refine Sim.bind Sim.skipSections fun _ _ _ => ?_
    refine Sim.here fun start start' => ?_
    refine Sim.bind sim_parameterModifier fun modifier modifier' hmodifier => ?_
    refine Sim.bind (sim_typeRef true) fun type type' htype => ?_
    refine Sim.bind (Sim.expect rfl rfl) fun x y hxy => ?_
    refine Sim.bind (Sim.whenTaken rfl (sim_items _)) fun es es' hes => ?_
    refine Sim.spanFrom fun span span' => ?_
    have hparam : Alike (Param.mk x.text type modifier es span)
        (Param.mk y.text type' modifier' es' span') := by
      rw [alike_param]
      exact ⟨Token.text_eq_of_alike hxy, htype, alike_paramModifier?.1 hmodifier, hes⟩
    refine Sim.accept rfl ?_ (Sim.pure (by simpa using hparam))
    exact Sim.bindWithin (by omega) (sim_parametersWithin n) fun ps ps' hps =>
      Sim.pure (by simp [hparam, hps])

/-- Parameters between brackets of either kind. -/
theorem sim_parameterList {closer : Kind} (hc : closer.isTaken true = true) :
    Sim M true Anywhere n 0 1 (parameterList closer) (fun _ => parameterList closer) := by
  have hopener : (openerOf closer).isTaken true = true := by
    unfold openerOf
    split <;> rfl
  have hend : (ParseFault.expected
      (if closer = .rparen then .parametersClose else .indexerClose)).isPossible = true := by
    split <;> rfl
  have hparameters : Sim M true Anywhere n 0 1 (parameters closer) (fun _ => parameters closer) :=
    Sim.atBound sim_parametersWithin (by decide)
  unfold parameterList
  refine Sim.bind (Sim.expect rfl hopener) fun _ _ _ => ?_
  refine Sim.accept hc (Sim.pure rfl) ?_
  refine Sim.bind hparameters fun ps ps' hps => ?_
  exact Sim.bind (Sim.expect hend hc) fun _ _ _ => Sim.pure hps

/-- An `in` or `out` is skipped. -/
theorem sim_skipVariance : Sim M true Anywhere n 0 0 skipVariance (fun _ => skipVariance) := by
  unfold skipVariance
  refine Sim.accept rfl (Sim.pure rfl) ?_
  exact Sim.accept rfl (Sim.pure rfl) (Sim.pure rfl)

/-- The names of type parameters. -/
theorem sim_typeParamsWithin :
    ∀ n, Sim M true Anywhere n 1 1 (typeParamsWithin n) typeParamsWithin
  | 0 => .zero
  | n + 1 => by
    refine Sim.succ (typeParamsWithin.eq_2 n) typeParamsWithin.eq_2 ?_
    refine Sim.bind Sim.skipSections fun _ _ _ => ?_
    refine Sim.bind sim_skipVariance fun _ _ _ => ?_
    refine Sim.bind (Sim.expect rfl rfl) fun x y hxy => ?_
    have htext := Token.text_eq_of_alike hxy
    refine Sim.accept rfl ?_ (Sim.pure (by simp [htext]))
    refine Sim.bindWithin (by omega) (sim_typeParamsWithin n) fun as bs habs => Sim.pure ?_
    rw [alike_strings] at habs
    simp [htext, habs]

/-- Type parameters between angle brackets. -/
theorem sim_typeParamList :
    Sim M true Anywhere n 0 1 typeParamList (fun _ => typeParamList) := by
  have hnames : Sim M true Anywhere n 0 1 typeParamNames (fun _ => typeParamNames) :=
    Sim.atBound sim_typeParamsWithin (by decide)
  unfold typeParamList
  refine Sim.bind (Sim.expect rfl rfl) fun _ _ _ => ?_
  refine Sim.bind hnames fun as bs habs => ?_
  exact Sim.bind (Sim.expect rfl rfl) fun _ _ _ => Sim.pure habs

/-- In front of the end, a token or a group is skipped. -/
theorem sim_skipTokenOrGroup :
    Sim M true (fun s => (s.ahead 0).kind ≠ .eof) n 0 1 skipTokenOrGroup
      (fun _ => skipTokenOrGroup) := by
  unfold skipTokenOrGroup
  refine Sim.check (Sim.skipBalanced.of (by omega)) ?_
  exact Sim.advance (fun _ hs => hs.1) (.inl rfl) fun _ _ _ => Sim.pure rfl

/-- A constraint, skipped up to where its end is seen. -/
theorem sim_skipConstraintWithin :
    ∀ n, Sim M true Anywhere n 1 0 (skipConstraintWithin n) skipConstraintWithin
  | 0 => .zero
  | n + 1 => by
    refine Sim.succ (skipConstraintWithin.eq_2 n) skipConstraintWithin.eq_2 ?_
    refine Sim.peek fun x y hxy => ?_
    simp only [← Token.kind_eq_of_alike hxy]
    split
    · exact Sim.pure rfl
    next hx =>
    have heof : x.kind ≠ .eof := fun heof => hx (by rw [heof]; rfl)
    refine Sim.bindFrom (fun s hs => hs.2 ▸ heof) (Nat.zero_le _) sim_skipTokenOrGroup
      fun _ _ _ => ?_
    exact (sim_skipConstraintWithin n).of (by omega)

/-- Constraints are skipped from `where` on. -/
theorem sim_skipConstraints :
    Sim M true Anywhere n 0 0 skipConstraints (fun _ => skipConstraints) := by
  have hconstraint : Sim M true Anywhere n 0 0 skipConstraint (fun _ => skipConstraint) :=
    Sim.atBound sim_skipConstraintWithin (by decide)
  unfold skipConstraints
  exact Sim.lookIf look_checkWord (hconstraint.of (by omega)) (Sim.pure rfl)

-- ===== bodies

/-- A body behind an arrow. -/
theorem sim_expressionBody :
    Sim M true Anywhere n 0 1 expressionBody (fun _ => expressionBody) := by
  unfold expressionBody
  refine Sim.bind (sim_items _) fun es es' hes => ?_
  exact Sim.bind (Sim.expect rfl rfl) fun _ _ _ => Sim.pure hes

/-- A body in braces, behind an arrow, or none. -/
theorem sim_memberBody : Sim M true Anywhere n 0 1 memberBody (fun _ => memberBody) := by
  unfold memberBody
  refine Sim.check ?_ ?_
  · exact Sim.bind sim_block fun e e' he => Sim.pure (by simpa using he)
  · exact Sim.accept rfl (sim_expressionBody.of (by omega))
      (Sim.accept rfl (Sim.pure rfl) (Sim.unexpected rfl))

/-- The body of a property, with its initializer. -/
theorem sim_propertyBody : Sim M true Anywhere n 0 1 propertyBody (fun _ => propertyBody) := by
  unfold propertyBody
  refine Sim.accept rfl (sim_expressionBody.of (by omega)) ?_
  refine Sim.bind sim_block fun e e' he => ?_
  refine Sim.accept rfl ?_ (Sim.pure (by simpa using he))
  refine Sim.bind (sim_items _) fun es es' hes => ?_
  exact Sim.bind (Sim.expect rfl rfl) fun _ _ _ => Sim.pure (by simp [he, hes])

-- ===== members

/-- The word `this` or `base` in front of a call. -/
theorem sim_constructorWord {start start' : Span} :
    Sim M true Anywhere n 0 0 (constructorWord start) (fun _ => constructorWord start') := by
  unfold constructorWord
  refine Sim.advanceStop fun N x y hxy => ?_
  rw [← Token.kind_eq_of_alike (N.stop_alike hxy)]
  split
  · exact Sim.bind Sim.newMark fun _ _ _ => Sim.pure alike_thisRef
  · exact Sim.bind Sim.newMark fun _ _ _ => Sim.pure alike_baseRef
  · exact Sim.failAt rfl hxy

/-- The call of another constructor, if there is one. -/
theorem sim_constructorCall :
    Sim M true Anywhere n 0 0 constructorCall (fun _ => constructorCall) := by
  unfold constructorCall
  refine Sim.accept rfl ?_ (Sim.pure rfl)
  refine Sim.here fun start start' => ?_
  refine Sim.bind sim_constructorWord fun e e' he => ?_
  refine Sim.bind (sim_argumentList rfl) fun as bs habs => ?_
  exact Sim.bind Sim.markFrom fun _ _ _ => Sim.pure (by simp [he, habs])

/-- An indexer, from its parameters on. -/
theorem sim_indexer {start start' : Span} {modifiers : List String} {type type' : TypeRef}
    (htype : Alike type type') :
    Sim M true Anywhere n 0 1 (indexer start modifiers type)
      (fun _ => indexer start' modifiers type') := by
  unfold indexer
  refine Sim.bind (sim_parameterList rfl) fun ps ps' hps => ?_
  refine Sim.bind sim_propertyBody fun es es' hes => ?_
  refine Sim.spanFrom fun _ _ => Sim.pure ?_
  rw [alike_memberDecl]
  exact ⟨rfl, rfl, alike_some.2 htype, hps, rfl, rfl, hes, rfl⟩

/-- A name behind the names of its interface. -/
theorem sim_memberNameWithin : ∀ n name,
    Sim M true Anywhere n 1 0 (memberNameWithin n name) (memberNameWithin · name)
  | 0, _ => .zero
  | n + 1, name => by
    refine Sim.succ (memberNameWithin.eq_2 name n) (fun m => memberNameWithin.eq_2 name m) ?_
    refine Sim.bind (Sim.whenNext sim_typeParamList) fun as bs habs => ?_
    rw [alike_strings] at habs
    subst habs
    refine Sim.checkBefore rfl ?_ (Sim.pure rfl)
    refine Sim.taking .dot rfl (fun _ hs => hs.2.1) fun _ _ _ => ?_
    refine Sim.accept rfl (Sim.pure rfl) ?_
    refine Sim.advanceAny fun x y hxy => ?_
    rw [← Token.text_eq_of_alike hxy]
    exact (sim_memberNameWithin n x.text).of (by omega)

/-- The name of a member, none for an indexer. -/
theorem sim_memberName {name : String} :
    Sim M true Anywhere n 0 0 (memberName name) (fun _ => memberName name) :=
  Sim.atBound (fun n => sim_memberNameWithin n name) (by decide)

/-- The fields of one declaration, from a name on. -/
theorem sim_fieldsWithin {start start' : Span} {kind : MemberKind} {modifiers : List String}
    {type type' : TypeRef} (htype : Alike type type') : ∀ n name,
    Sim M true Anywhere n 1 0 (fieldsWithin start kind modifiers type n name)
      (fieldsWithin start' kind modifiers type' · name)
  | 0, _ => .zero
  | n + 1, name => by
    refine Sim.succ (fieldsWithin.eq_2 start kind modifiers type name n)
      (fun m => fieldsWithin.eq_2 start' kind modifiers type' name m) ?_
    refine Sim.bind Sim.skipGroup fun _ _ _ => ?_
    refine Sim.bind (Sim.whenTaken rfl (sim_items _)) fun es es' hes => ?_
    refine Sim.spanFrom fun span span' => ?_
    have hfield : Alike
        (MemberDecl.mk kind name (some type) [] [] modifiers es [] (some span))
        (MemberDecl.mk kind name (some type') [] [] modifiers es' [] (some span')) := by
      rw [alike_memberDecl]
      exact ⟨rfl, rfl, alike_some.2 htype, rfl, rfl, rfl, hes, rfl⟩
    refine Sim.accept rfl ?_ (Sim.pure (by simpa using hfield))
    refine Sim.bind (Sim.expect rfl rfl) fun x y hxy => ?_
    rw [← Token.text_eq_of_alike hxy]
    refine Sim.bindWithin (by omega) (sim_fieldsWithin htype n x.text) fun fs fs' hfs => Sim.pure ?_
    simp [hfield, hfs]

/-- The fields of one declaration. -/
theorem sim_fields {start start' : Span} {kind : MemberKind} {modifiers : List String}
    {type type' : TypeRef} {name : String} (htype : Alike type type') :
    Sim M true Anywhere n 0 0 (fields start kind modifiers type name)
      (fun _ => fields start' kind modifiers type' name) :=
  Sim.atBound (f := fun n => fieldsWithin start kind modifiers type n name)
    (g := fun n => fieldsWithin start' kind modifiers type' n name)
    (fun n => sim_fieldsWithin htype n name) (by decide)

/-- A member made of parts that are alike. -/
theorem alike_members {m m' : MemberDecl} (h : Alike m m') : Alike [m] [m'] := by
  simpa using h

/-- A member that starts with its type. -/
theorem sim_typedMember {start start' : Span} {modifiers : List String} :
    Sim M true Anywhere n 0 1 (typedMember start modifiers)
      (fun _ => typedMember start' modifiers) := by
  unfold typedMember
  refine Sim.bind (Sim.accepted rfl) fun isEvent isEvent' hevent => ?_
  cases alike_bool.1 hevent
  refine Sim.bind (sim_typeRef true) fun type type' htype => ?_
  refine Sim.accept rfl ?_ (Sim.accept rfl ?_ ?_)
  · refine Sim.bind Sim.takeUntil fun marks marks' hmarks => ?_
    refine Sim.bind (sim_parameterList rfl) fun ps ps' hps => ?_
    refine Sim.bind sim_memberBody fun es es' hes => ?_
    refine Sim.spanFrom fun _ _ => Sim.pure (alike_members ?_)
    rw [alike_memberDecl]
    exact ⟨rfl, by rw [hmarks.map_text], alike_some.2 htype, hps, rfl, rfl, hes, rfl⟩
  · exact Sim.bind (sim_indexer htype) fun m m' hm => Sim.pure (alike_members hm)
  · refine Sim.bind (Sim.expect rfl rfl) fun x y hxy => ?_
    rw [← Token.text_eq_of_alike hxy]
    refine Sim.bind sim_memberName fun a b hab => ?_
    match a, b, hab with
    | none, none, _ =>
      exact Sim.bind (sim_indexer htype) fun m m' hm => Sim.pure (alike_members hm)
    | some (name, typeParams), some (name', typeParams'), hab =>
      obtain ⟨hname, htypeParams⟩ := alike_pair.1 (alike_some.1 hab)
      rw [alike_string] at hname
      rw [alike_strings] at htypeParams
      subst hname htypeParams
      refine Sim.check ?_ ?_
      · refine Sim.bind (sim_parameterList rfl) fun ps ps' hps => ?_
        refine Sim.bind sim_skipConstraints fun _ _ _ => ?_
        refine Sim.bind sim_memberBody fun es es' hes => ?_
        refine Sim.spanFrom fun _ _ => Sim.pure (alike_members ?_)
        rw [alike_memberDecl]
        exact ⟨rfl, rfl, alike_some.2 htype, hps, rfl, rfl, hes, rfl⟩
      · refine Sim.look look_check fun isBlock isBlock' hblock => ?_
        refine Sim.look look_check fun isArrow isArrow' harrow => ?_
        cases alike_bool.1 hblock
        cases alike_bool.1 harrow
        split
        · refine Sim.bind sim_propertyBody fun es es' hes => ?_
          refine Sim.spanFrom fun _ _ => Sim.pure (alike_members ?_)
          rw [alike_memberDecl]
          exact ⟨rfl, rfl, alike_some.2 htype, rfl, rfl, rfl, hes, rfl⟩
        · refine Sim.bind (sim_fields htype) fun fs fs' hfs => ?_
          exact Sim.bind (Sim.expect rfl rfl) fun _ _ _ => Sim.pure hfs

/-- A constructor is seen from two tokens. -/
theorem look_startsConstructor {typeName : String} : Look M φ (startsConstructor typeName)
    (fun s => (s.ahead 0).isWord typeName && (s.ahead 1).kind = .lparen) where
  eq _ := rfl
  alike {ys zs c s t} hb _ := by
    have hword := hb.isWord_zero typeName
    rw [← hword]
    by_cases hident : (s.ahead 0).kind = .ident
    · rw [hb.kind_one (by rw [hident]; rfl)]
    · simp [Token.isWord, hident]

/-- A member, without locals of its own. -/
theorem sim_bareMember {typeName : String} {k : Nat} :
    Sim M true (SectionsFrom k) n 0 (k + 1) (bareMember typeName)
      (fun _ => bareMember typeName) := by
  unfold bareMember
  refine Sim.bindFrom (fun _ hs => hs) (Nat.le_refl 0) Sim.skipSectionsFrom fun _ _ _ => ?_
  rw [Nat.add_sub_cancel_left]
  refine Sim.here fun start start' => ?_
  refine Sim.bind sim_modifiers fun modifiers modifiers' hmodifiers => ?_
  rw [alike_strings] at hmodifiers
  subst hmodifiers
  refine Sim.accept rfl ?_ ?_
  · refine Sim.bind (Sim.expect rfl rfl) fun x y hxy => ?_
    refine Sim.bind (sim_parameterList rfl) fun ps ps' hps => ?_
    refine Sim.bind sim_memberBody fun es es' hes => ?_
    refine Sim.spanFrom fun _ _ => Sim.pure (alike_members ?_)
    rw [alike_memberDecl]
    exact ⟨rfl, by rw [Token.text_eq_of_alike hxy], rfl, hps, rfl, rfl, hes, rfl⟩
  · refine Sim.look look_check fun isImplicit isImplicit' himplicit => ?_
    refine Sim.look look_check fun isExplicit isExplicit' hexplicit => ?_
    cases alike_bool.1 himplicit
    cases alike_bool.1 hexplicit
    split
    next hconversion =>
      refine Sim.advance (fun s hs heof => ?_) (.inl rfl) fun x y hxy => ?_
      · rw [← hs.2, ← hs.1.2, heof] at hconversion
        cases hconversion
      refine Sim.bind (Sim.expect rfl rfl) fun _ _ _ => ?_
      refine Sim.bind (sim_typeRef true) fun type type' htype => ?_
      refine Sim.bind (sim_parameterList rfl) fun ps ps' hps => ?_
      refine Sim.bind sim_memberBody fun es es' hes => ?_
      refine Sim.spanFrom fun _ _ => Sim.pure (alike_members ?_)
      rw [alike_memberDecl]
      exact ⟨rfl, by rw [Token.kind_eq_of_alike hxy], alike_some.2 htype, hps, rfl, rfl, hes, rfl⟩
    next =>
      refine Sim.lookIf look_startsConstructor ?_ (sim_typedMember.of (by omega))
      refine Sim.advance (fun s hs heof => ?_) (.inl rfl) fun _ _ _ => ?_
      · have hword := (Bool.and_eq_true_iff.1 hs.2).1
        rw [Token.isWord, heof] at hword
        cases hword
      refine Sim.bind (sim_parameterList rfl) fun ps ps' hps => ?_
      refine Sim.bind sim_constructorCall fun cs cs' hcs => ?_
      refine Sim.bind sim_memberBody fun es es' hes => ?_
      refine Sim.spanFrom fun _ _ => Sim.pure (alike_members ?_)
      rw [alike_memberDecl]
      exact ⟨rfl, rfl, rfl, hps, rfl, rfl, hcs.append hes, rfl⟩

/-- What is read, with locals of its own. -/
theorem withLocals_eq {α : Type} (p : Parse α) (s : ParseState) : Parse.withLocals p s
    = (p { s with locals := #[] }).map fun x =>
      ((x.1, x.2.locals.toList), { x.2 with locals := s.locals }) := by
  show (p { s with locals := #[] } >>= fun x => _) = _
  cases p { s with locals := #[] } <;> rfl

theorem Sim.withLocals {α : Type} [Bare α] {p : Parse α} {q : Nat → Parse α}
    (h : Sim M true φ n r j p q) (hφ : ∀ s, φ s → φ { s with locals := #[] }) :
    Sim M true φ n r j (Parse.withLocals p) (fun m => Parse.withLocals (q m)) := by
  constructor
  case goes =>
    intro s hs hφs hn
    have hgo := h.goes (s := { s with locals := #[] }) ⟨hs.rest, hs.eof⟩ (hφ s hφs) hn
    rw [withLocals_eq]
    generalize p _ = x at hgo
    cases x with
    | error e => exact hgo
    | ok x =>
      obtain ⟨k, hj, hk, hrest, hlast, heof⟩ := hgo
      refine ⟨k, hj, hk, ?_, ?_, heof⟩
      · rw [ParseState.rest_drop] at hrest ⊢
        exact hrest
      · cases k <;> exact hlast
  case pairs =>
    intro ys zs c s t m hb hφs hn hm
    have hpq := h.pairs (s := { s with locals := #[] }) (t := { t with locals := #[] }) (m := m)
      ⟨⟨hb.left.rest, hb.left.eof⟩, ⟨hb.right.rest, hb.right.eof⟩, hb.within, hb.rest, hb.last,
        rfl⟩ (hφ s hφs) hn hm
    rw [withLocals_eq, withLocals_eq]
    generalize p _ = x, q m _ = y at hpq
    cases hpq with
    | both hab hb' =>
      exact .both (alike_pair.2 ⟨hab, hb'.locals⟩) ⟨⟨hb'.left.rest, hb'.left.eof⟩,
        ⟨hb'.right.rest, hb'.right.eof⟩, hb'.within, hb'.rest, hb'.last, hb.locals⟩
    | fail he => exact .fail he
    | past hl hpast => exact .past hl hpast
    | lost hl hc => exact .lost hl hc

theorem Sim.apart {α : Type} [Bare α] {p : Parse α} {q : Nat → Parse α}
    (h : Sim M true φ n r j p q) (hφ : ∀ s, φ s → φ { s with locals := #[] }) :
    Sim M true φ n r j (Parse.apart p) (fun m => Parse.apart (q m)) := by
  refine Sim.bindFrom (fun _ hs => hs) (Nat.le_refl r) (h.withLocals hφ) fun a b hab => ?_
  rw [Nat.sub_self]
  exact Sim.pure (alike_pair.1 hab).1

theorem sim_member {typeName : String} {k : Nat} :
    Sim M true (SectionsFrom k) n 0 (k + 1) (member typeName) (fun _ => member typeName) := by
  unfold member
  refine Sim.bindFrom (fun _ hs => hs) (Nat.le_refl 0)
    (Sim.withLocals sim_bareMember fun _ hs => hs) fun a b hab => ?_
  rw [Nat.sub_self]
  obtain ⟨ms, ls⟩ := a
  obtain ⟨ms', ls'⟩ := b
  obtain ⟨hms, hls⟩ := alike_pair.1 hab
  exact Sim.pure (hms.map fun m m' hm => by
    rw [alike_memberDecl] at hm ⊢
    exact ⟨hm.1, hm.2.1, hm.2.2.1, hm.2.2.2.1, hm.2.2.2.2.1, hm.2.2.2.2.2.1, hm.2.2.2.2.2.2.1, hls⟩)

theorem sim_enumMembersWithin :
    ∀ n, Sim M true Anywhere n 1 0 (enumMembersWithin n) enumMembersWithin
  | 0 => .zero
  | n + 1 => by
    refine Sim.succ (enumMembersWithin.eq_2 n) enumMembersWithin.eq_2 ?_
    refine Sim.check (Sim.pure rfl) ?_
    refine Sim.bind Sim.skipSections fun _ _ _ => ?_
    refine Sim.here fun start start' => ?_
    refine Sim.bind (Sim.expect rfl rfl) fun x y hxy => ?_
    refine Sim.bind (Sim.whenTaken rfl (sim_items _)) fun es es' hes => ?_
    refine Sim.spanFrom fun span span' => ?_
    have hmember : Alike
        (MemberDecl.mk .enumMember x.text none [] [] [] es [] (some span))
        (MemberDecl.mk .enumMember y.text none [] [] [] es' [] (some span')) := by
      rw [alike_memberDecl]
      exact ⟨rfl, Token.text_eq_of_alike hxy, rfl, rfl, rfl, rfl, hes, rfl⟩
    refine Sim.accept rfl ?_ (Sim.pure (alike_members hmember))
    exact Sim.bindWithin (by omega) (sim_enumMembersWithin n) fun ms ms' hms =>
      Sim.pure (by simp [hmember, hms])

theorem sim_enumMembers : Sim M true Anywhere n 0 0 enumMembers (fun _ => enumMembers) :=
  Sim.atBound sim_enumMembersWithin (by decide)

end SourceBundle

/-
Which local a `foreach` gives its collection to.

A reader only adds to the locals (`Appends`). Two places go back to a
local that is there already: an initializer is put into its local once
it is read, and the head of a `foreach` (`HeadRun`) gives the collection
to the local recorded last.

So what a head did to the locals is still there when the member is read
to its end, whatever comes around it: blocks, lambdas, arguments and
initializers (`Comes`). Only the head of another `foreach` around it
could take the last local away again, and `Comes` does not go through
one. The variable has the collection then, exactly if the collection
declares no locals of its own.
-/
import SourceBundle.Proofs.Parse.Pool

namespace SourceBundle

open List Parse

variable {α β : Type}

-- ===== appending

/-- A reader only adds to the locals. -/
class Appends (p : Parse α) : Prop where
  run : ∀ {s s' : ParseState} {a : α}, p s = .ok (a, s') → s.locals.toList <+: s'.locals.toList

namespace Appends

instance (priority := low) of_plain (p : Parse α) [hp : Plain p] : Appends p where
  run h := by
    have hsame := (hp.kept h).1
    exact hsame ▸ prefix_rfl

instance of_bind (p : Parse α) (f : α → Parse β) [hp : Appends p] [hf : ∀ a, Appends (f a)] :
    Appends (p >>= f) where
  run h := by
    obtain ⟨a, w, ha, hb⟩ := bind_eq_ok h
    exact (hp.run ha).trans ((hf a).run hb)

instance of_ite (c : Prop) [Decidable c] (p q : Parse α) [Appends p] [Appends q] :
    Appends (if c then p else q) := by
  split <;> infer_instance

instance of_get : Appends get where
  run h := by
    cases h
    exact prefix_rfl

instance of_localCount : Appends localCount := by unfold localCount; infer_instance

instance of_newMark (span : Option Span) : Appends (newMark span) where
  run h := by
    cases h
    exact prefix_rfl

instance of_markFrom (start : Span) : Appends (markFrom start) := by
  unfold markFrom; infer_instance

theorem of_modify {f : ParseState → ParseState}
    (hf : ∀ s, s.locals.toList <+: (f s).locals.toList) : Appends (modify f : Parse PUnit) where
  run {s _ _} h := by
    cases h
    exact hf s

instance of_recordLocal (l : LocalDecl) : Appends (recordLocal l) where
  run h := by
    cases h
    simp

instance of_recordLocals (ls : List LocalDecl) : Appends (recordLocals ls) where
  run h := by
    cases h
    simp

instance of_recordParameters (declared : Nat) (head : Expr) :
    Appends (recordParameters declared head) := by
  unfold recordParameters; infer_instance

instance of_whenTaken (k : Kind) (p : Parse (List α)) [Appends p] : Appends (whenTaken k p) := by
  unfold whenTaken; infer_instance

end Appends

-- ===== collections

/-- The local goes over a collection. -/
def LocalDecl.goingOver (e : Expr) (l : LocalDecl) : LocalDecl :=
  { l with isForeach := true, init := some e }

/-- Items make up a collection: it is the one item, or a group of several. -/
def IsCollection (source : List Expr) (e : Expr) : Prop :=
  source = [e] ∨ 2 ≤ source.length ∧ ∃ node, e = .group ⟨none, node⟩ source

/-- The collection is given to the local recorded last, if it was recorded in the head. -/
theorem recordCollection_eq_ok {declared : Nat} {source : List Expr} {s s' : ParseState} {a : Unit}
    (h : recordCollection declared source s = .ok (a, s')) :
    (s'.locals = s.locals ∧ (source = [] ∨ s.locals.size ≤ declared))
      ∨ declared < s.locals.size ∧ ∃ e, IsCollection source e
        ∧ s'.locals = s.locals.modify (s.locals.size - 1) (·.goingOver e) := by
  obtain ⟨count, w, hcount, h⟩ := bind_eq_ok h
  cases hcount
  split at h
  next hdeclared =>
    match source, h with
    | [], h =>
      cases h
      exact .inl ⟨rfl, .inl rfl⟩
    | [e], h =>
      cases h
      exact .inr ⟨hdeclared, e, .inl rfl, rfl⟩
    | e :: e' :: es, h =>
      cases h
      exact .inr ⟨hdeclared, _, .inr ⟨Nat.le_add_left _ _, _, rfl⟩, rfl⟩
  next hdeclared =>
    cases h
    exact .inl ⟨rfl, .inr (Nat.le_of_not_lt hdeclared)⟩

/-- The head of a `foreach` is read: its bracket, its variable and its collection. -/
structure HeadRun (n : Nat) (s opened named read : ParseState) (source : List Expr) : Prop where
  opens : (advance >>= fun _ => accept .lparen) s = .ok (true, opened)
  names : ∃ header, itemsWithin n [.inKw, .rparen] opened = .ok (header, named)
  reads : whenTaken .inKw (itemsWithin n [.rparen]) named = .ok (source, read)

/-- What is read of a `foreach`: the word alone, or a head that gives the collection to a local. -/
theorem foreachWithin_eq_ok {n : Nat} {s s' : ParseState} {o : Option Expr}
    (h : foreachWithin (n + 1) s = .ok (o, s')) :
    (∃ passed, (advance >>= fun _ => accept .lparen) s = .ok (false, passed)
        ∧ s'.locals = s.locals)
      ∨ ∃ opened named read closed recorded : ParseState, ∃ source,
        HeadRun n s opened named read source ∧ closed.locals = read.locals
        ∧ recordCollection opened.locals.size source closed = .ok ((), recorded)
        ∧ s'.locals = recorded.locals := by
  unfold foreachWithin at h
  obtain ⟨start, w, hstart, h⟩ := bind_eq_ok h
  cases hstart
  obtain ⟨tok, w, htok, h⟩ := bind_eq_ok h
  obtain ⟨isOpen, opened, hopen, h⟩ := bind_eq_ok h
  have hopens : (advance >>= fun _ => accept .lparen) s = .ok (isOpen, opened) := by
    rw [bind_ok htok, hopen]
  cases isOpen with
  | false =>
    cases h
    exact .inl ⟨_, hopens, (Plain.kept hopens).1⟩
  | true =>
    obtain ⟨declared, w', hdeclared, h⟩ := bind_eq_ok h
    cases hdeclared
    obtain ⟨header, named, hheader, h⟩ := bind_eq_ok h
    obtain ⟨source, read, hsource, h⟩ := bind_eq_ok h
    obtain ⟨_, closed, hclosed, h⟩ := bind_eq_ok h
    obtain ⟨_, recorded, hrecorded, h⟩ := bind_eq_ok h
    obtain ⟨m, w', hm, h⟩ := bind_eq_ok h
    cases hm
    cases h
    exact .inr ⟨opened, named, read, closed, recorded, source, ⟨hopens, ⟨header, hheader⟩, hsource⟩,
      (Plain.kept hclosed).1, hrecorded, rfl⟩

namespace HeadRun

variable {n : Nat} {s s' opened named read opened' named' read' : ParseState}
  {source source' : List Expr}

theorem opened_locals (h : HeadRun n s opened named read source) : opened.locals = s.locals :=
  (Plain.kept h.opens).1

theorem unique (h : HeadRun n s opened named read source)
    (h' : HeadRun n s opened' named' read' source') :
    opened' = opened ∧ read' = read ∧ source' = source := by
  cases h.opens.symm.trans h'.opens
  obtain ⟨header, hnames⟩ := h.names
  obtain ⟨header', hnames'⟩ := h'.names
  cases hnames.symm.trans hnames'
  cases h.reads.symm.trans h'.reads
  exact ⟨rfl, rfl, rfl⟩

/-- The locals that a head and its collection declare, with the collection given to the last. -/
theorem locals_eq (h : HeadRun n s opened named read source) {o : Option Expr}
    (hrun : foreachWithin (n + 1) s = .ok (o, s')) (hsource : source ≠ []) {x : LocalDecl}
    {inner : List LocalDecl} (hx : named.locals.toList = s.locals.toList ++ [x])
    (hinner : read.locals.toList = named.locals.toList ++ inner) :
    ∃ e, IsCollection source e ∧ s'.locals.toList
      = s.locals.toList ++ (x :: inner).modify inner.length (·.goingOver e) := by
  obtain ⟨passed, hpassed, -⟩ | ⟨_, _, _, closed, recorded, _, hhead, hclosed, hrecord, hlocals⟩ :=
    foreachWithin_eq_ok hrun
  · cases hpassed.symm.trans h.opens
  · obtain ⟨rfl, rfl, rfl⟩ := h.unique hhead
    have hread : closed.locals.toList = s.locals.toList ++ (x :: inner) := by
      rw [hclosed, hinner, hx, append_assoc]
      rfl
    have hsize : closed.locals.size = s.locals.size + (inner.length + 1) := by
      rw [← Array.length_toList, hread, length_append, Array.length_toList]
      rfl
    obtain ⟨-, hnone | hfew⟩ | ⟨-, e, hcollection, hgiven⟩ := recordCollection_eq_ok hrecord
    · exact absurd hnone hsource
    · rw [h.opened_locals] at hfew
      omega
    · refine ⟨e, hcollection, ?_⟩
      rw [hlocals, hgiven, Array.toList_modify, hread, hsize, List.modify]
      exact modifyTailIdx_add _ inner.length s.locals.toList _

end HeadRun

-- ===== bodies

/-- Given locals come first. -/
def ParseState.Fronted (front : List LocalDecl) (_ : List Expr) (s : ParseState) : Prop :=
  front <+: s.locals.toList

instance ParseState.ledger_fronted (front : List LocalDecl) :
    Ledger (ParseState.Fronted front) front.length where
  of_eq h hlocals _ := by
    rw [Fronted, hlocals]
    exact h
  base_le h := h.length_le
  made h _ _ := h
  changed h hkept _ := by
    rw [← prefix_iff_eq_take.1 h] at hkept
    exact hkept

/-- A reader that keeps every record, if expressions are given to it, adds to the locals that it
starts from. -/
theorem Appends.of_tracks [Holder α] {p : Parse α} (given : List Expr)
    (h : ∀ front, Tracks (ParseState.Fronted front) (· ∈ given) p) : Appends p where
  run {s _ _} hrun := by
    have hs : s.Fronted s.locals.toList given := prefix_rfl
    obtain ⟨_, _, hkept, _⟩ := (h _).run hs (fun _ he => he) hrun
    exact hkept

section

variable (n : Nat) (closer : Kind)

instance appends_items (stops : List Kind) : Appends (itemsWithin n stops) :=
  .of_tracks [] fun _ => (bodiesTrack n).items _ _

instance appends_item : Appends (itemWithin n) :=
  .of_tracks [] fun _ => (bodiesTrack n).item _

instance appends_local (e : Expr) : Appends (localWithin n e) :=
  .of_tracks [] fun _ => (bodiesTrack n).localOf _ _

instance appends_group (opener : Kind) (what : Expected) :
    Appends (groupWithin n opener closer what) :=
  .of_tracks [] fun _ => (bodiesTrack n).group _ _ _ _

instance appends_head : Appends (headWithin n) :=
  .of_tracks [] fun _ => (bodiesTrack n).head _

instance appends_holes (holes : List (List Token)) : Appends (holesWithin n holes) :=
  .of_tracks [] fun _ => (bodiesTrack n).holes _ _

instance appends_initializer : Appends (initializerWithin n) :=
  .of_tracks [] fun _ => (bodiesTrack n).initializer _

instance appends_argumentList : Appends (argumentListWithin n closer) :=
  .of_tracks [] fun _ => (bodiesTrack n).argumentList _ _

instance appends_arguments : Appends (argumentsWithinBrackets n closer) :=
  .of_tracks [] fun _ => (bodiesTrack n).arguments _ _

instance appends_argument : Appends (argumentWithin n closer) :=
  .of_tracks [] fun _ => (bodiesTrack n).argument _ _

instance appends_chain (e : Expr) (start : Span) : Appends (chainWithin n e start) := by
  refine .of_tracks [e] fun _ => ?_
  have : Among (held e) (· ∈ [e]) := ⟨fun _ h => mem_singleton.2 h⟩
  exact (bodiesTrack n).chain _ _ _

instance appends_parameterList : Appends (parameterList closer) :=
  .of_tracks [] fun _ => inferInstance

end

-- ===== places

/-- In the course of reading, the reader comes to read `q` in the state `t`. What is read after
that only adds to the locals, unless it is put into a local that was there before; so `q` is not
read inside the head of a `foreach`. -/
inductive Comes {γ : Type} (q : Parse γ) (t : ParseState) :
    {α : Type} → Parse α → ParseState → Prop
  | here : Comes q t q t
  | left {α β : Type} {p : Parse α} {f : α → Parse β} {s : ParseState} [∀ a, Appends (f a)] :
      Comes q t p s → Comes q t (p >>= f) s
  | right {α β : Type} {p : Parse α} {f : α → Parse β} {s s' : ParseState} {a : α} [Appends p] :
      p s = .ok (a, s') → Comes q t (f a) s' → Comes q t (p >>= f) s
  | initial {α : Type} {p : Parse α} {i : Nat} {give : α → LocalDecl → LocalDecl}
      {s : ParseState} : i < s.locals.size → Comes q t p s →
      Comes q t (p >>= fun a => updateLocal i (give a) >>= fun _ => pure a) s

namespace Comes

variable {γ δ : Type} {q : Parse γ} {r : Parse δ} {s s' t u : ParseState} {p : Parse α} {a : α}

theorem prefix_locals (h : Comes q t p s) : s.locals.toList <+: t.locals.toList := by
  induction h with
  | here => exact prefix_rfl
  | left _ ih => exact ih
  | right hp _ ih => exact (Appends.run hp).trans ih
  | initial _ _ ih => exact ih

theorem trans (h : Comes q t p s) (h' : Comes r u q t) : Comes r u p s := by
  induction h with
  | here => exact h'
  | left _ ih => exact .left ih
  | right hp _ ih => exact .right hp ih
  | initial hi _ ih => exact .initial hi ih

/-- What was recorded from that place on is still there in the end. -/
theorem run (h : Comes q t p s) (hrun : p s = .ok (a, s')) : ∃ c t', q t = .ok (c, t')
    ∧ t'.locals.toList.drop t.locals.size <+: s'.locals.toList.drop t.locals.size := by
  induction h generalizing s' with
  | here => exact ⟨a, s', hrun, prefix_rfl⟩
  | left _ ih =>
    obtain ⟨b, w, hp, hrest⟩ := bind_eq_ok hrun
    obtain ⟨c, t', hq, hkept⟩ := ih hp
    exact ⟨c, t', hq, hkept.trans (List.IsPrefix.drop (Appends.run hrest) _)⟩
  | right hp _ ih =>
    rw [bind_ok hp] at hrun
    exact ih hrun
  | initial hi hcomes ih =>
    obtain ⟨b, w, hp, hrest⟩ := bind_eq_ok hrun
    cases hrest
    obtain ⟨c, t', hq, hkept⟩ := ih hp
    have hsize := hcomes.prefix_locals.length_le
    rw [Array.length_toList, Array.length_toList] at hsize
    refine ⟨c, t', hq, ?_⟩
    rw [Array.toList_modify, drop_modify_of_lt _ _ _ _ (Nat.lt_of_lt_of_le hi hsize)]
    exact hkept

end Comes

-- ===== items

/-- Whether items end before a token. -/
def endsItems (stops : List Kind) (k : Kind) : Bool :=
  k = .eof || stops.contains k || k.isCloser

/-- One item, with what belongs to it: the parameters of the lambda whose head it is, or the local
that it declares. -/
def roundWithin (n : Nat) : Parse (List Expr) := do
  let declared ← localCount
  match ← itemWithin n with
  | none => return []
  | some e =>
    if ← check .arrow then
      recordParameters declared e
      return [e]
    else return e :: (← localWithin n e).toList

section

variable {γ : Type} {q : Parse γ} {n : Nat} {stops : List Kind} {s t u : ParseState} {e : Expr}

/-- Items are read round by round. -/
theorem itemsWithin_succ : itemsWithin (n + 1) stops = (do
    if endsItems stops (← peek).kind then return []
    let first ← roundWithin n
    return first ++ (← itemsWithin n stops)) := by
  rw [itemsWithin]
  unfold roundWithin endsItems
  simp only [bind_assoc]
  refine congrArg _ (funext fun tok => ?_)
  split
  · rfl
  refine congrArg _ (funext fun declared => congrArg _ (funext fun item => ?_))
  cases item with
  | none => simp
  | some e =>
    simp only [bind_assoc]
    refine congrArg _ (funext fun isLambda => ?_)
    split <;> simp

instance appends_round : Appends (roundWithin n) := by
  unfold roundWithin
  refine @Appends.of_bind _ _ _ _ _ fun declared => @Appends.of_bind _ _ _ _ _ fun item => ?_
  cases item <;> infer_instance

/-- Reading items comes to what the first round and the items after it come to. -/
theorem comes_rounds (hkind : endsItems stops (s.ahead 0).kind = false)
    (h : Comes q t (do let first ← roundWithin n; return first ++ (← itemsWithin n stops)) s) :
    Comes q t (itemsWithin (n + 1) stops) s := by
  rw [itemsWithin_succ]
  refine .right (p := peek) rfl ?_
  rw [if_neg (Bool.eq_false_iff.1 hkind)]
  exact h

/-- Reading items comes to the first of them. -/
theorem comes_item (hkind : endsItems stops (s.ahead 0).kind = false) :
    Comes (itemWithin n) s (itemsWithin (n + 1) stops) s := by
  refine comes_rounds hkind (.left ?_)
  refine .right (p := localCount) rfl ?_
  refine @Comes.left _ _ _ _ _ _ _ _ (fun item => ?_) .here
  cases item <;> infer_instance

/-- Reading items comes to those after the first. -/
theorem comes_later {first : List Expr} (hkind : endsItems stops (s.ahead 0).kind = false)
    (hround : roundWithin n s = .ok (first, t)) :
    Comes (itemsWithin n stops) t (itemsWithin (n + 1) stops) s :=
  comes_rounds hkind (.right hround (.left .here))

/-- Reading items comes to the local that the first of them declares. -/
theorem comes_local (hkind : endsItems stops (s.ahead 0).kind = false)
    (hitem : itemWithin n s = .ok (some e, t)) (harrow : (t.ahead 0).kind ≠ .arrow) :
    Comes (localWithin n e) t (itemsWithin (n + 1) stops) s := by
  refine comes_rounds hkind (.left ?_)
  refine .right (p := localCount) rfl (.right hitem (.right (p := check .arrow) rfl ?_))
  rw [if_neg (by simpa using harrow)]
  exact .left .here

-- ===== inner readers

/-- Reading between brackets comes to the items. -/
theorem comes_group {opener closer : Kind} {what : Expected} (hkind : (s.ahead 0).kind = opener)
    (hopener : opener ≠ .eof) :
    Comes (itemsWithin n [closer]) (s.drop 1) (groupWithin (n + 1) opener closer what) s := by
  rw [groupWithin]
  exact .right (p := here) rfl (.right (expect_taken hkind hopener) (.left .here))

/-- Reading a block comes to its items. -/
theorem comes_block (hkind : (s.ahead 0).kind = .lbrace) :
    Comes (itemsWithin n [.rbrace]) (s.drop 1) (blockWithin (n + 1)) s := by
  rw [blockWithin]
  exact .right (p := here) rfl (.right (expect_taken hkind (by decide)) (.left .here))

/-- An item that starts with a brace, a square bracket or the word `foreach`. -/
theorem comes_item_of_kind :
    ((s.ahead 0).kind = .lbrace → Comes (blockWithin n) s (itemWithin (n + 1)) s)
      ∧ ((s.ahead 0).kind = .lbracket →
        Comes (groupWithin n .lbracket .rbracket .bracketClose) s (itemWithin (n + 1)) s)
      ∧ ((s.ahead 0).kind = .foreachKw → Comes (foreachWithin n) s (itemWithin (n + 1)) s) := by
  rw [itemWithin]
  refine ⟨fun hkind => ?_, fun hkind => ?_, fun hkind => ?_⟩
  all_goals
    refine .right (p := here) rfl (.right (p := peek) rfl ?_)
    simp only [hkind, reduceCtorEq, if_false, if_true]
  · exact .left .here
  · exact .left .here
  · exact .here

/-- What a chain starts with: a group in round brackets, or a head. -/
def chainStart (n : Nat) (k : Kind) : Parse Expr :=
  if k = .lparen then groupWithin n .lparen .rparen .expressionClose else headWithin n

/-- An item that is a chain comes to its start and to what follows that. -/
theorem comes_item_chain {start : Span} (hstart : here s = .ok (start, s))
    (hkind : (s.ahead 0).kind = .lparen ∨ startsChain (s.ahead 0).kind = true)
    (h : Comes q t (do
      return some (← chainWithin n (← chainStart n (s.ahead 0).kind) start)) s) :
    Comes q t (itemWithin (n + 1)) s := by
  rw [itemWithin]
  refine .right hstart (.right (p := peek) rfl ?_)
  unfold chainStart at h
  rcases hkind with hkind | hkind
  · simp only [hkind, if_true] at h ⊢
    exact h
  · have hne : ∀ k', startsChain k' = false → (s.ahead 0).kind ≠ k' := by
      rintro k' hk' rfl
      exact Bool.false_ne_true (hk'.symm.trans hkind)
    simp only [hne .lparen rfl, hne .lbrace rfl, hne .lbracket rfl, hne .foreachKw rfl, hkind,
      if_false, if_true] at h ⊢
    exact h

-- ===== chains

/-- One link of a chain. -/
def linkWithin (n : Nat) (e : Expr) (start : Span) : Link → Parse Expr
  | .access conditional => do
    let _ ← advance
    let name ← advance
    let typeArgs ← whenNext .lt typeArgsInExpr
    return .member (← markFrom start) e name.text typeArgs conditional
  | .call => do
    let args ← argumentListWithin n .rparen
    return .call (← markFrom start) e args
  | .element => do
    let args ← argumentListWithin n .rbracket
    return .element (← markFrom start) e args
  | .mark => do
    let _ ← advance
    return e
  | .none => return e

/-- A chain is read link by link. -/
theorem chainWithin_succ (start : Span) : chainWithin (n + 1) e start = (do
    let link ← nextLink
    if link = .none then return e
    chainWithin n (← linkWithin n e start link) start) := by
  rw [chainWithin]
  refine congrArg _ (funext fun link => ?_)
  cases link <;> simp [linkWithin]

/-- A chain that goes on comes to its first link and to the links after it. -/
theorem comes_links {link : Link} {start : Span} (hlink : nextLink s = .ok (link, s))
    (hgoes : link ≠ .none)
    (h : Comes q t (do chainWithin n (← linkWithin n e start link) start) s) :
    Comes q t (chainWithin (n + 1) e start) s := by
  rw [chainWithin_succ]
  refine .right hlink ?_
  rw [if_neg hgoes]
  exact h

-- ===== arguments

/-- Arguments come to the first of them, which comes to its items. -/
theorem comes_arguments {closer : Kind} (hkind : (s.ahead 0).kind = openerOf closer)
    (hsome : ((s.drop 1).ahead 0).kind ≠ closer) :
    Comes (argumentsWithinBrackets n closer) (s.drop 1) (argumentListWithin (n + 1) closer) s := by
  have hopener : openerOf closer ≠ .eof := by
    unfold openerOf
    split <;> decide
  rw [argumentListWithin]
  refine .right (expect_taken hkind hopener) (.left ?_)
  refine .right (p := check closer) rfl ?_
  rw [if_neg (by simpa using hsome)]
  exact .here

/-- An argument comes to its items, behind its name and its modifiers. -/
theorem comes_argument {closer : Kind} (hname : skipArgumentName s = .ok ((), t))
    (hmodifiers : skipArgumentModifiers t = .ok ((), u)) :
    Comes (itemsWithin n [.comma, closer]) u (argumentsWithinBrackets (n + 2) closer) s := by
  rw [argumentsWithinBrackets, argumentWithin]
  refine .left (.right (p := here) rfl (.right hname (.right hmodifiers ?_)))
  refine @Comes.left _ _ _ _ _ _ _ _ (fun items => ?_) .here
  split <;> infer_instance

/-- Arguments come to those after a comma. -/
theorem comes_argument_later {closer : Kind} {arg : Expr}
    (harg : argumentWithin n closer s = .ok (arg, t)) (hcomma : accept .comma t = .ok (true, u)) :
    Comes (argumentsWithinBrackets n closer) u (argumentsWithinBrackets (n + 1) closer) s := by
  rw [argumentsWithinBrackets]
  exact .right harg (.right hcomma (.left .here))

-- ===== initializers

/-- An initializer in braces comes to its items. -/
theorem comes_initializer (hbrace : accept .lbrace s = .ok (true, t)) :
    Comes (itemsWithin n [.rbrace]) t (initializerWithin (n + 1)) s := by
  rw [initializerWithin]
  exact .right hbrace (.left .here)

/-- A declared local comes to its initializer, behind the sign for it. -/
theorem comes_init {type : TypeRef} {name : Token} {nullable : Bool}
    (htype : e.asType? = some type) (hname : declaredName? s = .ok (some (name, nullable), s)) :
    let type := if nullable then { type with nullable := true } else type
    let l : LocalDecl := { name := name.text, span := e.span,
                           type := if type.name = "var" then none else some type }
    let t := s.drop (if nullable then 2 else 1)
    accept .eq { t with locals := t.locals.push l } = .ok (true, u) →
      endsItems [.semi, .comma] (u.ahead 0).kind = false →
      Comes (itemWithin n) u (localWithin (n + 1) e) s := by
  intro type l t heq hkind
  have hlocal : t.locals.size < u.locals.size := by
    rw [(Plain.kept heq).1, Array.size_push]
    exact Nat.lt_succ_self _
  have hstop : ¬((u.ahead 0).kind.isCloser || (u.ahead 0).kind = .semi
      || (u.ahead 0).kind = .comma || (u.ahead 0).kind = .eof) = true := by
    simp only [endsItems, contains_cons, contains_nil] at hkind
    grind
  rw [localWithin]
  simp only [htype]
  refine .right hname (.right (rfl : skip _ s = .ok ((), t)) ?_)
  refine .right (rfl : recordLocal l t = .ok (t.locals.size, _)) ?_
  refine .right heq (.right (p := peek) rfl ?_)
  rw [if_neg hstop]
  exact .initial hlocal .here

-- ===== holes

/-- The head of an interpolated text comes to its holes. -/
theorem comes_holes (hkind : (s.ahead 0).kind = .interpolated) :
    Comes (holesWithin n ((s.ahead 0).holes.getD [])) (s.drop 1) (headWithin (n + 1)) s := by
  have htaken : advance s = .ok (s.ahead 0, s.drop 1) := by
    rw [advance, if_neg (by rw [hkind]; decide)]
  rw [headWithin]
  refine .right (p := here) rfl (.right htaken ?_)
  simp only [hkind]
  exact .left .here

/-- Holes come to the items of the first. -/
theorem comes_hole (hole : List Token) (holes : List (List Token)) :
    Comes (itemsWithin n []) { s with rest := (ParseState.ofTokens hole).rest,
                                      eof := (ParseState.ofTokens hole).eof, last := none }
      (holesWithin (n + 1) (hole :: holes)) s := by
  have heq : withTokens hole (itemsWithin n []) = (do
      let s ← get
      modify fun t => { t with rest := (ParseState.ofTokens hole).rest,
                               eof := (ParseState.ofTokens hole).eof, last := none }
      let a ← itemsWithin n []
      modify fun t => { t with rest := s.rest, eof := s.eof, last := s.last }
      return a) := funext fun _ => rfl
  rw [holesWithin, heq]
  refine @Comes.left _ _ _ _ _ _ _ _ (fun es => ?_) (.right (p := get) rfl ?_)
  · split <;> infer_instance
  · have := Appends.of_modify (f := fun t => { t with rest := s.rest, eof := s.eof, last := s.last })
      fun _ => prefix_rfl
    exact @Comes.right _ _ _ _ _ _ _ _ _ _ (.of_modify fun _ => prefix_rfl) rfl (.left .here)

end

-- ===== examples

/-- A token as it is read, wherever it stands. -/
def Token.placeless (kind : Kind) (text : String) (h : Text.Dotless text) : Token :=
  { kind, text, line := 1, column := 1, start := 0, stop := 0, dotless := fun _ => h }

/-- The finalizer of a type `A`, in which a `foreach` in a block goes over `a + b`. -/
def nestedForeach : ParseState :=
  .ofTokens [.placeless .tilde "~" (by decide), .placeless .ident "A" (by decide),
    .placeless .lparen "(" (by decide), .placeless .rparen ")" (by decide),
    .placeless .lbrace "\x7b" (by decide), .placeless .lbrace "\x7b" (by decide),
    .placeless .foreachKw "foreach" (by decide), .placeless .lparen "(" (by decide),
    .placeless .ident "var" (by decide), .placeless .ident "x" (by decide),
    .placeless .inKw "in" (by decide), .placeless .ident "a" (by decide),
    .placeless .op "+" (by decide), .placeless .ident "b" (by decide),
    .placeless .rparen ")" (by decide), .placeless .lbrace "\x7b" (by decide),
    .placeless .rbrace "\x7d" (by decide), .placeless .rbrace "\x7d" (by decide),
    .placeless .rbrace "\x7d" (by decide), .eof {}]

theorem nestedForeach_comes :
    Comes (foreachWithin 266) (nestedForeach.drop 6) (bareMember "A") nestedForeach := by
  unfold bareMember
  refine .right (rfl : skipSections _ = .ok ((), nestedForeach)) ?_
  refine .right (p := here) rfl (.right (rfl : modifiers _ = .ok ([], nestedForeach)) ?_)
  refine .right (rfl : accept .tilde _ = .ok (true, nestedForeach.drop 1)) ?_
  rw [if_pos rfl]
  refine .right (rfl : expect _ _ _ = .ok (nestedForeach.ahead 1, nestedForeach.drop 2)) ?_
  refine .right (rfl : parameterList .rparen _ = .ok ([], nestedForeach.drop 4)) (.left ?_)
  unfold memberBody
  refine .right (p := check .lbrace) rfl ?_
  rw [if_pos (by decide)]
  refine .left (.right (p := get) rfl ?_)
  rw [show (nestedForeach.drop 4).bound = 272 from by decide]
  refine (comes_block rfl).trans ((comes_item rfl).trans ?_)
  refine (comes_item_of_kind.1 rfl).trans ((comes_block rfl).trans ?_)
  exact (comes_item rfl).trans (comes_item_of_kind.2.2 rfl)

/-- Whether reading ends well, with what passes a test. -/
def Parse.passes (p : Parse α) (s : ParseState) (test : α → ParseState → Bool) : Bool :=
  match p s with
  | .ok (a, s') => test a s'
  | .error _ => false

theorem Parse.exists_of_passes {p : Parse α} {s : ParseState} {test : α → ParseState → Bool}
    (h : p.passes s test = true) : ∃ a s', p s = .ok (a, s') ∧ test a s' = true := by
  unfold passes at h
  split at h
  next a s' hrun => exact ⟨a, s', hrun, h⟩
  next => cases h

/-- The variable of a head, and then the collection. -/
def readHead (n : Nat) : Parse (ParseState × List Expr) := do
  let _ ← itemsWithin n [.inKw, .rparen]
  let named ← get
  let source ← whenTaken .inKw (itemsWithin n [.rparen])
  return (named, source)

theorem nestedForeach_passes :
    (member "A").passes nestedForeach (fun ms _ => ms.length == 1) = true
      ∧ (readHead 265).passes (nestedForeach.drop 8) (fun r s =>
          r.1.locals.toList.map (·.name) == ["x"] && r.2.length == 2 && s.locals.size == 1)
        = true := by
  decide +kernel

/-- The names of the locals of a file's members, and whether each goes over a collection. -/
def SourceFile.localsOf (f : SourceFile) : List (String × Bool) :=
  f.types.flatMap fun t => t.members.flatMap fun m => m.locals.map fun l => (l.name, l.isForeach)

/-- Whether a text is parsed to a file that passes a test. -/
def SourceFile.parses (text : String) (test : SourceFile → Bool) : Bool :=
  match SourceFile.parse text with
  | .ok (f, _) => test f
  | .error _ => false

theorem SourceFile.exists_of_parses {text : String} {test : SourceFile → Bool}
    (h : SourceFile.parses text test = true) :
    ∃ f next, SourceFile.parse text = .ok (f, next) ∧ test f = true := by
  unfold SourceFile.parses at h
  split at h
  next f next hparse => exact ⟨f, next, hparse, h⟩
  next => cases h

theorem lambda_parses :
    SourceFile.parses
      "class A \x7b void M() \x7b foreach (var x in xs.Where(y => y > 0)) \x7b \x7d \x7d \x7d"
      (·.localsOf == [("x", false), ("y", true)]) = true := by
  decide +kernel

-- ===== the variable

/-- The locals of members are those recorded while they are read. -/
theorem member_eq_ok {typeName : String} {s s' : ParseState} {ms : List MemberDecl}
    (h : member typeName s = .ok (ms, s')) : ∃ bare w,
      bareMember typeName { s with locals := #[] } = .ok (bare, w)
        ∧ ∀ m ∈ ms, m.locals = w.locals.toList := by
  obtain ⟨r, w, hr, h⟩ := bind_eq_ok h
  rw [withLocals_eq] at hr
  generalize hbare : bareMember typeName { s with locals := #[] } = x at hr
  cases x with
  | error e => cases hr
  | ok x =>
    cases hr
    cases h
    refine ⟨x.1, x.2, rfl, fun m hm => ?_⟩
    obtain ⟨m', -, rfl⟩ := mem_map.1 hm
    rfl

/-- The variable of a `foreach` takes the collection exactly if the collection declares no locals of
its own; otherwise the last of those takes it, and the variable is left without. -/
theorem foreach_takes_collection {typeName : String} {s s' : ParseState} {ms : List MemberDecl}
    (hread : member typeName s = .ok (ms, s')) {n : Nat} {t opened named read : ParseState}
    (hcomes : Comes (foreachWithin (n + 1)) t (bareMember typeName) { s with locals := #[] })
    {source : List Expr} (hhead : HeadRun n t opened named read source) (hsource : source ≠ [])
    {x : LocalDecl} {inner : List LocalDecl} (hx : named.locals.toList = t.locals.toList ++ [x])
    (hinner : read.locals.toList = named.locals.toList ++ inner) :
    ∃ e before own after, IsCollection source e ∧ before.length = t.locals.size
      ∧ (inner = [] → own = [x.goingOver e])
      ∧ (∀ front last, inner = front ++ [last] → own = x :: front ++ [last.goingOver e])
      ∧ ∀ m ∈ ms, m.locals = before ++ own ++ after := by
  obtain ⟨bare, w, hbare, hlocals⟩ := member_eq_ok hread
  obtain ⟨c, t', hrun, hkept⟩ := hcomes.run hbare
  obtain ⟨e, hcollection, ht'⟩ := hhead.locals_eq hrun hsource hx hinner
  generalize hown : (x :: inner).modify inner.length (·.goingOver e) = own at ht'
  rw [ht', ← Array.length_toList, drop_left] at hkept
  obtain ⟨after, hafter⟩ := hkept
  have hsplit := take_append_drop t.locals.toList.length w.locals.toList
  rw [← hafter] at hsplit
  refine ⟨e, w.locals.toList.take t.locals.toList.length, own, after, hcollection, ?_, ?_, ?_, ?_⟩
  · -- something was recorded behind, so there are as many before
    have hlength := congrArg List.length hafter
    rw [length_append, ← hown, length_modify, length_cons, length_drop]
      at hlength
    rw [length_take, ← Array.length_toList]
    omega
  · rintro rfl
    exact hown.symm
  · rintro front last rfl
    rw [← hown, length_append, length_singleton, modify_succ_cons, List.modify]
    exact congrArg (x :: ·) (modifyTailIdx_add _ 0 front [last])
  · intro m hm
    rw [hlocals m hm, append_assoc]
    exact hsplit.symm

/-- In a finalizer of a type `A`, the variable of a `foreach` in a block goes over `a + b`. -/
theorem foreach_takes_collection_nestedForeach :
    ∃ (m : MemberDecl) (s' : ParseState) (source : List Expr) (x : LocalDecl) (e : Expr)
      (after : List LocalDecl), member "A" nestedForeach = .ok ([m], s') ∧ x.name = "x"
      ∧ source.length = 2 ∧ IsCollection source e ∧ m.locals = x.goingOver e :: after := by
  obtain ⟨ms, s', hread, hone⟩ := exists_of_passes nestedForeach_passes.1
  obtain ⟨m, rfl⟩ := length_eq_one_iff.1 (beq_iff_eq.1 hone)
  obtain ⟨⟨named, source⟩, read, hrun, htest⟩ := exists_of_passes nestedForeach_passes.2
  simp only [Bool.and_eq_true, beq_iff_eq] at htest
  obtain ⟨⟨hnames, htwo⟩, hsize⟩ := htest
  obtain ⟨header, w, hheader, hrun⟩ := bind_eq_ok hrun
  obtain ⟨w', w'', hget, hrun⟩ := bind_eq_ok hrun
  cases hget
  obtain ⟨source', w'', hsource, hrun⟩ := bind_eq_ok hrun
  cases hrun
  have hhead : HeadRun 265 (nestedForeach.drop 6) (nestedForeach.drop 8) named read source :=
    ⟨rfl, ⟨header, hheader⟩, hsource⟩
  obtain ⟨x, hx, hname⟩ := map_eq_singleton_iff.1 hnames
  have hinner : read.locals.toList = named.locals.toList ++ [] := by
    have hadded : named.locals.toList <+: read.locals.toList := Appends.run hsource
    have hlength : named.locals.toList.length = read.locals.toList.length := by
      rw [hx]
      exact hsize.symm
    rw [append_nil, hadded.eq_of_length hlength]
  obtain ⟨e, before, own, after, hcollection, hbefore, hown, -, hlocals⟩ :=
    foreach_takes_collection hread nestedForeach_comes hhead
      (ne_nil_of_length_pos (by omega)) hx hinner
  refine ⟨m, s', source, x, e, after, hread, hname, htwo, hcollection, ?_⟩
  rw [hlocals m mem_cons_self, hown rfl, length_eq_zero_iff.1 hbefore]
  rfl

/-- A lambda in the collection takes it from the variable. -/
theorem foreach_lambda_takes_collection :
    ∃ f next, SourceFile.parse
        "class A \x7b void M() \x7b foreach (var x in xs.Where(y => y > 0)) \x7b \x7d \x7d \x7d"
        = .ok (f, next) ∧ f.localsOf = [("x", false), ("y", true)] := by
  obtain ⟨f, next, hparse, hlocals⟩ := SourceFile.exists_of_parses lambda_parses
  exact ⟨f, next, hparse, beq_iff_eq.1 hlocals⟩

end SourceBundle

/-
The words of what is read. The tokens of a text are words where the
grammar asks for one (`Token.Worded`), so the types, using directives
and namespaces that are read from them are made of names. Whether a name
is reserved cannot be told from the tree, since a mark in front of a
word makes a name of any: a file can be written out again if none of
its words is reserved (`SourceFile.Unreserved`).

A reader is followed by what it draws from worded tokens (`Draws`),
whether it comes to its end or not.
-/
import SourceBundle.Proofs.Parse.Entries
import SourceBundle.Proofs.Parse.Occurrence

namespace SourceBundle

open List hiding splitAt
open Parse Text

/-- A property of words that only names have. -/
class OfNames (W : String → Prop) : Prop where
  isWord {x : String} : W x → IsWord x

instance : OfNames IsWord := ⟨id⟩

instance : OfNames IsPlainName := ⟨And.left⟩

variable {α β : Type} {p : Parse α} {Q : α → Prop} {R : β → Prop} {s t : ParseState} {n : Nat}
  {W : String → Prop}

-- ===== worded tokens

/-- The tokens to come are worded. -/
structure ParseState.Worded (W : String → Prop) (s : ParseState) : Prop where
  rest : ∀ x ∈ s.rest, x.Worded W
  eof : s.eof.Worded W

theorem ParseState.Worded.ahead (h : s.Worded W) (k : Nat) : (s.ahead k).Worded W := by
  rw [ParseState.ahead, getD_eq_getElem?_getD]
  cases hk : s.rest[k]? with
  | none => exact h.eof
  | some x => exact h.rest x (mem_of_getElem? hk)

theorem ParseState.Worded.drop (h : s.Worded W) (k : Nat) : (s.drop k).Worded W where
  rest x hx := by
    rw [ParseState.rest_drop] at hx
    exact h.rest x (mem_of_mem_drop hx)
  eof := by
    rw [ParseState.eof_drop]
    exact h.eof

theorem Goes.worded {j : Nat} {a : α} (h : Goes j s (.ok (a, t))) (hs : s.Worded W) :
    t.Worded W := by
  obtain ⟨k, -, -, hrest, -, heof⟩ := h
  refine ⟨fun x hx => (hs.drop k).rest x (hrest ▸ hx), ?_⟩
  rw [heof]
  exact hs.eof

/-- What a reader gives, if it gives anything, has a property, and the tokens stay worded. -/
def Draws (W : String → Prop) (p : Parse α) (Q : α → Prop) : Prop :=
  ∀ s a t, s.Worded W → p s = .ok (a, t) → t.Worded W ∧ Q a

namespace Draws

theorem pure {a : α} (h : Q a) : Draws W (pure a : Parse α) Q := by
  intro s a t hs hrun
  cases hrun
  exact ⟨hs, h⟩

theorem bind {f : α → Parse β} (hp : Draws W p Q) (hf : ∀ a, Q a → Draws W (f a) R) :
    Draws W (p >>= f) R := by
  intro s b t hs hrun
  obtain ⟨a, w, ha, hb⟩ := bind_eq_ok hrun
  obtain ⟨hw, hQ⟩ := hp s a w hs ha
  exact hf a hQ w b t hw hb

theorem imp {Q' : α → Prop} (hp : Draws W p Q) (h : ∀ a, Q a → Q' a) : Draws W p Q' := by
  intro s a t hs hrun
  obtain ⟨ht, hQ⟩ := hp s a t hs hrun
  exact ⟨ht, h a hQ⟩

theorem ite {c : Prop} [Decidable c] {q : Parse α} (hp : c → Draws W p Q) (hq : ¬c → Draws W q Q) :
    Draws W (if c then p else q) Q := by
  split
  · exact hp ‹_›
  · exact hq ‹_›

theorem failAt (fault : ParseFault) (x : Token) : Draws W (Parse.failAt fault x : Parse α) Q := by
  intro s a t _ hrun
  cases hrun

theorem unexpected (what : Expected) : Draws W (Parse.unexpected what : Parse α) Q := by
  intro s a t _ hrun
  cases hrun

theorem look : Draws W (get : Parse ParseState) (ParseState.Worded W) := by
  intro s a t hs hrun
  cases hrun
  exact ⟨hs, hs⟩

end Draws

-- ===== tokens

theorem draws_peek : Draws W peek (Token.Worded W) :=
  .bind .look fun _ hs => .pure (hs.ahead 0)

theorem draws_check (k : Kind) : Draws W (check k) fun _ => True :=
  .bind draws_peek fun _ _ => .pure trivial

theorem draws_checkBefore (k : Kind) (after : List Kind) :
    Draws W (checkBefore k after) fun _ => True :=
  .bind .look fun _ _ => .pure trivial

theorem draws_checkWord (word : String) : Draws W (checkWord word) fun _ => True :=
  .bind draws_peek fun _ _ => .pure trivial

theorem draws_skip (k : Nat) : Draws W (skip k) fun _ => True := by
  intro s a t hs hrun
  cases hrun
  exact ⟨hs.drop k, trivial⟩

theorem draws_advance : Draws W advance (Token.Worded W) := by
  intro s a t hs hrun
  simp only [advance] at hrun
  split at hrun
  · cases hrun
    exact ⟨hs, hs.ahead 0⟩
  · cases hrun
    exact ⟨hs.drop 1, hs.ahead 0⟩

theorem draws_accept (k : Kind) : Draws W (accept k) fun _ => True :=
  .bind (draws_check k) fun _ _ =>
    .ite (fun _ => .bind draws_advance fun _ _ => .pure trivial) fun _ => .pure trivial

/-- A token that is asked for by its kind. -/
theorem draws_expect (k : Kind) (what : Expected) :
    Draws W (expect k what) fun x => x.Worded W ∧ x.kind = k := by
  intro s a t hs hrun
  obtain ⟨b, w, hb, hrun⟩ := bind_eq_ok hrun
  cases hb
  split at hrun
  next hkind =>
    have hkind : (s.ahead 0).kind = k := of_decide_eq_true hkind
    simp only [advance] at hrun
    split at hrun
    · cases hrun
      exact ⟨hs, hs.ahead 0, hkind⟩
    · cases hrun
      exact ⟨hs.drop 1, hs.ahead 0, hkind⟩
  next => cases hrun

theorem draws_name (what : Expected) : Draws W (expect .ident what) fun x => W x.text :=
  (draws_expect .ident what).imp fun _ hx => hx.1.name hx.2

theorem draws_whenNext (k : Kind) {q : Parse (List β)} {P : List β → Prop} (hq : Draws W q P)
    (hnil : P []) : Draws W (whenNext k q) P :=
  .bind (draws_check k) fun _ _ => .ite (fun _ => hq) fun _ => .pure hnil

theorem draws_here : Draws W here fun _ => True :=
  .bind draws_peek fun _ _ => .pure trivial

theorem draws_spanFrom (start : Span) : Draws W (spanFrom start) fun _ => True :=
  .bind .look fun _ _ => .pure trivial

theorem draws_exhausted : Draws W (exhausted : Parse α) Q :=
  .unexpected _

-- ===== types

/-- A name is one part. -/
theorem splitAt_name {x : String} (h : IsWord x) : splitAt '.' x = [x] := by
  have hsplit : x.toList.splitOn '.' = [x.toList] := splitOn_eq_singleton h.dotless
  rw [splitAt, hsplit, map_singleton, String.ofList_toList]

/-- The parts of two names with a dot between them. -/
theorem splitAt_dot (x y : String) :
    splitAt '.' (x ++ "." ++ y) = splitAt '.' x ++ splitAt '.' y := by
  have hchars : (x ++ "." ++ y).toList = x.toList ++ '.' :: y.toList := by simp
  rw [splitAt, hchars, splitOn_append_cons_self, map_append]
  rfl

/-- A name with its arguments. -/
structure TypeRef.Named (W : String → Prop) (type : TypeRef) : Prop where
  tuple : type.tuple = false
  parts : ∀ x ∈ type.parts, W x
  qualifier : ∀ x ∈ type.qualifier, W x
  args : ∀ a ∈ type.args, a.MadeOf W

theorem TypeRef.Named.madeOf {type : TypeRef} (h : type.Named W) : type.MadeOf W :=
  .named h.tuple h.parts h.qualifier h.args

/-- Suffixes and the span do not count. -/
theorem TypeRef.MadeOf.suffixed {word : String → Prop} {type : TypeRef} (h : type.MadeOf word)
    (rank : Nat) (nullable : Bool) (span : Option Span) :
    { type with rank, nullable, span }.MadeOf word := by
  cases h with
  | tuple htuple hname hne hargs => exact .tuple htuple hname hne hargs
  | predefined htuple hname hargs hqualifier => exact .predefined htuple hname hargs hqualifier
  | named htuple hparts hqualifier hargs => exact .named htuple hparts hqualifier hargs

theorem TypeRef.Named.dotted [OfNames W] {type : TypeRef} (h : type.Named W) {part : String}
    (hpart : W part)
    {args : List TypeRef} (hargs : ∀ a ∈ args, a.MadeOf W) :
    { type with name := type.name ++ "." ++ part, args }.Named W where
  tuple := h.tuple
  parts x hx := by
    rw [TypeRef.parts, splitAt_dot, splitAt_name (OfNames.isWord hpart), mem_append,
      mem_singleton] at hx
    rcases hx with hx | rfl
    · exact h.parts x hx
    · exact hpart
  qualifier := h.qualifier
  args := hargs

/-- Types whose words are names. -/
abbrev WordedTypes (W : String → Prop) (types : List TypeRef) : Prop :=
  ∀ a ∈ types, a.MadeOf W

theorem draws_skipCommas : Draws W skipCommas fun _ => True :=
  .bind .look fun _ _ => draws_skip _

theorem draws_unboundOr {p : Parse (List TypeRef)} (hp : Draws W p (WordedTypes W)) :
    Draws W (unboundOr p) (WordedTypes W) := by
  refine .bind draws_peek fun tok _ => .ite (fun _ => ?_) fun _ => hp
  exact .bind draws_skipCommas fun _ _ => .pure nofun

theorem draws_qualifiedName {tok : Token} (htok : W tok.text) :
    Draws W (qualifiedName tok) fun r => W r.1 ∧ ∀ x ∈ r.2, W x := by
  refine .bind (draws_accept _) fun _ _ => .ite (fun _ => ?_) fun _ => .pure ⟨htok, nofun⟩
  refine .bind (draws_name _) fun name hname => .pure ⟨hname, ?_⟩
  intro x hx
  cases hx
  exact htok

theorem draws_typeHead [OfNames W] {tuple arguments : Parse (List TypeRef)}
    {dotted : TypeRef → Parse TypeRef}
    (htuple : Draws W tuple fun ts => ts ≠ [] ∧ WordedTypes W ts)
    (harguments : Draws W arguments (WordedTypes W))
    (hdotted : ∀ type : TypeRef, type.Named W → Draws W (dotted type) (TypeRef.Named W)) :
    Draws W (typeHead tuple arguments dotted) (TypeRef.MadeOf W) := by
  refine .bind draws_peek fun tok htok => ?_
  split
  · refine .bind draws_advance fun _ _ => .bind htuple fun elements helements => ?_
    exact .bind (draws_expect _ _) fun _ _ => .pure (.tuple rfl rfl helements.1 helements.2)
  next hkind =>
    exact .bind draws_advance fun _ _ => .pure (.predefined rfl (htok.predefined hkind) rfl rfl)
  next hkind =>
    refine .bind draws_advance fun _ _ => ?_
    refine .bind (draws_qualifiedName (htok.name hkind)) fun parts hname => ?_
    obtain ⟨name, qualifier⟩ := parts
    refine .bind (draws_whenNext _ harguments (forall_mem_nil _)) fun args hargs => ?_
    refine (hdotted _ ⟨rfl, fun x hx => ?_, hname.2, hargs⟩).imp fun _ => TypeRef.Named.madeOf
    rw [TypeRef.parts, splitAt_name (OfNames.isWord hname.1), mem_singleton] at hx
    exact hx ▸ hname.1
  · exact .unexpected _

/-- A token that stands after one that is not the last, and is of some kinds. -/
theorem draws_secondOf {k : Kind} {after : List Kind} {f : Token → Parse β} {q : Parse β}
    (hk : k ≠ .eof) (hf : ∀ x : Token, x.Worded W → x.kind ∈ after → Draws W (f x) R)
    (hq : Draws W q R) :
    Draws W (do
      if ← checkBefore k after then
        let _ ← advance
        let x ← advance
        f x
      else q) R := by
  intro s b t hs hrun
  obtain ⟨c, w, hc, hrun⟩ := bind_eq_ok hrun
  cases hc
  split at hrun
  next hc =>
    obtain ⟨hfirst, hsecond⟩ := Bool.and_eq_true_iff.1 hc
    have hfirst : (s.ahead 0).kind = k := of_decide_eq_true hfirst
    obtain ⟨_, w, hadvance, hrun⟩ := bind_eq_ok hrun
    rw [advance_eq (hfirst ▸ hk)] at hadvance
    cases hadvance
    obtain ⟨x, w, hadvance, hrun⟩ := bind_eq_ok hrun
    have hx : x = s.ahead 1 := by
      simp only [advance, ParseState.ahead_drop_one] at hadvance
      split at hadvance <;> cases hadvance <;> rfl
    obtain ⟨hw, hworded⟩ := draws_advance _ x w (hs.drop 1) hadvance
    exact hf x hworded (hx ▸ contains_iff_mem.1 hsecond) w b t hw hrun
  next => exact hq s b t hs hrun

/-- What the readers of types draw within a bound. -/
structure TypesDraw (W : String → Prop) (n : Nat) : Prop where
  type : ∀ allowArray, Draws W (typeWithin n allowArray) (TypeRef.MadeOf W)
  dotted : ∀ type : TypeRef, type.Named W → Draws W (dottedWithin n type) (TypeRef.Named W)
  suffixes : ∀ allowArray (type : TypeRef), type.MadeOf W →
    Draws W (suffixesWithin n allowArray type) (TypeRef.MadeOf W)
  tuple : Draws W (tupleWithin n) fun ts => ts ≠ [] ∧ WordedTypes W ts
  arguments : Draws W (argumentsWithin n) (WordedTypes W)
  types : Draws W (typesWithin n) (WordedTypes W)

namespace TypesDraw

theorem zero : TypesDraw W 0 where
  type _ := draws_exhausted
  dotted _ _ := draws_exhausted
  suffixes _ _ _ := draws_exhausted
  tuple := draws_exhausted
  arguments := draws_exhausted
  types := draws_exhausted

theorem type_succ [OfNames W] (h : TypesDraw W n) (allowArray : Bool) :
    Draws W (typeWithin (n + 1) allowArray) (TypeRef.MadeOf W) := by
  refine .bind draws_here fun start _ => ?_
  refine .bind (draws_typeHead h.tuple h.arguments h.dotted) fun head hhead => ?_
  refine .bind (h.suffixes allowArray head hhead) fun type htype => ?_
  exact .bind (draws_spanFrom start) fun span _ => .pure (htype.suffixed _ _ _)

theorem dotted_succ [OfNames W] (h : TypesDraw W n) (type : TypeRef) (htype : type.Named W) :
    Draws W (dottedWithin (n + 1) type) (TypeRef.Named W) := by
  refine draws_secondOf (by decide) (fun part hpart hkind => ?_) (.pure htype)
  have hname := hpart.name (mem_singleton.1 hkind)
  refine .bind (draws_whenNext _ h.arguments nofun) fun args hargs => ?_
  exact h.dotted _ (htype.dotted hname hargs)

theorem suffixes_succ (h : TypesDraw W n) (allowArray : Bool) (type : TypeRef)
    (htype : type.MadeOf W) :
    Draws W (suffixesWithin (n + 1) allowArray type) (TypeRef.MadeOf W) := by
  refine .bind (draws_check _) fun _ _ => .ite (fun _ => ?_) fun _ => ?_
  · exact .bind draws_advance fun _ _ => h.suffixes _ _ (htype.suffixed _ _ _)
  refine .bind (draws_check _) fun _ _ => .ite (fun _ => ?_) fun _ => ?_
  · exact .bind draws_advance fun _ _ => h.suffixes _ _ htype
  refine .bind (draws_checkBefore _ _) fun _ _ => .ite (fun _ => ?_) fun _ => .pure htype
  refine .bind draws_advance fun _ _ => .bind draws_skipCommas fun _ _ => ?_
  exact .bind (draws_expect _ _) fun _ _ => h.suffixes _ _ (htype.suffixed _ _ _)

theorem tuple_succ (h : TypesDraw W n) :
    Draws W (tupleWithin (n + 1)) fun ts => ts ≠ [] ∧ WordedTypes W ts := by
  refine .bind (h.type true) fun type htype => .bind (draws_accept _) fun _ _ => ?_
  refine .bind (draws_accept _) fun _ _ => .ite (fun _ => ?_) fun _ => ?_
  · refine .bind h.tuple fun more hmore => .pure ⟨nofun, ?_⟩
    exact forall_mem_cons.2 ⟨htype, hmore.2⟩
  · exact .pure ⟨nofun, forall_mem_singleton.2 htype⟩

theorem arguments_succ (h : TypesDraw W n) : Draws W (argumentsWithin (n + 1)) (WordedTypes W) := by
  refine .bind (draws_expect _ _) fun _ _ => .bind (draws_unboundOr h.types) fun args hargs => ?_
  exact .bind (draws_expect _ _) fun _ _ => .pure hargs

theorem types_succ (h : TypesDraw W n) : Draws W (typesWithin (n + 1)) (WordedTypes W) := by
  refine .bind (h.type true) fun type htype => ?_
  refine .bind (draws_accept _) fun _ _ => .ite (fun _ => ?_) fun _ => ?_
  · refine .bind h.types fun more hmore => .pure ?_
    exact forall_mem_cons.2 ⟨htype, hmore⟩
  · exact .pure (forall_mem_singleton.2 htype)

end TypesDraw

theorem typesDraw [OfNames W] (n : Nat) : TypesDraw W n := by
  induction n with
  | zero => exact .zero
  | succ n h =>
    exact ⟨h.type_succ, h.dotted_succ, h.suffixes_succ, h.tuple_succ, h.arguments_succ,
      h.types_succ⟩

theorem draws_typeRef [OfNames W] (allowArray : Bool) :
    Draws W (typeRef allowArray) (TypeRef.MadeOf W) :=
  .bind .look fun s _ => (typesDraw s.bound).type allowArray

-- ===== directives

/-- A directive whose words have a property. -/
structure UsingDirective.MadeOf (word : String → Prop) (d : UsingDirective) : Prop where
  target : d.target.MadeOf word
  aliasName : ∀ a ∈ d.aliasName, word a

theorem draws_acceptWord (word : String) : Draws W (acceptWord word) fun _ => True :=
  .bind (draws_checkWord word) fun _ _ =>
    .ite (fun _ => .bind draws_advance fun _ _ => .pure trivial) fun _ => .pure trivial

theorem draws_usingAlias : Draws W usingAlias fun a => ∀ x ∈ a, W x := by
  intro s a t hs hrun
  obtain ⟨c, w, hc, hrun⟩ := bind_eq_ok hrun
  cases hc
  split at hrun
  next hc =>
    have hfirst : (s.ahead 0).kind = .ident := of_decide_eq_true (Bool.and_eq_true_iff.1 hc).1
    obtain ⟨name, w, hname, hrun⟩ := bind_eq_ok hrun
    rw [advance_eq (by rw [hfirst]; decide)] at hname
    cases hname
    obtain ⟨x, w, hx, hrun⟩ := bind_eq_ok hrun
    cases hrun
    refine ⟨(draws_advance _ x _ (hs.drop 1) hx).1, fun y hy => ?_⟩
    cases hy
    exact (hs.ahead 0).name hfirst
  next =>
    cases hrun
    exact ⟨hs, nofun⟩

theorem draws_usingDirective [OfNames W] : Draws W usingDirective (UsingDirective.MadeOf W) := by
  refine .bind draws_here fun start _ => .bind (draws_acceptWord _) fun _ _ => ?_
  refine .bind (draws_expect _ _) fun _ _ => .bind (draws_accept _) fun _ _ => ?_
  refine .bind draws_usingAlias fun aliasName halias => ?_
  refine .bind (draws_typeRef true) fun target htarget => .bind (draws_expect _ _) fun _ _ => ?_
  exact .bind (draws_spanFrom start) fun span _ => .pure ⟨htarget, halias⟩

-- ===== names

/-- The parts of names with dots between them. -/
theorem splitAt_intercalate {xs : List String} (hxs : ∀ x ∈ xs, IsWord x) (hne : xs ≠ []) :
    splitAt '.' (".".intercalate xs) = xs := by
  have hparts : ∀ l ∈ xs.map String.toList, '.' ∉ l := by
    intro l hl
    obtain ⟨x, hx, rfl⟩ := mem_map.1 hl
    exact (hxs x hx).dotless
  have hne : xs.map String.toList ≠ [] := fun hnil => hne (map_eq_nil_iff.1 hnil)
  rw [splitAt, String.toList_intercalate]
  show (splitOn '.' (['.'].intercalate _)).map _ = _
  rw [splitOn_intercalate '.' hparts hne, map_map]
  simp

theorem draws_namePartsWithin (n : Nat) :
    Draws W (namePartsWithin n) fun xs => ∀ x ∈ xs, W x := by
  induction n with
  | zero => exact draws_exhausted
  | succ n ih =>
    refine .bind (draws_accept _) fun _ _ => .ite (fun _ => ?_) fun _ => .pure nofun
    refine .bind (draws_name _) fun part hpart => .bind ih fun more hmore => .pure ?_
    exact forall_mem_cons.2 ⟨hpart, hmore⟩

theorem draws_namespaceName [OfNames W] :
    Draws W namespaceName fun name => ∀ x ∈ splitAt '.' name, W x := by
  refine .bind (draws_name _) fun first hfirst => ?_
  refine .bind (.bind .look fun s _ => draws_namePartsWithin s.bound) fun more hmore => .pure ?_
  have hall : ∀ x ∈ first.text :: more, W x := forall_mem_cons.2 ⟨hfirst, hmore⟩
  rw [splitAt_intercalate (fun x hx => OfNames.isWord (hall x hx)) (cons_ne_nil _ _)]
  exact hall

-- ===== namespaces

/-- A namespace whose words have a property: those of its name, of its directives, and of the
namespaces in it. -/
inductive NamespaceDecl.MadeOf (word : String → Prop) : NamespaceDecl → Prop
  | intro {m : NamespaceDecl} : (∀ x ∈ splitAt '.' m.name, word x) →
      (∀ d ∈ m.usings, d.MadeOf word) → (∀ inner ∈ m.namespaces, inner.MadeOf word) → m.MadeOf word

/-- What a namespace holds has words with a property. -/
structure NamespaceBody.MadeOf (word : String → Prop) (b : NamespaceBody) : Prop where
  usings : ∀ d ∈ b.usings, d.MadeOf word
  namespaces : ∀ m ∈ b.namespaces, m.MadeOf word

/-- A file whose words have a property: those of its directives and of its namespaces. -/
structure SourceFile.MadeOf (word : String → Prop) (file : SourceFile) : Prop where
  usings : ∀ d ∈ file.usings, d.MadeOf word
  namespaces : ∀ m ∈ file.namespaces, m.MadeOf word

variable {source : List Char} {u w : ParseState} {b : NamespaceBody} {m : NamespaceDecl}

/-- What the readers of namespaces at a bound read from worded tokens. -/
structure NamespacesWorded (W : String → Prop) (source : List Char) (n : Nat) : Prop where
  body : ∀ {s u braced topLevel b}, s.Closed → s.Worded W → 16 * s.weight + 2 ≤ n →
    namespaceBodyWithin source n braced topLevel s = .ok (b, u) → b.MadeOf W
  declaration : ∀ {s u m}, s.Closed → s.Worded W → 16 * s.weight + 1 ≤ n →
    namespaceWithin source n s = .ok (m, u) → m.MadeOf W

namespace NamespacesWorded

theorem entry [OfNames W] (h : NamespacesWorded W source n) (hs : s.Closed) (hw : s.Worded W)
    (hn : 16 * s.weight + 1 ≤ n) (hrun : EntryRun source n s b w) : b.MadeOf W := by
  cases hrun with
  | skipped => exact ⟨nofun, nofun⟩
  | directive _ hrun =>
    exact ⟨forall_mem_singleton.2 (draws_usingDirective _ _ _ hw hrun).2, nofun⟩
  | inner hrun => exact ⟨nofun, forall_mem_singleton.2 (h.declaration hs hw hn hrun)⟩
  | type _ _ => exact ⟨nofun, nofun⟩

theorem body_succ [OfNames W] (h : NamespacesWorded W source n) {braced topLevel : Bool}
    (hs : s.Closed)
    (hw : s.Worded W) (hn : 16 * s.weight + 2 ≤ n + 1)
    (hrun : namespaceBodyWithin source (n + 1) braced topLevel s = .ok (b, u)) :
    b.MadeOf W := by
  obtain ⟨rfl, -, -⟩ | ⟨entry, v, more, hentry, hgo, hmore, rfl⟩ :=
    namespaceBodyWithin_eq_ok hs (by omega) hrun
  · exact ⟨nofun, nofun⟩
  · have hfirst := h.entry hs hw (by omega) hentry
    have := hgo.weight_add_le
    have hrest := h.body (hgo.closed hs) (hgo.worded hw) (by omega) hmore
    exact ⟨forall_mem_append.2 ⟨hfirst.usings, hrest.usings⟩,
      forall_mem_append.2 ⟨hfirst.namespaces, hrest.namespaces⟩⟩

theorem declaration_succ [OfNames W] (h : NamespacesWorded W source n) (hs : s.Closed)
    (hw : s.Worded W)
    (hn : 16 * s.weight + 1 ≤ n + 1) (hrun : namespaceWithin source (n + 1) s = .ok (m, u)) :
    m.MadeOf W := by
  obtain ⟨word, v, v', braced, w, body, _, hword, hname, hgo, hbody, husings, -, hspaces⟩ :=
    namespaceWithin_eq_ok hs (by omega) hrun
  have hv := (draws_expect _ _ _ _ _ hw hword).1
  have := hgo.weight_add_le
  have hinside := h.body (hgo.closed hs) (hgo.worded hw) (by omega) hbody
  exact ⟨(draws_namespaceName _ _ _ hv hname).2, husings ▸ hinside.usings,
    hspaces ▸ hinside.namespaces⟩

end NamespacesWorded

theorem namespacesWorded [OfNames W] (source : List Char) (n : Nat) :
    NamespacesWorded W source n := by
  induction n with
  | zero => exact ⟨fun _ _ hn => absurd hn (by omega), fun _ _ hn => absurd hn (by omega)⟩
  | succ n h => exact ⟨h.body_succ, h.declaration_succ⟩

-- ===== files

theorem draws_skipSections : Draws W skipSections fun _ => True := by
  refine .bind .look fun s _ => ?_
  split
  · exact draws_skip _
  · exact .failAt _ _

theorem draws_modifiers : Draws W modifiers fun _ => True :=
  .bind .look fun _ _ => .bind (draws_skip _) fun _ _ => .pure trivial

theorem draws_typeKeyword : Draws W typeKeyword fun _ => True := by
  refine .bind draws_advance fun tok _ => ?_
  split
  · exact .pure trivial
  · exact .pure trivial
  · exact .pure trivial
  · exact .pure trivial
  · refine .bind (draws_accept _) fun _ _ => .ite (fun _ => .pure trivial) fun _ => ?_
    exact .bind (draws_accept _) fun _ _ => .ite (fun _ => .pure trivial) fun _ => .pure trivial

theorem draws_expectName (what : Expected) : Draws W (expectName what) fun x => W x.1 := by
  refine .bind draws_peek fun tok htok => ?_
  split
  next hkind => exact .bind draws_advance fun _ _ => .pure (htok.name hkind)
  next => exact .unexpected _

/-- The name that a header gives. -/
theorem typeOpening_named {header : TypeHeader} (hs : s.Worded W)
    (hrun : typeOpening s = .ok (some header, t)) : W header.name := by
  obtain ⟨_, v, hsections, hrun⟩ := bind_eq_ok hrun
  have hv := (draws_skipSections _ _ _ hs hsections).1
  obtain ⟨start, _, hstart, hrun⟩ := bind_eq_ok hrun
  cases hstart
  obtain ⟨marks, w, hmarks, hrun⟩ := bind_eq_ok hrun
  have hw := (draws_modifiers _ _ _ hv hmarks).1
  obtain ⟨_, _, hcheck, hrun⟩ := bind_eq_ok hrun
  cases hcheck
  split at hrun
  · obtain ⟨_, _, -, hrun⟩ := bind_eq_ok hrun
    cases hrun
  obtain ⟨_, _, hat, hrun⟩ := bind_eq_ok hrun
  cases hat
  split at hrun
  · obtain ⟨header, _, hheader, hrun⟩ := bind_eq_ok hrun
    cases hrun
    -- the name stands right after the keyword
    obtain ⟨keyword, v, hkeyword, hheader⟩ := bind_eq_ok hheader
    have hv := (draws_typeKeyword _ _ _ hw hkeyword).1
    obtain ⟨name, _, hname, hheader⟩ := bind_eq_ok hheader
    have hname := (draws_expectName _ _ _ _ hv hname).2
    obtain ⟨_, _, -, hheader⟩ := bind_eq_ok hheader
    obtain ⟨_, _, -, hheader⟩ := bind_eq_ok hheader
    obtain ⟨_, _, -, hheader⟩ := bind_eq_ok hheader
    obtain ⟨_, _, -, hheader⟩ := bind_eq_ok hheader
    cases hheader
    exact hname
  · cases hrun

/-- A declaration that is read from worded tokens has a name. -/
theorem Arises.named {d : TypeDecl} (h : Arises source s d) (hs : s.Worded W) : W d.name := by
  obtain ⟨n, v, u, hgo, -, hn, hrun⟩ := h
  obtain ⟨n, rfl⟩ : ∃ m, n = m + 1 := ⟨n - 1, by omega⟩
  obtain ⟨header, w, -, body, span, hopening, -, rfl, -⟩ := typeDeclarationWithin_eq_ok hrun
  have hv := hgo.worded hs
  exact typeOpening_named (s := { v with locals := #[] }) ⟨hv.rest, hv.eof⟩ hopening

/-- The tokens of a text, before any is taken. -/
theorem worded_ofTokens {ts : List Token} {first : Nat} (h : ∀ t ∈ ts, t.Worded W) :
    (ParseState.ofTokens ts first).Worded W := by
  refine ⟨h, ?_⟩
  show (ts.getLastD default).Worded W
  rw [getLastD_eq_getLast?]
  cases hlast : ts.getLast? with
  | none => exact ⟨nofun, nofun⟩
  | some x => exact h x (mem_of_getLast? hlast)

/-- What is read as a file has the words of its tokens, and so have its declarations. -/
theorem SourceFile.worded_of_tokens [OfNames W] {ts : List Token} {first : Nat} {file : SourceFile}
    (hts : Token.Closed ts) (h : ∀ t ∈ ts, t.Worded W)
    (hrun : sourceFile source (.ofTokens ts first) = .ok (file, u)) :
    file.MadeOf W ∧ ∀ d, file.Declares d → W d.name := by
  have hw : (ParseState.ofTokens ts first).Worded W := worded_ofTokens h
  have hclosed : (ParseState.ofTokens ts first).Closed :=
    closed_ofTokens (s := .ofTokens ts first) hts
  refine ⟨?_, fun d hd => (sourceFile_arises hclosed hrun hd).named hw⟩
  obtain ⟨body, v, hbody, husings, -, hspaces⟩ := sourceFile_eq_ok hrun
  have hmade := (namespacesWorded _ _).body hclosed hw (ParseState.weight_add_two_le_bound _) hbody
  exact ⟨husings ▸ hmade.usings, hspaces ▸ hmade.namespaces⟩

/-- What is read as a file has names for words, and so have its declarations. -/
theorem SourceFile.parse_worded {text : String} {first next : Nat} {file : SourceFile}
    (h : SourceFile.parse text first = .ok (file, next)) :
    file.MadeOf IsWord ∧ ∀ d, file.Declares d → IsWord d.name := by
  obtain ⟨ts, u, htokens, hrun, -⟩ := parse_eq_ok_iff.1 h
  exact worded_of_tokens (tokensOf_closed htokens) (tokensOf_worded htokens) hrun

end SourceBundle

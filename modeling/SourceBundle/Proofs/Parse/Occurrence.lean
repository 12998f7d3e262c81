/-
Where the declarations of a file come from. Whatever a file, a namespace
or a type declares was read by `typeDeclarationWithin` from some place
of the tokens, at which a declaration was seen to start.
-/
import SourceBundle.Proofs.Parse.Files

namespace SourceBundle

open List Parse

variable {α β : Type} {source : List Char} {s t u w : ParseState} {d e : TypeDecl}

-- ===== declarations of

/-- A declaration stands in another: it is that one, or nested in it. -/
inductive TypeDecl.Inside (d : TypeDecl) : TypeDecl → Prop
  | self : d.Inside d
  | nested {e inner : TypeDecl} : inner ∈ e.nested → d.Inside inner → d.Inside e

/-- A declaration stands in a namespace or in one inside it. -/
inductive NamespaceDecl.Declares (d : TypeDecl) : NamespaceDecl → Prop
  | type {n : NamespaceDecl} {e : TypeDecl} : e ∈ n.types → d.Inside e → Declares d n
  | inner {n inner : NamespaceDecl} : inner ∈ n.namespaces → Declares d inner → Declares d n

/-- A declaration stands in a file: at file level, in a namespace, or nested in a type. -/
inductive SourceFile.Declares (file : SourceFile) (d : TypeDecl) : Prop
  | type {e : TypeDecl} : e ∈ file.types → d.Inside e → file.Declares d
  | inner {n : NamespaceDecl} : n ∈ file.namespaces → n.Declares d → file.Declares d

-- ===== from where

/-- A declaration is read at some place from a state on, at which one is seen to start. -/
def Arises (source : List Char) (s : ParseState) (d : TypeDecl) : Prop :=
  ∃ n w u, Goes 0 s (.ok ((), w)) ∧ startsTypeDeclaration w.rest = true ∧ 16 * w.weight + 1 ≤ n
    ∧ typeDeclarationWithin source n w = .ok (some d, u)

theorem Arises.from {j : Nat} {a : α} (h : Arises source w d) (hgo : Goes j s (.ok (a, w))) :
    Arises source s d := by
  obtain ⟨n, v, u, hv, hstarts, hn, hrun⟩ := h
  exact ⟨n, v, u, (hgo.trans hv).mono (Nat.zero_le _), hstarts, hn, hrun⟩

theorem Goes.of_locals {j : Nat} {a : α} {locals : Array LocalDecl}
    (h : Goes j { s with locals } (.ok (a, u))) : Goes j s (.ok (a, u)) := by
  obtain ⟨k, hj, hk, hrest, hlast, heof⟩ := h
  refine ⟨k, hj, hk, ?_, ?_, heof⟩
  · rw [hrest, ParseState.rest_drop, ParseState.rest_drop]
  · rw [hlast]
    cases k <;> rfl

/-- The steps of reading what stands between the braces of a type. -/
theorem typeBodyWithin_eq_ok {n : Nat} {name : String} {body : List MemberDecl × List TypeDecl}
    (hrun : typeBodyWithin source (n + 1) name s = .ok (body, u)) :
    body = ([], [])
    ∨ ((s.ahead 0).kind = .semi ∧ typeBodyWithin source n name (s.drop 1) = .ok (body, u))
    ∨ (∃ d? w rest, startsTypeDeclaration s.rest = true
        ∧ typeDeclarationWithin source n s = .ok (d?, w)
        ∧ typeBodyWithin source n name w = .ok (rest, u) ∧ body = (rest.1, d?.toList ++ rest.2))
    ∨ (∃ ms w rest, member name s = .ok (ms, w) ∧ typeBodyWithin source n name w = .ok (rest, u)
        ∧ body = (ms ++ rest.1, rest.2)) := by
  rw [typeBodyWithin] at hrun
  obtain ⟨isClose, w, hclose, hrun⟩ := bind_eq_ok hrun
  cases hclose
  obtain ⟨isEnd, w, hend, hrun⟩ := bind_eq_ok hrun
  cases hend
  split at hrun
  · cases hrun
    exact .inl rfl
  obtain ⟨isSemi, w, hsemi, hrun⟩ := bind_eq_ok hrun
  rw [accept_eq (by decide)] at hsemi
  split at hsemi
  next hkind =>
    cases hsemi
    exact .inr (.inl ⟨hkind, hrun⟩)
  cases hsemi
  obtain ⟨s', w, hget, hrun⟩ := bind_eq_ok hrun
  cases hget
  split at hrun
  next hstarts =>
    obtain ⟨d?, w, hdecl, hrun⟩ := bind_eq_ok hrun
    obtain ⟨rest, w', hrest, hrun⟩ := bind_eq_ok hrun
    cases hrun
    exact .inr (.inr (.inl ⟨d?, w, rest, hstarts, hdecl, hrest, rfl⟩))
  next =>
    obtain ⟨ms, w, hmember, hrun⟩ := bind_eq_ok hrun
    obtain ⟨rest, w', hrest, hrun⟩ := bind_eq_ok hrun
    cases hrun
    exact .inr (.inr (.inr ⟨ms, w, rest, hmember, hrest, rfl⟩))

/-- Whatever stands in the declarations read at a bound was read at some place. -/
structure DeclarationsArise (source : List Char) (n : Nat) : Prop where
  declaration : ∀ {s u e}, s.Closed → 16 * s.weight + 1 ≤ n → startsTypeDeclaration s.rest = true →
    typeDeclarationWithin source n s = .ok (some e, u) → ∀ d, d.Inside e → Arises source s d
  body : ∀ {s u name body}, s.Closed → 16 * s.weight + 2 ≤ n →
    typeBodyWithin source n name s = .ok (body, u) →
    ∀ e ∈ body.2, ∀ d, d.Inside e → Arises source s d

namespace DeclarationsArise

variable {n : Nat}

theorem declaration_succ (h : DeclarationsArise source n) (hs : s.Closed)
    (hn : 16 * s.weight + 1 ≤ n + 1) (hstarts : startsTypeDeclaration s.rest = true)
    (hrun : typeDeclarationWithin source (n + 1) s = .ok (some e, u)) (hd : d.Inside e) :
    Arises source s d := by
  cases hd with
  | self => exact ⟨n + 1, s, u, .stay hs, hstarts, hn, hrun⟩
  | @nested _ inner hinner hd =>
    obtain ⟨header, w, v, body, span, hopening, hmembers, rfl, rfl⟩ :=
      typeDeclarationWithin_eq_ok hrun
    have hgo := (sim_typeOpening (M := .same) (n := 16 * s.weight) (k := 0)).goes
      (s := { s with locals := #[] }) ⟨hs.rest, hs.eof⟩ (fun _ _ => Nat.zero_le _) (Nat.le_refl _)
    rw [hopening] at hgo
    have hgo := hgo.of_locals
    have hw := hgo.closed hs
    have hweight := hgo.weight_add_le
    have hnested : ∀ {body : List MemberDecl × List TypeDecl} {v : ParseState},
        (w.ahead 0).kind = .lbrace → inner ∈ body.2 →
        typeInner header.keyword (typeBodyWithin source n header.name) (w.drop 1) = .ok (body, v) →
        Arises source s d := by
      intro body v hopen hmem hinner
      have hne : (w.ahead 0).kind ≠ .eof := by rw [hopen]; decide
      have := hw.weight_drop_one
      unfold typeInner at hinner
      split at hinner
      · obtain ⟨_, _, -, hpure⟩ := bind_eq_ok hinner
        cases hpure
        cases hmem
      · exact ((h.body (hw.drop_one hne) (by omega) hinner inner hmem d hd).from
          (Goes.take hw hne)).from hgo
    cases typeMembers_eq_ok_iff.1 hmembers with
    | braces hopen hblock _ _ => exact hnested hopen hinner hblock
    | bracesSemi hopen hblock _ _ => exact hnested hopen hinner hblock
    | semi _ => cases hinner

theorem body_succ (h : DeclarationsArise source n) {name : String}
    {body : List MemberDecl × List TypeDecl} (hs : s.Closed) (hn : 16 * s.weight + 2 ≤ n + 1)
    (hrun : typeBodyWithin source (n + 1) name s = .ok (body, u)) (he : e ∈ body.2)
    (hd : d.Inside e) : Arises source s d := by
  obtain rfl | ⟨hsemi, hrest⟩ | ⟨d?, w, rest, hstarts, hdecl, hrest, rfl⟩
    | ⟨ms, w, rest, hmember, hrest, rfl⟩ := typeBodyWithin_eq_ok hrun
  · cases he
  · have hne : (s.ahead 0).kind ≠ .eof := by rw [hsemi]; decide
    have := hs.weight_drop_one
    exact (h.body (hs.drop_one hne) (by omega) hrest e he d hd).from (Goes.take hs hne)
  · have hgo := ((declarationSim (Pairing.same_texts source) n).declaration 0).goes hs
      (fun _ _ => Nat.zero_le _) (by omega)
    rw [hdecl] at hgo
    have := hgo.weight_add_le
    rcases mem_append.1 he with he | he
    · rw [Option.mem_toList] at he
      subst he
      exact h.declaration hs (by omega) hstarts hdecl d hd
    · exact (h.body (hgo.closed hs) (by omega) hrest e he d hd).from hgo
  · have hgo : Goes 1 s (member name s) :=
      (sim_member (M := .same) (n := n) (k := 0)).goes hs (fun _ _ => Nat.zero_le _) (by omega)
    rw [hmember] at hgo
    have := hgo.weight_add_le
    exact (h.body (hgo.closed hs) (by omega) hrest e he d hd).from hgo

end DeclarationsArise

theorem declarationsArise (source : List Char) : ∀ n, DeclarationsArise source n
  | 0 => ⟨fun _ hn => by omega, fun _ hn => by omega⟩
  | n + 1 =>
    have h := declarationsArise source n
    ⟨fun hs hn hstarts hrun _ hd => h.declaration_succ hs hn hstarts hrun hd,
      fun hs hn hrun _ he _ hd => h.body_succ hs hn hrun he hd⟩

theorem typeDeclaration_arises {d? : Option TypeDecl} (hs : s.Closed)
    (hstarts : startsTypeDeclaration s.rest = true)
    (hrun : typeDeclaration source s = .ok (d?, u)) (he : e ∈ d?.toList) (hd : d.Inside e) :
    Arises source s d := by
  rw [Option.mem_toList] at he
  subst he
  rw [typeDeclaration_eq] at hrun
  exact (declarationsArise source s.bound).declaration hs s.weight_lt_bound hstarts hrun d hd

-- ===== namespaces

/-- Whatever a namespace holds was read at some place. -/
structure NamespaceBody.Arise (source : List Char) (s : ParseState) (b : NamespaceBody) : Prop where
  types : ∀ e ∈ b.types, ∀ d, d.Inside e → Arises source s d
  namespaces : ∀ n ∈ b.namespaces, ∀ d, n.Declares d → Arises source s d

theorem NamespaceBody.Arise.from {j : Nat} {a : α} {b : NamespaceBody} (h : b.Arise source w)
    (hgo : Goes j s (.ok (a, w))) : b.Arise source s :=
  ⟨fun e he d hd => (h.types e he d hd).from hgo,
    fun n hn d hd => (h.namespaces n hn d hd).from hgo⟩

/-- What the readers of namespaces at a bound read was read at some place. -/
structure NamespacesArise (source : List Char) (n : Nat) : Prop where
  body : ∀ {s u braced topLevel b}, s.Closed → 16 * s.weight + 2 ≤ n →
    namespaceBodyWithin source n braced topLevel s = .ok (b, u) → b.Arise source s
  declaration : ∀ {s u m}, s.Closed → 16 * s.weight + 1 ≤ n →
    namespaceWithin source n s = .ok (m, u) → ∀ d, m.Declares d → Arises source s d

namespace NamespacesArise

variable {n : Nat} {braced topLevel : Bool} {b : NamespaceBody} {m : NamespaceDecl}

theorem entry (h : NamespacesArise source n) (hs : s.Closed) (hn : 16 * s.weight + 1 ≤ n)
    (hrun : EntryRun source n s b w) : b.Arise source s := by
  have hnone : ∀ {P : Prop} {α : Type} {a : α}, a ∈ [] → P := fun h => (not_mem_nil h).elim
  cases hrun with
  | skipped => exact ⟨fun _ => hnone, fun _ => hnone⟩
  | directive _ _ => exact ⟨fun _ => hnone, fun _ => hnone⟩
  | inner hrun =>
    refine ⟨fun _ => hnone, fun m hm d hd => ?_⟩
    cases mem_singleton.1 hm
    exact h.declaration hs hn hrun d hd
  | type hstarts hrun =>
    exact ⟨fun e he d hd => typeDeclaration_arises hs hstarts hrun he hd, fun _ => hnone⟩

theorem body_succ (h : NamespacesArise source n) (hs : s.Closed) (hn : 16 * s.weight + 2 ≤ n + 1)
    (hrun : namespaceBodyWithin source (n + 1) braced topLevel s = .ok (b, u)) :
    b.Arise source s := by
  obtain ⟨rfl, -, -⟩ | ⟨entry, w, more, hentry, hgo, hmore, rfl⟩ :=
    namespaceBodyWithin_eq_ok hs (by omega) hrun
  · exact ⟨fun _ he => (not_mem_nil he).elim, fun _ hm => (not_mem_nil hm).elim⟩
  · have hfirst := h.entry hs (by omega) hentry
    have := hgo.weight_add_le
    have hrest := (h.body (hgo.closed hs) (by omega) hmore).from hgo
    refine ⟨fun e he => ?_, fun m hm => ?_⟩
    · exact (mem_append.1 he).elim (hfirst.types e) (hrest.types e)
    · exact (mem_append.1 hm).elim (hfirst.namespaces m) (hrest.namespaces m)

theorem declaration_succ (h : NamespacesArise source n) (hs : s.Closed)
    (hn : 16 * s.weight + 1 ≤ n + 1) (hrun : namespaceWithin source (n + 1) s = .ok (m, u)) :
    ∀ d, m.Declares d → Arises source s d := by
  obtain ⟨_, _, _, braced, v, body, _, -, -, hgo, hbody, -, htypes, hspaces⟩ :=
    namespaceWithin_eq_ok hs (by omega) hrun
  have := hgo.weight_add_le
  have harise := (h.body (hgo.closed hs) (by omega) hbody).from hgo
  intro d hd
  cases hd with
  | type he hd => exact harise.types _ (htypes ▸ he) d hd
  | inner hm hd => exact harise.namespaces _ (hspaces ▸ hm) d hd

end NamespacesArise

theorem namespacesArise (source : List Char) : ∀ n, NamespacesArise source n
  | 0 => ⟨fun _ hn => absurd hn (by omega), fun _ hn => absurd hn (by omega)⟩
  | n + 1 =>
    have h := namespacesArise source n
    ⟨h.body_succ, h.declaration_succ⟩

/-- Whatever a file declares was read at some place of its tokens. -/
theorem sourceFile_arises {file : SourceFile} (hs : s.Closed)
    (hrun : sourceFile source s = .ok (file, u)) (hd : file.Declares d) : Arises source s d := by
  obtain ⟨body, w, hbody, -, htypes, hspaces⟩ := sourceFile_eq_ok hrun
  have harise := (namespacesArise source _).body hs s.weight_add_two_le_bound hbody
  cases hd with
  | type he hd => exact harise.types _ (htypes ▸ he) d hd
  | inner hm hd => exact harise.namespaces _ (hspaces ▸ hm) d hd

end SourceBundle

/-
Using directives and the names of namespaces as they are written out. A
legible import, which names a legible type, is written as a directive
(`Import.render`) that is read as a directive again: of that type, under
its alias, and of static members if it has no alias. A dotted name is
read as the name of a namespace.
-/
import SourceBundle.Import
import SourceBundle.Proofs.Parse.Written

namespace SourceBundle

open List Parse Text TypeRef

variable {u : List Sign} {n : Nat} {e : Sign} {t : TypeRef}

-- ===== directives

/-- An import whose target is the text of a legible type, under a plain name if it has an alias. -/
def Import.Legible (i : Import) : Prop :=
  (∃ t : TypeRef, t.Legible ∧ i.name = t.text) ∧ ∀ a ∈ i.aliasName, IsPlainName a

/-- What stands in a directive before its target. -/
def openingSigns : (aliasName : Option String) → (isStatic : Bool) → List Sign
  | some a, _ => [wordSign a, (.eq, "=")]
  | none, true => [(.staticKw, "static")]
  | none, false => []

/-- How that is written. -/
def openingText : (aliasName : Option String) → (isStatic : Bool) → List Char
  | some a, _ => [' '] ++ a.toList ++ ([' '] ++ ['='])
  | none, true => [' '] ++ "static".toList
  | none, false => []

/-- The signs of a using directive. -/
def usingSigns (aliasName : Option String) (isStatic : Bool) (t : TypeRef) : List Sign :=
  (.usingKw, "using") :: (openingSigns aliasName isStatic ++ (t.signs ++ [(.semi, ";")]))

/-- The target of a directive up to its end. -/
theorem TypeRef.Legible.piece_target (h : t.Legible) :
    Piece ([' '] ++ t.text.toList ++ [';']) (t.signs ++ [(.semi, ";")]) (Opens (· = ' '))
      fun _ => True :=
  (h.spelt.spaced (fun _ => StartsType.endsGap) t.signs_ne_nil).append
    (.stop ';' .semi (by decide) rfl) fun _ h => h.of_eq (by decide)

/-- What stands in a directive after its word. -/
theorem piece_usingRest {aliasName : Option String} (isStatic : Bool) (ht : t.Legible)
    (halias : ∀ a ∈ aliasName, IsPlainName a) :
    Piece (openingText aliasName isStatic ++ ([' '] ++ t.text.toList ++ [';']))
      (openingSigns aliasName isStatic ++ (t.signs ++ [(.semi, ";")])) (Opens (· = ' '))
      fun _ => True := by
  cases aliasName with
  | some a =>
    have hword := (Piece.word (halias a rfl).1).spaced (fun _ => endsGap_of_isNameStart) nofun
    have hequals := (Piece.joining '=' .eq (by decide) rfl).spaced
      (fun _ h => h ▸ by decide) nofun
    exact (hword.append hequals fun _ h => h.of_eq (by decide)).append ht.piece_target fun _ h =>
      h.of_eq (by decide)
  | none =>
    cases isStatic with
    | true =>
      have hword := (Piece.keyword "static" .staticKw (by decide) (by decide +kernel)).spaced
        (fun _ => endsGap_of_isNameStart) nofun
      exact hword.append ht.piece_target fun _ h => h.of_eq (by decide)
    | false => exact ht.piece_target

/-- An import of a legible type is written as a directive. -/
theorem Import.piece_render {i : Import} (ht : t.Legible) (hname : i.name = t.text)
    (halias : ∀ a ∈ i.aliasName, IsPlainName a) :
    Piece i.render.toList (usingSigns i.aliasName i.isStatic t) (Opens (isNameStart · = true))
      fun _ => True := by
  have hword := Piece.keyword "using" .usingKw (by decide) (by decide +kernel)
  have hchars : i.render.toList = "using".toList
      ++ (openingText i.aliasName i.isStatic ++ ([' '] ++ t.text.toList ++ [';'])) := by
    rw [Import.render, hname]
    cases i.aliasName with
    | some a => simp [openingText, String.toList_append]
    | none => cases i.isStatic <;> simp [openingText, String.toList_append]
  rw [hchars]
  exact hword.append (piece_usingRest i.isStatic ht halias) fun _ h => h.of_eq (by decide)

theorem leaves_acceptWord (word : String) (he : e.1 ≠ .ident) :
    Takes (acceptWord word) [] (e :: u) (· = false) := by
  refine .andThen (takes_checkWord word) fun b hb => ?_
  rw [hb, decide_eq_false he, Bool.false_and, if_neg (by simp)]
  exact .pure rfl

/-- No equals sign follows the first sign of a target if that is a name. -/
theorem TypeRef.Legible.front (h : t.Legible) :
    ∃ e v, t.signs ++ (.semi, ";") :: u = e :: v
      ∧ (e.1 ≠ .ident ∨ ∃ f w, v = f :: w ∧ f.1 ≠ .eq) := by
  cases h with
  | tuple htuple _ _ _ =>
    rw [signs_tuple htuple]
    exact ⟨_, _, rfl, .inl (by decide)⟩
  | predefined htuple hname hargs hqualifier =>
    have hall : ∀ x ∈ predefinedTypes, (wordSign x).1 ≠ .ident := by decide +kernel
    rw [signs_named htuple, parts_of_predefined hname, hqualifier]
    exact ⟨_, _, rfl, .inl (hall t.name hname)⟩
  | named htuple hname hqualifier _ =>
    obtain ⟨x, xs, hsplit⟩ := exists_cons_of_splitAt t.name
    rw [signs_named htuple, TypeRef.parts, hsplit]
    cases t.qualifier with
    | some a => exact ⟨_, _, rfl, .inr ⟨_, _, rfl, by decide⟩⟩
    | none =>
      obtain ⟨f, w, hsuffix, hf⟩ :=
        suffixSigns_front (e := (.semi, ";")) (u := u) t.nullable t.rank (by decide)
      obtain ⟨f', w', hparts, hf'⟩ := partSigns_front (u := w) xs t.args hf
      have hkinds : ∀ k ∈ nameEndKinds, k ≠ .eq := by decide
      refine ⟨wordSign x, f' :: w', ?_, .inr ⟨f', w', rfl, hkinds f'.1 hf'⟩⟩
      rw [← hparts, ← hsuffix]
      simp [qualifierSigns, dottedSigns]

theorem leaves_usingAlias (h : t.Legible) :
    Takes usingAlias [] (t.signs ++ (.semi, ";") :: u) (· = none) := by
  obtain ⟨e, v, hsigns, he⟩ := h.front (u := u)
  rw [hsigns]
  have hcheck : Takes (checkBefore .ident [.eq]) [] (e :: v) (· = false) := by
    rcases he with he | ⟨f, w, rfl, hf⟩
    · exact takes_checkBefore_other _ he
    · refine (takes_checkBefore .ident [.eq]).imp fun b hb => ?_
      rw [hb]
      simp [hf]
  refine .andThen hcheck fun b hb => ?_
  rw [hb, if_neg (by simp)]
  exact .pure rfl

theorem takes_usingAlias {a : String} (ha : IsPlainName a) :
    Takes usingAlias [wordSign a, (.eq, "=")] u (· = some a) := by
  have hkind : (wordSign a).1 = .ident := ha.2
  refine .andThen (takes_checkBefore .ident [.eq]) fun b hb => ?_
  rw [hb, hkind, if_pos (by decide)]
  refine .bind [_] (takes_advance (by rw [hkind]; decide)) fun name hname => ?_
  refine .bind [_] (takes_advance (by decide)) fun _ _ => ?_
  rw [Token.text_of_sign hname]
  exact .pure rfl

/-- A directive with this alias and target. No directive is written with `static` and an alias. -/
structure IsDirective (aliasName? : Option String) (static : Bool) (t : TypeRef)
    (d : UsingDirective) : Prop where
  aliasName : d.aliasName = aliasName?
  isStatic : d.isStatic = (aliasName?.isNone && static)
  target : Alike d.target t

/-- The signs of a directive are read as a directive. -/
theorem takes_usingDirective {aliasName : Option String} (isStatic : Bool) (ht : t.Legible)
    (halias : ∀ a ∈ aliasName, IsPlainName a) :
    Takes usingDirective (usingSigns aliasName isStatic t) u
      (IsDirective aliasName isStatic t) := by
  have htarget : ∀ start isGlobal, Takes (do
      let target ← typeRef
      let _ ← expect .semi .usingEnd
      return { target, aliasName, isStatic := aliasName.isNone && isStatic, isGlobal,
               span := some (← spanFrom start) }
      : Parse UsingDirective) (t.signs ++ [(.semi, ";")]) u (IsDirective aliasName isStatic t) := by
    intro start isGlobal
    refine .bind _ (ht.takes_typeRef (by decide)) fun _ htarget => ?_
    refine .bind [_] (takes_expect _ rfl (by decide)) fun _ _ => ?_
    exact .andThen (takes_spanFrom start) fun _ _ => .pure ⟨rfl, rfl, htarget⟩
  refine .andThen takes_here fun start _ => ?_
  refine .andThen (leaves_acceptWord "global" (by decide)) fun isGlobal _ => ?_
  refine .bind [_] (takes_expect _ rfl (by decide)) fun _ _ => ?_
  cases aliasName with
  | some a =>
    have ha := halias a rfl
    have hkind : (wordSign a).1 ≠ .staticKw := by
      rw [show (wordSign a).1 = .ident from ha.2]
      decide
    refine .andThen (leaves_accept hkind (by decide)) ?_
    rintro _ rfl
    refine .bind [_, _] (takes_usingAlias ha) ?_
    rintro _ rfl
    exact htarget start isGlobal
  | none =>
    have hplain : Takes usingAlias [] (t.signs ++ [(.semi, ";")] ++ u) (· = none) := by
      rw [append_assoc]
      exact leaves_usingAlias ht
    cases isStatic with
    | true =>
      refine .bind [_] (takes_accept rfl (by decide)) ?_
      rintro _ rfl
      refine .andThen hplain ?_
      rintro _ rfl
      exact htarget start isGlobal
    | false =>
      obtain ⟨e, v, hsigns, he⟩ := ht.reread.starts
      have hkinds : ∀ k ∈ typeStartKinds, k ≠ .staticKw := by decide
      refine .andThen (Q := (· = false)) ?_ ?_
      · rw [hsigns]
        exact leaves_accept (hkinds e.1 he) (by decide)
      · rintro _ rfl
        refine .andThen hplain ?_
        rintro _ rfl
        exact htarget start isGlobal

-- ===== namespace names

theorem takes_namePartsWithin {xs : List String} (hxs : ∀ x ∈ xs, IsPlainName x)
    (hn : xs.length < n) (he : e.1 ≠ .dot) :
    Takes (namePartsWithin n) (partSigns xs) (e :: u) (· = xs) := by
  induction xs generalizing n with
  | nil =>
    obtain ⟨n, rfl⟩ : ∃ m, n = m + 1 := ⟨n - 1, by omega⟩
    rw [namePartsWithin]
    refine .andThen (leaves_accept he (by decide)) fun b hb => ?_
    rw [hb, if_neg (by simp)]
    exact .pure rfl
  | cons x xs ih =>
    rw [length_cons] at hn
    obtain ⟨n, rfl⟩ : ∃ m, n = m + 1 := ⟨n - 1, by omega⟩
    have hx : (wordSign x).1 = .ident := (hxs x (mem_cons_self ..)).2
    rw [namePartsWithin, partSigns]
    refine .bind [_] (takes_accept rfl (by decide)) fun b hb => ?_
    rw [hb, if_pos rfl]
    refine .bind [_] (takes_expect _ hx (by decide)) fun part hpart => ?_
    refine .finish (ih (fun y hy => hxs y (mem_cons_of_mem _ hy)) (by omega)) fun parts h => ?_
    rw [h, Token.text_of_sign hpart]
    exact .pure rfl

/-- A dotted name is read as the name of a namespace. -/
theorem takes_namespaceName {name : String} (h : ∀ x ∈ splitAt '.' name, IsPlainName x)
    (he : e.1 ≠ .dot) :
    Takes namespaceName (dottedSigns (splitAt '.' name)) (e :: u) (· = name) := by
  obtain ⟨x, xs, hsplit⟩ := exists_cons_of_splitAt name
  rw [hsplit] at h ⊢
  have hx : (wordSign x).1 = .ident := (h x (mem_cons_self ..)).2
  have hname : ".".intercalate (x :: xs) = name := by
    apply String.toList_injective
    rw [String.toList_intercalate, toList_eq_of_splitAt hsplit]
    exact intercalate_parts x xs
  refine .bind [_] (takes_expect _ hx (by decide)) fun first hfirst => ?_
  refine .finish (Q := (· = xs)) ?_ fun parts hparts => ?_
  · refine .bounded (f := namePartsWithin) fun n hn => ?_
    refine takes_namePartsWithin (fun y hy => h y (mem_cons_of_mem _ hy)) ?_ he
    rw [length_append, length_partSigns] at hn
    omega
  · rw [hparts, Token.text_of_sign hfirst]
    exact .pure hname

end SourceBundle

/-
Types as they are written out. The text of a legible type, one whose
names are names and no reserved words, spells its signs
(`Legible.spelt`), and these are read as that type again
(`Legible.takes_typeRef`), before whatever may follow a type. Both are
inductions on what legible types are made of; the characters and the
kinds of token that may follow a type, its head or a name are listed
once each, and a list is checked where a reader looks at what follows.
-/
import SourceBundle.Proofs.Parse.Rows
import SourceBundle.Proofs.Token.Words

namespace SourceBundle

open List hiding splitAt
open Parse Text

variable {u : List Sign} {n : Nat}

-- ===== dotted names

/-- A name that is no reserved word. -/
def IsPlainName (word : String) : Prop :=
  IsName word.toList ∧ Kind.ofWord word = .ident

instance (word : String) : Decidable (IsPlainName word) :=
  inferInstanceAs (Decidable (_ ∧ _))

/-- The signs of the further parts of a dotted name. -/
def partSigns : List String → List Sign
  | [] => []
  | x :: xs => (.dot, ".") :: wordSign x :: partSigns xs

/-- The signs of a dotted name, given by its parts. -/
def dottedSigns : List String → List Sign
  | [] => []
  | x :: xs => wordSign x :: partSigns xs

/-- The characters of the further parts of a dotted name. -/
def partChars : List String → List Char
  | [] => []
  | x :: xs => '.' :: (x.toList ++ partChars xs)

theorem intercalate_parts (x : String) (xs : List String) :
    ['.'].intercalate ((x :: xs).map String.toList) = x.toList ++ partChars xs := by
  induction xs generalizing x with
  | nil => simp [partChars]
  | cons y ys ih =>
    rw [map_cons, map_cons, intercalate_cons_cons, ← map_cons, ih,
      append_assoc]
    rfl

theorem toList_eq_of_splitAt {name x : String} {xs : List String}
    (h : splitAt '.' name = x :: xs) : name.toList = x.toList ++ partChars xs := by
  rw [← intercalate_parts, ← h, splitAt, map_map,
    show String.toList ∘ String.ofList = id from funext fun _ => String.toList_ofList,
    map_id, intercalate_splitOn]

theorem exists_cons_of_splitAt (name : String) : ∃ x xs, splitAt '.' name = x :: xs := by
  refine exists_cons_of_ne_nil fun hnil => ?_
  exact splitOn_ne_nil _ _ (map_eq_nil_iff.1 hnil)

theorem piece_parts {xs : List String} (hxs : ∀ x ∈ xs, IsName x.toList) :
    Piece (partChars xs) (partSigns xs) EndsName EndsName := by
  induction xs with
  | nil => exact .nil fun _ h => h
  | cons x xs ih =>
    have hrest := ih fun y hy => hxs y (mem_cons_of_mem _ hy)
    have hword := (Piece.word (hxs x (mem_cons_self ..))).append hrest fun _ h => h
    have hpoint := (Piece.joining '.' .dot (by decide) rfl).append hword fun _ h =>
      h.imp fun _ => apart_of_isNameStart
    exact hpoint.imp fun _ h => h.of_eq (by decide)

/-- A dotted name is read as it is written. -/
theorem piece_dotted {name : String} (hname : ∀ x ∈ splitAt '.' name, IsName x.toList) :
    Piece name.toList (dottedSigns (splitAt '.' name)) (Opens (isNameStart · = true)) EndsName := by
  obtain ⟨x, xs, hsplit⟩ := exists_cons_of_splitAt name
  rw [hsplit] at hname ⊢
  have hrest := piece_parts fun y hy => hname y (mem_cons_of_mem _ hy)
  rw [toList_eq_of_splitAt hsplit]
  exact (Piece.word (hname x (mem_cons_self ..))).append hrest fun _ h => h

-- ===== signs of types

/-- The signs of array suffixes. -/
def arraySigns : (rank : Nat) → List Sign
  | 0 => []
  | rank + 1 => (.lbracket, "[") :: (.rbracket, "]") :: arraySigns rank

/-- The signs of a nullable mark and array suffixes. -/
def suffixSigns (nullable : Bool) (rank : Nat) : List Sign :=
  (if nullable then [(.question, "?")] else []) ++ arraySigns rank

/-- The signs of the alias before a name. -/
def qualifierSigns : Option String → List Sign
  | none => []
  | some a => [wordSign a, (.doubleColon, "::")]

namespace TypeRef

mutual

/-- The signs that the text of a type is made of. -/
def signs : TypeRef → List Sign
  | { name, args, qualifier, rank, nullable, tuple, .. } =>
    (if tuple then (.lparen, "(") :: (rowSigns args ++ [(.rparen, ")")])
      else qualifierSigns qualifier ++ (dottedSigns (splitAt '.' name)
        ++ if args.isEmpty then [] else (.lt, "<") :: (rowSigns args ++ [(.gt, ">")])))
      ++ suffixSigns nullable rank
termination_by structural t => t

/-- The signs of types divided by commas. -/
def rowSigns : List TypeRef → List Sign
  | [] => []
  | t :: ts => signs t ++ if ts.isEmpty then [] else (.comma, ",") :: rowSigns ts
termination_by structural ts => ts

end

/-- A type whose words have a property: a tuple of such types, a predefined type, or a name of such
words with such types for arguments. -/
inductive MadeOf (word : String → Prop) : TypeRef → Prop
  | tuple {t : TypeRef} : t.tuple = true → qualifiedText t.qualifier t.name = tupleName →
      t.args ≠ [] → (∀ a ∈ t.args, a.MadeOf word) → t.MadeOf word
  | predefined {t : TypeRef} : t.tuple = false → t.name ∈ predefinedTypes → t.args = [] →
      t.qualifier = none → t.MadeOf word
  | named {t : TypeRef} : t.tuple = false → (∀ x ∈ t.parts, word x) →
      (∀ x ∈ t.qualifier, word x) → (∀ a ∈ t.args, a.MadeOf word) → t.MadeOf word

/-- A type that can be read again: none of its words is reserved. -/
abbrev Legible : TypeRef → Prop :=
  MadeOf IsPlainName

/-- The signs of type arguments, if there are any. -/
def argumentSigns (args : List TypeRef) : List Sign :=
  if args.isEmpty then [] else (.lt, "<") :: (rowSigns args ++ [(.gt, ">")])

/-- The text of type arguments, if there are any. -/
def argumentText (args : List TypeRef) : String :=
  if args.isEmpty then "" else "<" ++ ", ".intercalate (texts args) ++ ">"

/-- The text of a nullable mark and array suffixes. -/
def suffixText (nullable : Bool) (rank : Nat) : String :=
  (if nullable then "?" else "") ++ String.join (replicate rank "[]")

variable {t : TypeRef}

theorem signs_tuple (h : t.tuple = true) : t.signs
    = (.lparen, "(") :: (rowSigns t.args ++ (.rparen, ")") :: suffixSigns t.nullable t.rank) := by
  obtain ⟨name, args, qualifier, rank, nullable, tuple, span⟩ := t
  cases h
  simp [signs]

theorem signs_named (h : t.tuple = false) : t.signs = qualifierSigns t.qualifier
    ++ (dottedSigns t.parts ++ (argumentSigns t.args ++ suffixSigns t.nullable t.rank)) := by
  obtain ⟨name, args, qualifier, rank, nullable, tuple, span⟩ := t
  cases h
  simp [signs, argumentSigns, parts]

theorem text_tuple (h : t.tuple = true) : t.text
    = "(" ++ ", ".intercalate (texts t.args) ++ ")" ++ suffixText t.nullable t.rank := by
  obtain ⟨name, args, qualifier, rank, nullable, tuple, span⟩ := t
  cases h
  simp [text, suffixText, String.append_assoc]

theorem text_named (h : t.tuple = false) : t.text
    = qualifiedText t.qualifier t.name ++ argumentText t.args
      ++ suffixText t.nullable t.rank := by
  obtain ⟨name, args, qualifier, rank, nullable, tuple, span⟩ := t
  cases h
  simp [text, suffixText, argumentText, String.append_assoc]

-- ===== the text of a type

/-- What may follow a written type. -/
def typeEnds : List Char :=
  [';', ',', '>', ')']

/-- What may follow a type before its suffixes. -/
def headEnds : List Char :=
  '?' :: '[' :: typeEnds

theorem piece_arrays (rank : Nat) :
    Piece (String.join (replicate rank "[]")).toList (arraySigns rank)
      (Opens (· ∈ '[' :: typeEnds)) (Opens (· ∈ typeEnds)) := by
  induction rank with
  | zero => exact .nil fun _ h => h.imp fun _ => mem_cons_of_mem _
  | succ rank ih =>
    have hchars : (String.join (replicate (rank + 1) "[]")).toList
        = ['['] ++ ([']'] ++ (String.join (replicate rank "[]")).toList) := by
      rw [replicate_succ, String.join_cons, String.toList_append]
      rfl
    rw [hchars]
    have hclose := (Piece.stop ']' .rbracket (by decide) rfl).append ih fun _ _ => trivial
    have hopen := (Piece.stop '[' .lbracket (by decide) rfl).append hclose fun _ _ => trivial
    exact hopen.imp fun _ h => h.of_eq (mem_cons_self ..)

theorem piece_suffix (nullable : Bool) (rank : Nat) :
    Piece (suffixText nullable rank).toList (suffixSigns nullable rank) (Opens (· ∈ headEnds))
      (Opens (· ∈ typeEnds)) := by
  rw [suffixText, String.toList_append]
  cases nullable with
  | false => exact (piece_arrays rank).imp fun _ h => h.imp fun _ => mem_cons_of_mem _
  | true =>
    have hmark := (Piece.joining '?' .question (by decide) rfl).append (piece_arrays rank)
      fun _ h => h.imp (forall_mem_of_all (by decide))
    exact hmark.imp fun _ h => h.of_eq (mem_cons_self ..)

/-- What a written type starts with. -/
def StartsType (c : Char) : Prop :=
  isNameStart c = true ∨ c = '('

/-- The text of a type is read as its signs. -/
abbrev Spelt (t : TypeRef) : Prop :=
  Piece t.text.toList t.signs (Opens StartsType) (Opens (· ∈ typeEnds))

theorem StartsType.endsGap {c : Char} (h : StartsType c) : EndsGap c := by
  rcases h with h | rfl
  · exact endsGap_of_isNameStart h
  · decide

theorem StartsType.apart {c : Char} (h : StartsType c) : Apart '<' c := by
  rcases h with h | rfl
  · exact apart_of_isNameStart h
  · decide

theorem dottedSigns_ne_nil (name : String) : dottedSigns (splitAt '.' name) ≠ [] := by
  obtain ⟨x, xs, hsplit⟩ := exists_cons_of_splitAt name
  rw [hsplit]
  exact cons_ne_nil _ _

theorem signs_ne_nil (t : TypeRef) : t.signs ≠ [] := by
  cases h : t.tuple with
  | true =>
    rw [signs_tuple h]
    exact cons_ne_nil _ _
  | false =>
    rw [signs_named h, parts]
    simp [dottedSigns_ne_nil]

theorem rowSigns_ne_nil {ts : List TypeRef} (hts : ts ≠ []) : rowSigns ts ≠ [] := by
  cases ts with
  | nil => exact absurd rfl hts
  | cons t ts =>
    rw [rowSigns]
    simp [signs_ne_nil]

/-- The text of types divided by commas. -/
theorem piece_row {ts : List TypeRef} (hts : ts ≠ []) (h : ∀ t ∈ ts, t.Spelt) :
    Piece (", ".intercalate (texts ts)).toList (rowSigns ts) (Opens StartsType)
      (Opens (· ∈ typeEnds)) := by
  induction ts with
  | nil => exact absurd rfl hts
  | cons t ts ih =>
    have hfirst := h t (mem_cons_self ..)
    cases ts with
    | nil => simpa [texts, rowSigns] using hfirst
    | cons t' ts =>
      have hrest := ih (cons_ne_nil _ _) fun a ha => h a (mem_cons_of_mem _ ha)
      have hchars : (", ".intercalate (texts (t :: t' :: ts))).toList
          = t.text.toList
            ++ ([','] ++ ([' '] ++ (", ".intercalate (texts (t' :: ts))).toList)) := by
        rw [texts, texts, String.intercalate_cons_cons, ← texts]
        simp [String.toList_append]
      rw [hchars, rowSigns, if_neg (by simp)]
      have hspaced := hrest.spaced (fun _ => StartsType.endsGap) (rowSigns_ne_nil (by simp))
      have hcomma := (Piece.stop ',' .comma (by decide) rfl).append hspaced fun _ _ => trivial
      exact hfirst.append hcomma fun _ h => h.of_eq (by decide)

theorem piece_arguments {args : List TypeRef} (h : ∀ a ∈ args, a.Spelt) :
    Piece (argumentText args).toList (argumentSigns args) (Opens (· ∈ '<' :: headEnds))
      (Opens (· ∈ headEnds)) := by
  unfold argumentText argumentSigns
  by_cases hargs : args = []
  · subst hargs
    exact .nil fun _ h => h.imp fun _ => mem_cons_of_mem _
  · have hsome : ¬ args.isEmpty = true := by rwa [List.isEmpty_iff]
    rw [if_neg hsome, if_neg hsome, String.toList_append, String.toList_append, append_assoc]
    have hrow := (piece_row hargs h).append (Piece.joining '>' .gt (by decide) rfl) fun _ h =>
      h.of_eq (by decide)
    have hopen := (Piece.joining '<' .lt (by decide) rfl).append hrow fun _ h =>
      h.imp fun _ => StartsType.apart
    exact (hopen.before fun _ h => h.imp (forall_mem_of_all (by decide))).imp fun _ h =>
      h.of_eq (mem_cons_self ..)

theorem piece_qualified {qualifier : Option String} {name : String}
    (hqualifier : ∀ x ∈ qualifier, IsName x.toList)
    (hname : ∀ x ∈ splitAt '.' name, IsName x.toList) :
    Piece (qualifiedText qualifier name).toList
      (qualifierSigns qualifier ++ dottedSigns (splitAt '.' name)) (Opens (isNameStart · = true))
      EndsName := by
  cases qualifier with
  | none => exact piece_dotted hname
  | some a =>
    rw [qualifiedText, String.toList_append, String.toList_append, append_assoc]
    have hcolons := Piece.colons.append (piece_dotted hname) fun _ _ => trivial
    exact (Piece.word (hqualifier a rfl)).append hcolons fun _ h => h.of_eq (by decide)

/-- A type without brackets around it, whose parts are names. -/
theorem spelt_named (h : t.tuple = false) (hname : ∀ x ∈ t.parts, IsName x.toList)
    (hqualifier : ∀ x ∈ t.qualifier, IsName x.toList) (hargs : ∀ a ∈ t.args, a.Spelt) :
    t.Spelt := by
  have hrest := (piece_arguments hargs).append (piece_suffix t.nullable t.rank) fun _ h => h
  have hall := (piece_qualified hqualifier hname).append hrest fun _ h =>
    h.imp (forall_mem_of_all (by decide))
  rw [Spelt, text_named h, signs_named h, String.toList_append, String.toList_append,
    append_assoc, ← append_assoc (qualifierSigns t.qualifier)]
  exact hall.imp fun _ h => h.imp fun _ => .inl

theorem spelt_tuple (h : t.tuple = true) (hne : t.args ≠ []) (hargs : ∀ a ∈ t.args, a.Spelt) :
    t.Spelt := by
  have hclose := (Piece.stop ')' .rparen (by decide) rfl).append (piece_suffix t.nullable t.rank)
    fun _ _ => trivial
  have hrow := (piece_row hne hargs).append hclose fun _ h => h.of_eq (by decide)
  have hall := (Piece.stop '(' .lparen (by decide) rfl).append hrow fun _ _ => trivial
  have hchars : t.text.toList = ['('] ++ ((", ".intercalate (texts t.args)).toList
      ++ ([')'] ++ (suffixText t.nullable t.rank).toList)) := by
    rw [text_tuple h]
    simp [String.toList_append]
  rw [Spelt, hchars, signs_tuple h]
  exact hall.imp fun _ h => h.of_eq (.inr rfl)

/-- A predefined type is a word. -/
theorem parts_of_predefined (h : t.name ∈ predefinedTypes) : t.parts = [t.name] := by
  have hall : ∀ x ∈ predefinedTypes, splitAt '.' x = [x] := by decide +kernel
  exact hall t.name h

/-- The text of a legible type is read as its signs. -/
theorem Legible.spelt (h : t.Legible) : t.Spelt := by
  induction h with
  | tuple htuple _ hne _ ih => exact spelt_tuple htuple hne ih
  | @predefined t htuple hname hargs hqualifier =>
    have hall : ∀ x ∈ predefinedTypes, IsName x.toList := by decide
    refine spelt_named htuple ?_ (by rw [hqualifier]; exact nofun) (by rw [hargs]; exact nofun)
    intro x hx
    rw [parts_of_predefined hname, mem_singleton] at hx
    exact hall x (hx ▸ hname)
  | named htuple hname hqualifier _ ih =>
    exact spelt_named htuple (fun x hx => (hname x hx).1) (fun x hx => (hqualifier x hx).1) ih

end TypeRef

-- ===== reading types

open TypeRef

variable {e : Sign} {t type : TypeRef}

/-- The kinds that may follow a type. -/
def typeEndKinds : List Kind :=
  [.semi, .comma, .gt, .rparen, .ident, .eof]

theorem leaves_skipCommas (h : e.1 ≠ .comma) : Takes skipCommas [] (e :: u) fun _ => True := by
  refine .look fun s hs => ?_
  have hnone : s.rest.takeWhile (·.kind = .comma) = [] := by
    obtain ⟨x, l, hrest, hx, -⟩ := map_eq_cons_iff.1 hs
    rw [hrest, takeWhile_cons, if_neg]
    rw [decide_eq_true_iff, Token.kind_of_sign hx]
    exact h
  rw [hnone]
  exact takes_skip (v := [])

theorem takes_arrays {rank : Nat} (hn : rank < n) (he : e.1 ∈ typeEndKinds) :
    Takes (suffixesWithin n true type) (arraySigns rank) (e :: u)
      (· = { type with rank := type.rank + rank }) := by
  have hkinds : ∀ k ∈ typeEndKinds, k ≠ .question ∧ k ≠ .star ∧ k ≠ .lbracket := by decide
  obtain ⟨hquestion, hstar, hbracket⟩ := hkinds e.1 he
  induction rank generalizing n type with
  | zero =>
    obtain ⟨n, rfl⟩ : ∃ m, n = m + 1 := ⟨n - 1, by omega⟩
    rw [suffixesWithin]
    refine .andThen (takes_check .question) fun b hb => ?_
    rw [hb, decide_eq_false hquestion, if_neg (by simp)]
    refine .andThen (takes_check .star) fun b hb => ?_
    rw [hb, decide_eq_false hstar, if_neg (by simp)]
    refine .andThen (takes_checkBefore_other _ hbracket) fun b hb => ?_
    rw [hb, if_neg (by simp)]
    exact .pure (by cases type; rfl)
  | succ rank ih =>
    obtain ⟨n, rfl⟩ : ∃ m, n = m + 1 := ⟨n - 1, by omega⟩
    rw [suffixesWithin]
    refine .andThen (takes_check .question) fun b hb => ?_
    rw [hb, if_neg (by simp)]
    refine .andThen (takes_check .star) fun b hb => ?_
    rw [hb, if_neg (by simp)]
    refine .andThen (takes_checkBefore .lbracket [.rbracket, .comma]) fun b hb => ?_
    rw [hb, if_pos (by decide)]
    refine .bind [_] (takes_advance (by decide)) fun _ _ => ?_
    refine .andThen (leaves_skipCommas (by decide)) fun _ _ => ?_
    refine .bind [_] (takes_expect _ rfl (by decide)) fun _ _ => ?_
    rw [Nat.add_comm rank 1, ← Nat.add_assoc]
    exact ih (by omega)

theorem takes_suffixes {nullable : Bool} {rank : Nat} (hn : rank + 1 < n)
    (he : e.1 ∈ typeEndKinds) (hnullable : type.nullable = false) (hrank : type.rank = 0) :
    Takes (suffixesWithin n true type) (suffixSigns nullable rank) (e :: u)
      (· = { type with nullable, rank }) := by
  have hsum : type.rank + rank = rank := by rw [hrank, Nat.zero_add]
  cases nullable with
  | false => exact (takes_arrays (by omega) he).imp fun _ h => by rw [h, hsum, hnullable]
  | true =>
    obtain ⟨n, rfl⟩ : ∃ m, n = m + 1 := ⟨n - 1, by omega⟩
    rw [suffixesWithin]
    refine .andThen (takes_check .question) fun b hb => ?_
    rw [hb, if_pos (by simp [hnullable, hrank])]
    refine .bind [_] (takes_advance (by decide)) fun _ _ => ?_
    exact (takes_arrays (by omega) he).imp fun _ h => by rw [h, hsum]

/-- The kinds that a written type starts with. -/
def typeStartKinds : List Kind :=
  [.ident, .predefinedType, .lparen]

theorem IsPlainName.starts {x : String} (h : IsPlainName x) :
    (wordSign x).1 ∈ typeStartKinds := by
  have hkind : (wordSign x).1 = .ident := h.2
  rw [hkind]
  decide

/-- The signs of a type are read as that type before what may follow one. -/
structure TypeRef.Reread (t : TypeRef) : Prop where
  takes : ∀ {n : Nat} {e : Sign} {u : List Sign}, 4 * t.signs.length + 4 ≤ n →
    e.1 ∈ typeEndKinds → Takes (typeWithin n true) t.signs (e :: u) (Alike · t)
  starts : ∃ e v, t.signs = e :: v ∧ e.1 ∈ typeStartKinds

theorem rowSigns_cons (t : TypeRef) (ts : List TypeRef) (hts : ts ≠ []) :
    rowSigns (t :: ts) = t.signs ++ (.comma, ",") :: rowSigns ts := by
  rw [rowSigns, if_neg (by rwa [List.isEmpty_iff])]

/-- A row of types with commas between them, where `q` is read after each. -/
theorem takes_row {α : Type} {row : Nat → Parse (List TypeRef)} {q : Parse α}
    (hrow : ∀ n, row (n + 1) = do
      let type ← typeWithin n true
      let _ ← q
      if ← accept .comma then
        return type :: (← row n)
      return [type])
    (hq : ∀ {e : Sign} {u : List Sign}, e.1 ≠ .ident → Takes q [] (e :: u) fun _ => True)
    {ts : List TypeRef} (hts : ts ≠ []) (h : ∀ t ∈ ts, t.Reread)
    (hn : 4 * (rowSigns ts).length + 5 ≤ n) (he : e.1 ∈ [.gt, .rparen]) :
    Takes (row n) (rowSigns ts) (e :: u) (Alike · ts) := by
  have hends : ∀ k ∈ [Kind.gt, .rparen], k ∈ typeEndKinds ∧ k ≠ .ident ∧ k ≠ .comma := by decide
  induction ts generalizing n with
  | nil => exact absurd rfl hts
  | cons t ts ih =>
    obtain ⟨n, rfl⟩ : ∃ m, n = m + 1 := ⟨n - 1, by omega⟩
    have hfirst := h t (mem_cons_self ..)
    rw [hrow]
    by_cases hmore : ts = []
    · subst hmore
      obtain ⟨hend, hident, hcomma⟩ := hends e.1 he
      have hsigns : rowSigns [t] = t.signs := by simp [rowSigns]
      rw [hsigns] at hn ⊢
      refine .finish (hfirst.takes (by omega) hend) fun _ hfirst => ?_
      refine .andThen (hq hident) fun _ _ => ?_
      refine .andThen (leaves_accept hcomma (by decide)) fun b hb => ?_
      rw [hb, if_neg (by simp)]
      exact .pure (alike_cons.2 ⟨hfirst, rfl⟩)
    · rw [rowSigns_cons t ts hmore] at hn ⊢
      simp only [length_append, length_cons] at hn
      refine .bind _ (hfirst.takes (by omega) (by decide)) fun _ hfirst => ?_
      refine .andThen (hq (by decide)) fun _ _ => ?_
      refine .bind [_] (takes_accept rfl (by decide)) fun b hb => ?_
      rw [hb, if_pos rfl]
      have hrest := fun a ha => h a (mem_cons_of_mem _ ha)
      refine .finish (ih hmore hrest (by omega)) fun _ hmore => ?_
      exact .pure (alike_cons.2 ⟨hfirst, hmore⟩)

/-- What follows a name and its type arguments. -/
def headEndKinds : List Kind :=
  .question :: .lbracket :: typeEndKinds

theorem takes_arguments {args : List TypeRef} (h : ∀ a ∈ args, a.Reread)
    (hn : 4 * (argumentSigns args).length ≤ n) (he : e.1 ∈ headEndKinds) :
    Takes (whenNext .lt (argumentsWithin n)) (argumentSigns args) (e :: u) (Alike · args) := by
  by_cases hargs : args = []
  · subst hargs
    have hkinds : ∀ k ∈ headEndKinds, k ≠ .lt := by decide
    exact (leaves_whenNext (hkinds e.1 he)).imp fun _ h => h ▸ rfl
  · have hsigns : argumentSigns args = (.lt, "<") :: (rowSigns args ++ [(.gt, ">")]) := by
      rw [argumentSigns, if_neg (by rwa [List.isEmpty_iff])]
    rw [hsigns] at hn ⊢
    simp only [length_append, length_cons, length_nil] at hn
    obtain ⟨n, rfl⟩ : ∃ m, n = m + 1 := ⟨n - 1, by omega⟩
    refine takes_whenNext ⟨_, rfl⟩ rfl ?_
    rw [argumentsWithin]
    refine .bind [_] (takes_expect _ rfl (by decide)) fun _ _ => ?_
    have hrow : Takes (unboundOr (typesWithin n)) (rowSigns args) ([(.gt, ">")] ++ e :: u)
        (Alike · args) := by
      obtain ⟨a, as, rfl⟩ := exists_cons_of_ne_nil hargs
      obtain ⟨f, v, hsigns, hf⟩ := (h a (mem_cons_self ..)).starts
      have hfront : ∃ w, rowSigns (a :: as) = f :: w := by
        rw [rowSigns, hsigns]
        exact ⟨_, rfl⟩
      obtain ⟨w, hw⟩ := hfront
      have hkinds : ∀ k ∈ typeStartKinds, (k = .gt || k = .comma) = false := by decide
      refine .andThen (Q := (·.sign = f)) ?_ fun tok htok => ?_
      · rw [hw]
        exact takes_peek
      · rw [Token.kind_of_sign htok, if_neg (by rw [hkinds f.1 hf]; simp)]
        exact takes_row (q := (pure () : Parse Unit)) (fun n => by simp [typesWithin])
          (fun _ => .pure trivial) hargs h (by omega) (by decide)
    refine .bind _ hrow fun _ hargs => ?_
    refine .bind [_] (takes_expect _ rfl (by decide)) fun _ _ => ?_
    exact .pure hargs

/-- A type as it is before its suffixes are read. -/
def TypeRef.head (t : TypeRef) : TypeRef :=
  { t with nullable := false, rank := 0 }

theorem leaves_dotted (he : e.1 ∈ headEndKinds) (hn : 0 < n) :
    Takes (dottedWithin n type) [] (e :: u) (· = type) := by
  obtain ⟨n, rfl⟩ : ∃ m, n = m + 1 := ⟨n - 1, by omega⟩
  have hkinds : ∀ k ∈ headEndKinds, k ≠ .dot := by decide
  rw [dottedWithin]
  refine .andThen (takes_checkBefore_other _ (hkinds e.1 he)) fun b hb => ?_
  rw [hb, if_neg (by simp)]
  exact .pure rfl

/-- A name that is put together from its parts. -/
theorem foldl_parts {name x : String} {xs : List String} (h : splitAt '.' name = x :: xs) :
    xs.foldl (fun name x => name ++ "." ++ x) x = name := by
  apply String.toList_injective
  rw [toList_eq_of_splitAt h]
  clear h
  induction xs generalizing x with
  | nil => simp [partChars]
  | cons y ys ih =>
    rw [foldl_cons, ih]
    simp [partChars, String.toList_append]

/-- The further parts of a name, and the arguments of the last of its parts. -/
theorem takes_parts (type : TypeRef) {xs : List String} {args : List TypeRef}
    (hxs : ∀ x ∈ xs, IsPlainName x)
    (h : ∀ a ∈ args, a.Reread) (hn : 4 * (argumentSigns args).length + xs.length + 1 ≤ n)
    (he : e.1 ∈ headEndKinds) :
    Takes (whenNext .lt (argumentsWithin n) >>= fun as => dottedWithin n { type with args := as })
      (partSigns xs ++ argumentSigns args) (e :: u)
      (Alike ·
        { type with name := xs.foldl (fun name x => name ++ "." ++ x) type.name, args }) := by
  induction xs generalizing n type with
  | nil =>
    rw [partSigns, nil_append]
    simp only [length_nil] at hn
    refine .finish (takes_arguments h (by omega) he) fun as has => ?_
    refine (leaves_dotted he (by omega)).imp ?_
    rintro _ rfl
    exact alike_typeRef.2 ⟨rfl, has, rfl, rfl, rfl, rfl⟩
  | cons x xs ih =>
    have hx : (wordSign x).1 = .ident := (hxs x (mem_cons_self ..)).2
    rw [length_cons] at hn
    obtain ⟨n, rfl⟩ : ∃ m, n = m + 1 := ⟨n - 1, by omega⟩
    rw [partSigns]
    refine .andThen (leaves_whenNext (by decide)) fun as _ => ?_
    rw [dottedWithin]
    refine .andThen (takes_checkBefore .dot [.ident]) fun b hb => ?_
    rw [hb, hx, if_pos (by decide)]
    refine .bind [_] (takes_advance (by decide)) fun _ _ => ?_
    refine .bind [_] (takes_advance (by rw [hx]; decide)) fun part hpart => ?_
    rw [Token.text_of_sign hpart]
    have hxs := fun y hy => hxs y (mem_cons_of_mem _ hy)
    exact ih (n := n) { type with name := type.name ++ "." ++ x } hxs (by omega)

theorem takes_qualifiedName {tok : Token} {q : String} (hq : (wordSign q).1 = .ident) :
    Takes (qualifiedName tok) [(.doubleColon, "::"), wordSign q] u (· = (q, some tok.text)) := by
  refine .bind [_] (takes_accept rfl (by decide)) fun b hb => ?_
  rw [hb, if_pos rfl]
  refine .bind [_] (takes_expect _ hq (by decide)) fun name hname => ?_
  rw [Token.text_of_sign hname]
  exact .pure rfl

theorem leaves_qualifiedName {tok : Token} (he : e.1 ≠ .doubleColon) :
    Takes (qualifiedName tok) [] (e :: u) (· = (tok.text, none)) := by
  refine .andThen (leaves_accept he (by decide)) fun b hb => ?_
  rw [hb, if_neg (by simp)]
  exact .pure rfl

theorem suffixSigns_front (nullable : Bool) (rank : Nat) (he : e.1 ∈ typeEndKinds) :
    ∃ f w, suffixSigns nullable rank ++ e :: u = f :: w ∧ f.1 ∈ headEndKinds := by
  cases nullable with
  | true => exact ⟨_, _, rfl, by decide⟩
  | false =>
    cases rank with
    | zero => exact ⟨e, u, rfl, mem_cons_of_mem _ (mem_cons_of_mem _ he)⟩
    | succ rank => exact ⟨_, _, rfl, by decide⟩

/-- What follows the first word of a name. -/
def nameEndKinds : List Kind :=
  .dot :: .lt :: headEndKinds

theorem partSigns_front (xs : List String) (args : List TypeRef) (he : e.1 ∈ headEndKinds) :
    ∃ f w, partSigns xs ++ argumentSigns args ++ e :: u = f :: w ∧ f.1 ∈ nameEndKinds := by
  cases xs with
  | cons x xs => exact ⟨_, _, rfl, by decide⟩
  | nil =>
    cases args with
    | nil => exact ⟨e, u, rfl, mem_cons_of_mem _ (mem_cons_of_mem _ he)⟩
    | cons a as => exact ⟨_, _, rfl, by decide⟩

theorem takes_typeHead_named (htuple : t.tuple = false) (hname : ∀ x ∈ t.parts, IsPlainName x)
    (hqualifier : ∀ x ∈ t.qualifier, IsPlainName x) (h : ∀ a ∈ t.args, a.Reread)
    (hn : 4 * (argumentSigns t.args).length + t.parts.length ≤ n) (he : e.1 ∈ headEndKinds) :
    Takes (typeHead (tupleWithin n) (argumentsWithin n) (dottedWithin n))
      (qualifierSigns t.qualifier ++ (dottedSigns t.parts ++ argumentSigns t.args)) (e :: u)
      (Alike · t.head) := by
  obtain ⟨x, xs, hsplit⟩ := exists_cons_of_splitAt t.name
  have hparts := foldl_parts hsplit
  rw [TypeRef.parts, hsplit] at hname hn ⊢
  have hx : (wordSign x).1 = .ident := (hname x (mem_cons_self ..)).2
  have hxs : ∀ y ∈ xs, IsPlainName y := fun y hy => hname y (mem_cons_of_mem _ hy)
  rw [length_cons] at hn
  cases hq : t.qualifier with
  | some a =>
    have ha : (wordSign a).1 = .ident := (hqualifier a hq).2
    refine .andThen takes_peek fun tok htok => ?_
    rw [Token.kind_of_sign htok, ha]
    refine .bind [_] (takes_advance (by rw [ha]; decide)) fun _ _ => ?_
    refine .bind [_, _] (takes_qualifiedName hx) ?_
    rintro _ rfl
    refine (takes_parts { name := x, qualifier := some tok.text } hxs h (by omega) he).imp
      fun _ htype => htype.trans (alike_typeRef.2 ⟨hparts, rfl, ?_, rfl, rfl, htuple.symm⟩)
    rw [Token.text_of_sign htok]
    exact hq.symm
  | none =>
    refine .andThen takes_peek fun tok htok => ?_
    rw [Token.kind_of_sign htok, hx]
    refine .bind [_] (takes_advance (by rw [hx]; decide)) fun _ _ => ?_
    obtain ⟨f, w, hfront, hf⟩ := partSigns_front (u := u) xs t.args he
    have hkinds : ∀ k ∈ nameEndKinds, k ≠ .doubleColon := by decide
    have hnone : Takes (qualifiedName tok) [] (partSigns xs ++ argumentSigns t.args ++ e :: u)
        (· = (x, none)) := by
      rw [hfront, ← show tok.text = x from Token.text_of_sign htok]
      exact leaves_qualifiedName (hkinds f.1 hf)
    refine .andThen hnone ?_
    rintro _ rfl
    exact (takes_parts { name := x } hxs h (by omega) he).imp fun _ htype =>
      htype.trans (alike_typeRef.2 ⟨hparts, rfl, hq.symm, rfl, rfl, htuple.symm⟩)

theorem takes_typeHead_predefined {name : String} (hname : name ∈ predefinedTypes) :
    Takes (typeHead (tupleWithin n) (argumentsWithin n) (dottedWithin n)) [wordSign name] u
      (· = { name }) := by
  have hall : ∀ x ∈ predefinedTypes, Kind.ofWord x = .predefinedType := by decide +kernel
  have hkind : (wordSign name).1 = .predefinedType := hall name hname
  refine .andThen takes_peek fun tok htok => ?_
  rw [Token.kind_of_sign htok, hkind]
  refine .bind [_] (takes_advance (by rw [hkind]; decide)) fun _ _ => ?_
  rw [Token.text_of_sign htok]
  exact .pure rfl

theorem takes_typeHead_tuple {ts : List TypeRef} (hts : ts ≠ []) (h : ∀ t ∈ ts, t.Reread)
    (hn : 4 * (rowSigns ts).length + 5 ≤ n) :
    Takes (typeHead (tupleWithin n) (argumentsWithin n) (dottedWithin n))
      ((.lparen, "(") :: (rowSigns ts ++ [(.rparen, ")")])) u
      (Alike · { name := tupleName, args := ts, tuple := true }) := by
  refine .andThen takes_peek fun tok htok => ?_
  rw [Token.kind_of_sign htok]
  refine .bind [_] (takes_advance (by decide)) fun _ _ => ?_
  have hrow := takes_row (u := u) (e := (.rparen, ")")) tupleWithin.eq_2
    (fun h => (leaves_accept h (by decide)).imp fun _ _ => trivial) hts h hn (by decide)
  refine .bind _ hrow fun _ hts => ?_
  refine .bind [_] (takes_expect _ rfl (by decide)) fun _ _ => ?_
  exact .pure (alike_typeRef.2 ⟨rfl, hts, rfl, rfl, rfl, rfl⟩)

/-- A type is its head and its suffixes. -/
theorem takes_typeWithin {v : List Sign}
    (hhead : ∀ {f : Sign} {w : List Sign}, f.1 ∈ headEndKinds →
      Takes (typeHead (tupleWithin n) (argumentsWithin n) (dottedWithin n)) v (f :: w)
        (Alike · t.head))
    (hn : t.rank + 1 < n) (he : e.1 ∈ typeEndKinds) :
    Takes (typeWithin (n + 1) true) (v ++ suffixSigns t.nullable t.rank) (e :: u) (Alike · t) := by
  obtain ⟨f, w, hfront, hf⟩ := suffixSigns_front (u := u) t.nullable t.rank he
  rw [typeWithin]
  refine .andThen takes_here fun start _ => ?_
  refine .bind _ (Q := (Alike · t.head)) (by rw [hfront]; exact hhead hf) fun type htype => ?_
  obtain ⟨hname, hargs, hqualifier, hrank, hnullable, htuple⟩ := alike_typeRef.1 htype
  refine .finish (takes_suffixes hn he hnullable hrank) ?_
  rintro _ rfl
  exact .andThen (takes_spanFrom start) fun _ _ =>
    .pure (alike_typeRef.2 ⟨hname, hargs, hqualifier, rfl, rfl, htuple⟩)

theorem length_partSigns (xs : List String) : (partSigns xs).length = 2 * xs.length := by
  induction xs with
  | nil => rfl
  | cons x xs ih =>
    rw [partSigns, length_cons, length_cons, length_cons, ih]
    omega

theorem length_dottedSigns (xs : List String) : xs.length ≤ (dottedSigns xs).length := by
  cases xs with
  | nil => exact Nat.le_refl _
  | cons x xs =>
    rw [dottedSigns, length_cons, length_cons, length_partSigns]
    omega

theorem length_suffixSigns (nullable : Bool) (rank : Nat) :
    rank ≤ (suffixSigns nullable rank).length := by
  have harrays : rank ≤ (arraySigns rank).length := by
    induction rank with
    | zero => exact Nat.le_refl _
    | succ rank ih =>
      rw [arraySigns, length_cons, length_cons]
      omega
  rw [suffixSigns, length_append]
  omega

theorem TypeRef.reread_named (htuple : t.tuple = false) (hname : ∀ x ∈ t.parts, IsPlainName x)
    (hqualifier : ∀ x ∈ t.qualifier, IsPlainName x) (h : ∀ a ∈ t.args, a.Reread) :
    t.Reread where
  takes {n e u} hn he := by
    rw [signs_named htuple] at hn ⊢
    have hparts := length_dottedSigns t.parts
    have hsuffix := length_suffixSigns t.nullable t.rank
    simp only [length_append] at hn
    obtain ⟨n, rfl⟩ : ∃ m, n = m + 1 := ⟨n - 1, by omega⟩
    rw [← append_assoc (dottedSigns t.parts), ← append_assoc (qualifierSigns t.qualifier)]
    exact takes_typeWithin (takes_typeHead_named htuple hname hqualifier h (by omega)) (by omega) he
  starts := by
    obtain ⟨x, xs, hsplit⟩ := exists_cons_of_splitAt t.name
    have hx := hname x (by rw [TypeRef.parts, hsplit]; exact mem_cons_self ..)
    rw [signs_named htuple, TypeRef.parts, hsplit]
    cases hq : t.qualifier with
    | none => exact ⟨_, _, rfl, hx.starts⟩
    | some a => exact ⟨_, _, rfl, (hqualifier a hq).starts⟩

/-- No alias stands before what tuples are named. -/
theorem qualifiedText_eq_tupleName {qualifier : Option String} {name : String}
    (h : qualifiedText qualifier name = tupleName) : qualifier = none ∧ name = tupleName := by
  cases qualifier with
  | none => exact ⟨rfl, h⟩
  | some a =>
    have hcolon : ':' ∈ (qualifiedText (some a) name).toList := by simp [qualifiedText]
    rw [h] at hcolon
    exact absurd hcolon (by decide)

theorem TypeRef.reread_tuple (htuple : t.tuple = true)
    (hname : qualifiedText t.qualifier t.name = tupleName) (hne : t.args ≠ [])
    (h : ∀ a ∈ t.args, a.Reread) : t.Reread where
  takes {n e u} hn he := by
    have hsigns : t.signs = (.lparen, "(") :: (rowSigns t.args ++ [(.rparen, ")")])
        ++ suffixSigns t.nullable t.rank := by
      rw [signs_tuple htuple]
      simp
    have hsuffix := length_suffixSigns t.nullable t.rank
    rw [hsigns] at hn ⊢
    simp only [length_append, length_cons, length_nil] at hn
    obtain ⟨n, rfl⟩ : ∃ m, n = m + 1 := ⟨n - 1, by omega⟩
    obtain ⟨hqualifier, hname⟩ := qualifiedText_eq_tupleName hname
    refine takes_typeWithin (fun _ => ?_) (by omega) he
    exact (takes_typeHead_tuple hne h (by omega)).imp fun _ htype =>
      htype.trans (alike_typeRef.2 ⟨hname.symm, rfl, hqualifier.symm, rfl, rfl, htuple.symm⟩)
  starts := by
    rw [signs_tuple htuple]
    exact ⟨_, _, rfl, by decide⟩

theorem TypeRef.reread_predefined (htuple : t.tuple = false) (hname : t.name ∈ predefinedTypes)
    (hargs : t.args = []) (hqualifier : t.qualifier = none) : t.Reread where
  takes {n e u} hn he := by
    have hsigns : t.signs = [wordSign t.name] ++ suffixSigns t.nullable t.rank := by
      rw [signs_named htuple, parts_of_predefined hname, hargs, hqualifier]
      rfl
    have hsuffix := length_suffixSigns t.nullable t.rank
    rw [hsigns] at hn ⊢
    simp only [length_append, length_cons, length_nil] at hn
    obtain ⟨n, rfl⟩ : ∃ m, n = m + 1 := ⟨n - 1, by omega⟩
    refine takes_typeWithin (fun _ => ?_) (by omega) he
    exact (takes_typeHead_predefined hname).imp fun _ htype => by
      rw [htype]
      exact alike_typeRef.2 ⟨rfl, by rw [head, hargs], hqualifier.symm, rfl, rfl, htuple.symm⟩
  starts := by
    have hall : ∀ x ∈ predefinedTypes, (wordSign x).1 ∈ typeStartKinds := by decide +kernel
    rw [signs_named htuple, parts_of_predefined hname, hqualifier]
    exact ⟨_, _, rfl, hall t.name hname⟩

/-- The signs of a legible type are read as that type. -/
theorem TypeRef.Legible.reread (h : t.Legible) : t.Reread := by
  induction h with
  | tuple htuple hname hne _ ih => exact reread_tuple htuple hname hne ih
  | predefined htuple hname hargs hqualifier =>
    exact reread_predefined htuple hname hargs hqualifier
  | named htuple hname hqualifier _ ih => exact reread_named htuple hname hqualifier ih

theorem TypeRef.Legible.takes_typeRef (h : t.Legible) (he : e.1 ∈ typeEndKinds) :
    Takes typeRef t.signs (e :: u) (Alike · t) := by
  refine .bounded (f := (typeWithin · true)) fun n hn => h.reread.takes ?_ he
  simp only [length_append] at hn
  omega

end SourceBundle

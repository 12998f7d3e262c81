/-
Reserved words among the words of a file. The words of a file are the
identifiers of its directives and of its namespaces' names. The mark
that makes a name of a reserved word is not kept in the tree, so a word
that is reserved would be written out as another kind of token. In a
file without such words (`SourceFile.Unreserved`) every name can be
written out, and every import (`UsingDirective.MadeOf.legible`).
-/
import SourceBundle.Proofs.Parse.Names

namespace SourceBundle

open List Text

-- ===== words

/-- A word that is no name unless it is marked as one. -/
def IsReserved (word : String) : Prop :=
  Kind.ofWord word ≠ .ident

instance (word : String) : Decidable (IsReserved word) :=
  inferInstanceAs (Decidable (_ ≠ _))

theorem IsWord.plain {x : String} (h : IsWord x) (hx : ¬IsReserved x) : IsPlainName x :=
  ⟨h, Decidable.not_not.1 hx⟩

mutual

/-- The identifiers of a type. A predefined type has none. -/
def TypeRef.words : TypeRef → List String
  | { name, args, qualifier, tuple, .. } =>
    if tuple then wordsOfTypes args
    else if qualifier.isNone && args.isEmpty && predefinedTypes.contains name then []
    else qualifier.toList ++ splitAt '.' name ++ wordsOfTypes args
termination_by structural t => t

/-- The identifiers of types in order. -/
def wordsOfTypes : List TypeRef → List String
  | [] => []
  | t :: ts => t.words ++ wordsOfTypes ts
termination_by structural ts => ts

end

/-- The identifiers of a directive. -/
def UsingDirective.words (d : UsingDirective) : List String :=
  d.aliasName.toList ++ d.target.words

mutual

/-- The identifiers of a namespace's name, of its directives, and of the namespaces in it. -/
def NamespaceDecl.words : NamespaceDecl → List String
  | { name, usings, namespaces, .. } =>
    splitAt '.' name ++ usings.flatMap UsingDirective.words ++ wordsOfSpaces namespaces
termination_by structural m => m

/-- The identifiers of namespaces in order. -/
def wordsOfSpaces : List NamespaceDecl → List String
  | [] => []
  | m :: ms => m.words ++ wordsOfSpaces ms
termination_by structural ms => ms

end

/-- The identifiers of a file's directives and namespaces. -/
def SourceFile.words (file : SourceFile) : List String :=
  file.usings.flatMap UsingDirective.words ++ wordsOfSpaces file.namespaces

/-- No word of a file is reserved. -/
def SourceFile.Unreserved (file : SourceFile) : Prop :=
  ∀ x ∈ file.words, ¬IsReserved x

instance (file : SourceFile) : Decidable file.Unreserved :=
  inferInstanceAs (Decidable (∀ x ∈ file.words, ¬IsReserved x))

theorem wordsOfTypes_eq (ts : List TypeRef) : wordsOfTypes ts = ts.flatMap TypeRef.words := by
  induction ts with
  | nil => rfl
  | cons t ts ih => rw [wordsOfTypes, ih, flatMap_cons]

theorem wordsOfSpaces_eq (ms : List NamespaceDecl) :
    wordsOfSpaces ms = ms.flatMap NamespaceDecl.words := by
  induction ms with
  | nil => rfl
  | cons m ms ih => rw [wordsOfSpaces, ih, flatMap_cons]

namespace TypeRef

variable {t : TypeRef}

theorem words_tuple (h : t.tuple = true) : t.words = t.args.flatMap words := by
  obtain ⟨name, args, qualifier, rank, nullable, tuple, span⟩ := t
  cases h
  rw [words, if_pos rfl, wordsOfTypes_eq]

theorem words_named (h : t.tuple = false)
    (hname : ¬(t.qualifier = none ∧ t.args = [] ∧ t.name ∈ predefinedTypes)) :
    t.words = t.qualifier.toList ++ t.parts ++ t.args.flatMap words := by
  obtain ⟨name, args, qualifier, rank, nullable, tuple, span⟩ := t
  cases h
  rw [words, if_neg Bool.false_ne_true, if_neg (by simpa [and_assoc] using hname), wordsOfTypes_eq]
  rfl

end TypeRef

theorem NamespaceDecl.words_eq (m : NamespaceDecl) : m.words = splitAt '.' m.name
    ++ m.usings.flatMap UsingDirective.words ++ m.namespaces.flatMap NamespaceDecl.words := by
  obtain ⟨name, usings, types, namespaces, isFileScoped, span⟩ := m
  rw [words, wordsOfSpaces_eq]

-- ===== legible

/-- A type of words none of which is reserved. -/
theorem TypeRef.MadeOf.legible {t : TypeRef} (h : t.MadeOf IsWord)
    (hwords : ∀ x ∈ t.words, ¬IsReserved x) : t.Legible := by
  induction h with
  | tuple htuple hname hne _ ih =>
    refine .tuple htuple hname hne fun a ha => ih a ha fun x hx => hwords x ?_
    rw [words_tuple htuple]
    exact mem_flatMap.2 ⟨a, ha, hx⟩
  | predefined htuple hname hargs hqualifier => exact .predefined htuple hname hargs hqualifier
  | @named t htuple hparts hqualifier _ ih =>
    by_cases hpredefined : t.qualifier = none ∧ t.args = [] ∧ t.name ∈ predefinedTypes
    · exact .predefined htuple hpredefined.2.2 hpredefined.2.1 hpredefined.1
    · rw [words_named htuple hpredefined] at hwords
      simp only [mem_append, or_imp, forall_and, Option.mem_toList] at hwords
      refine .named htuple (fun x hx => (hparts x hx).plain (hwords.1.2 x hx))
        (fun x hx => (hqualifier x hx).plain (hwords.1.1 x hx)) fun a ha => ?_
      exact ih a ha fun x hx => hwords.2 x (mem_flatMap.2 ⟨a, ha, hx⟩)

theorem UsingDirective.MadeOf.unreserved {d : UsingDirective} (h : d.MadeOf IsWord)
    (hwords : ∀ x ∈ d.words, ¬IsReserved x) : d.MadeOf IsPlainName where
  target := h.target.legible fun x hx => hwords x (mem_append_right _ hx)
  aliasName a ha :=
    (h.aliasName a ha).plain (hwords a (mem_append_left _ (Option.mem_toList.2 ha)))

theorem NamespaceDecl.MadeOf.unreserved {m : NamespaceDecl} (h : m.MadeOf IsWord)
    (hwords : ∀ x ∈ m.words, ¬IsReserved x) : m.MadeOf IsPlainName := by
  induction h with
  | intro hname husings _ ih =>
    rw [words_eq] at hwords
    simp only [mem_append, or_imp, forall_and] at hwords
    refine ⟨fun x hx => (hname x hx).plain (hwords.1.1 x hx), fun d hd => ?_,
      fun inner hinner => ?_⟩
    · exact (husings d hd).unreserved fun x hx => hwords.1.2 x (mem_flatMap.2 ⟨d, hd, hx⟩)
    · exact ih inner hinner fun x hx => hwords.2 x (mem_flatMap.2 ⟨inner, hinner, hx⟩)

theorem SourceFile.MadeOf.unreserved {file : SourceFile} (h : file.MadeOf IsWord)
    (hwords : file.Unreserved) : file.MadeOf IsPlainName where
  usings d hd := (h.usings d hd).unreserved fun x hx =>
    hwords x (mem_append_left _ (mem_flatMap.2 ⟨d, hd, hx⟩))
  namespaces m hm := (h.namespaces m hm).unreserved fun x hx => by
    refine hwords x (mem_append_right _ ?_)
    rw [wordsOfSpaces_eq]
    exact mem_flatMap.2 ⟨m, hm, hx⟩

theorem TypeRef.text_bare (qualifier : Option String) (name : String) :
    ({ name, qualifier } : TypeRef).text = qualifiedText qualifier name := by
  rw [text_named rfl]
  simp [argumentText, suffixText]

/-- A using of a namespace. -/
theorem IsSpaceName.legible {space : String} (h : IsSpaceName space) :
    ({ name := space } : Import).Legible :=
  ⟨⟨{ name := space }, .named rfl h nofun nofun, (TypeRef.text_bare none space).symm⟩, nofun⟩

/-- What is written for a tuple that is imported under no name. -/
theorem legible_tupleName : ∃ t : TypeRef, t.Legible ∧ TypeRef.tupleName = t.text := by
  let element : TypeRef := { name := "tuple" }
  have hparts : ∀ x ∈ splitAt '.' element.name, IsPlainName x := by decide +kernel
  have helement : element.Legible := .named rfl hparts nofun nofun
  refine ⟨{ name := TypeRef.tupleName, args := [element], tuple := true }, ?_, by decide +kernel⟩
  exact .tuple rfl rfl (cons_ne_nil _ _) (forall_mem_singleton.2 helement)

/-- What a directive without reserved words imports can be written out. -/
theorem UsingDirective.MadeOf.legible {d : UsingDirective} (h : d.MadeOf IsPlainName) :
    (Import.ofDirective d).Legible := by
  refine ⟨?_, h.aliasName⟩
  show ∃ t : TypeRef, t.Legible ∧ (if d.aliasName.isSome then d.target.text
    else TypeRef.qualifiedText d.target.qualifier d.target.name) = t.text
  split
  · exact ⟨d.target, h.target, rfl⟩
  · -- of a type without an alias the name alone is kept
    obtain ⟨target, -⟩ := h
    cases target with
    | tuple _ hname _ _ =>
      rw [hname]
      exact legible_tupleName
    | predefined _ hname _ hqualifier =>
      rw [hqualifier]
      exact ⟨{ name := d.target.name }, .predefined rfl hname rfl rfl,
        (TypeRef.text_bare none _).symm⟩
    | named _ hparts hqualifier _ =>
      exact ⟨{ name := d.target.name, qualifier := d.target.qualifier },
        .named rfl hparts hqualifier nofun, (TypeRef.text_bare _ _).symm⟩

end SourceBundle

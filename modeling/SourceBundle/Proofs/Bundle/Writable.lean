/-
What stands in a bundle can be written out and read again. The documents
of a workspace are read from its sources; if these have no carriage
returns and no reserved words for names, each declaration of a bundled
unit stands wherever its text is put (`TypeDecl.Stands`), and each
import, and each name of a namespace, is legible
(`Workspace.writable`).
-/
import SourceBundle.Proofs.Binding.Legible
import SourceBundle.Proofs.Binding.Sessions
import SourceBundle.Proofs.Bundle.Usings
import SourceBundle.Proofs.Closure.EnumUnits

namespace SourceBundle

open List Text

-- ===== units

namespace Declarations

/-- A unit is made of namespace-level types, the first of which it is named for. -/
theorem exists_parts {ds : Declarations} {u : TypeUnit} (hu : u ∈ ds.units) :
    ∃ order head parts, u = unitOf order head parts ∧ head ∈ parts
      ∧ ∀ t ∈ parts, t ∈ ds.types ∧ t.isTopLevel = true := by
  obtain ⟨i, hi⟩ := getElem?_of_mem hu
  obtain ⟨head, hhead, rfl⟩ := Option.map_eq_some_iff.1 ((ds.units_getElem? i).symm.trans hi)
  refine ⟨i, head, _, rfl, ?_, fun t ht => mem_filter.1 (mem_filter.1 ht).1⟩
  exact mem_filter.2 ⟨mem_filter.2 (mem_of_mem_unitHeads (mem_of_getElem? hhead)),
    decide_eq_true rfl⟩

variable {ds : Declarations} {u : TypeUnit}

theorem Legible.space (h : ds.Legible) (hu : u ∈ ds.units) :
    u.space.isEmpty = true ∨ IsSpaceName u.space := by
  obtain ⟨order, head, parts, rfl, hhead, hparts⟩ := exists_parts hu
  exact (h.places head (hparts head hhead).1).space

theorem Legible.unitImports (h : ds.Legible) (hu : u ∈ ds.units) : ∀ i ∈ u.imports, i.Legible := by
  obtain ⟨order, head, parts, rfl, -, hparts⟩ := exists_parts hu
  intro i hi
  obtain ⟨t, ht, hi⟩ := mem_flatMap.1 (mem_distinct_iff.1 hi)
  exact (h.places t (hparts t ht).1).importsSeen i hi

end Declarations

namespace Workspace

variable {w : Workspace} {u : TypeUnit}

/-- A namespace-level type is declared by a document. -/
theorem declared_of_isTopLevel {t : DeclaredType} (ht : t ∈ w.index.types)
    (htop : t.isTopLevel = true) : ∃ doc ∈ w.documents, doc.source.Declares t.decl := by
  have hlisted : t.entry ∈ w.listedEntries :=
    mem_map_of_mem (mem_filter.2 ⟨ht, htop⟩)
  obtain ⟨doc, hdoc, hentry⟩ := mem_flatMap.1 (w.listedEntries_sublist.subset hlisted)
  refine ⟨doc, hdoc, Document.declares_of_mem_entries hentry ?_⟩
  rw [TypeDecl.family_eq]
  exact mem_cons_self

-- ===== sources

/-- The documents are what some texts are read as. -/
def ReadFrom (texts : List String) (w : Workspace) : Prop :=
  ∀ doc ∈ w.documents, ∃ text ∈ texts, ∃ first next,
    SourceFile.parse text first = .ok (doc.source, next)

section

variable {m : Type → Type} [Monad m] [LawfulMonad m] [MonadLog m] {texts : List String}

theorem ReadFrom.report (h : w.ReadFrom texts) (d : Diagnostic) :
    Always (ReadFrom texts) (w.report d : m Workspace) :=
  .after _ fun _ => .of_pure h

theorem ReadFrom.addDocument (h : w.ReadFrom texts) (path : Path) (project : Project)
    {text : String} (htext : text ∈ texts) :
    Always (fun r => r.1.ReadFrom texts)
      (w.addDocument path project text.toList : m (Workspace × Bool)) := by
  unfold Workspace.addDocument
  refine .after _ fun _ => ?_
  split
  · exact (h.report _).bind fun w hw => .of_pure hw
  next tokens htokens =>
  refine .after _ fun _ => ?_
  split
  · exact (h.report _).bind fun w hw => .of_pure hw
  next file next hparse =>
  have hfile : SourceFile.parse text w.nextNode = .ok (file, next) := by
    rw [SourceFile.parse, tokenize, htokens]
    dsimp only
    rw [hparse]
  exact .of_pure (forall_mem_append.2
    ⟨h, forall_mem_singleton.2 ⟨text, htext, w.nextNode, next, hfile⟩⟩)

theorem ReadFrom.addSources (h : w.ReadFrom texts) (project : Project)
    {sources : List (String × String)} (hsources : ∀ source ∈ sources, source.2 ∈ texts) :
    Always (ReadFrom texts) (w.addSources project sources : m Workspace) := by
  induction sources generalizing w with
  | nil => exact .of_pure h
  | cons source sources ih =>
    obtain ⟨hsource, hmore⟩ := forall_mem_cons.1 hsources
    exact (h.addDocument _ project hsource).bind fun r hr => ih hr hmore

theorem readFrom_of_documents_nil (hw : w.documents = []) : w.ReadFrom texts := by
  rw [ReadFrom, hw]
  exact forall_mem_nil _

theorem readFrom_ofSources (c : Context) (sources : List (String × String))
    (implicitUsings : Bool) :
    Always (ReadFrom (sources.map (·.2))) (ofSources c sources implicitUsings : m Workspace) := by
  refine (readFrom_of_documents_nil rfl).addSources _ fun source hsource => ?_
  exact mem_map_of_mem (mem_mergeSort.1 hsource)

end

/-- No identifier of a namespace's name or of a using directive is reserved. -/
def Unreserved (w : Workspace) : Prop :=
  ∀ doc ∈ w.documents, doc.source.Unreserved

variable {texts : List String}

theorem ReadFrom.legible (h : w.ReadFrom texts) (hwords : w.Unreserved) : w.Legible := by
  intro doc hdoc
  obtain ⟨text, -, first, next, hparse⟩ := h doc hdoc
  exact (SourceFile.parse_worded hparse).1.unreserved (hwords doc hdoc)

theorem ReadFrom.named (h : w.ReadFrom texts) (hu : u ∈ w.index.units) : IsWord u.name := by
  obtain ⟨order, head, parts, rfl, hhead, hparts⟩ := Declarations.exists_parts hu
  obtain ⟨hmem, htop⟩ := hparts head hhead
  obtain ⟨doc, hdoc, hd⟩ := declared_of_isTopLevel hmem htop
  obtain ⟨text, -, first, next, hparse⟩ := h doc hdoc
  exact (SourceFile.parse_worded hparse).2 head.decl hd

theorem ReadFrom.stands (h : w.ReadFrom texts) (hplain : ∀ text ∈ texts, '\r' ∉ text.toList)
    (hu : u ∈ w.index.units) {part : UnitPart} (hpart : part ∈ u.parts) : part.decl.Stands := by
  obtain ⟨order, head, parts, rfl, -, hparts⟩ := Declarations.exists_parts hu
  obtain ⟨t, ht, rfl⟩ := mem_map.1 hpart
  obtain ⟨hmem, htop⟩ := hparts t ht
  obtain ⟨doc, hdoc, hd⟩ := declared_of_isTopLevel hmem htop
  obtain ⟨text, htext, first, next, hparse⟩ := h doc hdoc
  exact stands_of_declares (hplain text htext) hparse hd

end Workspace

-- ===== bundles

/-- All that the text of a bundle names can be written out, and its declarations stand wherever
they are put. -/
structure Bundle.Writable {m : Type → Type} (b : Bundle) (s : Service m) : Prop where
  blockSpaces : ∀ u ∈ b.units, ∀ space ∈ b.blockSpaces u, ({ name := space } : Import).Legible
  imports : ∀ u ∈ b.units, ∀ i ∈ u.imports, i.Legible
  hoisted : ∀ i ∈ b.hoistedImports s, i.Legible
  space : ∀ u ∈ b.units, u.space.isEmpty = true ∨ IsSpaceName u.space
  parts : ∀ u ∈ b.units, u.parts ≠ []
  stands : ∀ u ∈ b.units, ∀ part ∈ u.parts, part.decl.Stands
  rootSpace : IsSpaceName b.root.space
  rootName : IsWord b.root.name

namespace Workspace

variable {w : Workspace} {root : String} {b : Bundle} {u : TypeUnit}

/-- What is bundled from sources without carriage returns and reserved words can be written
out. -/
theorem writable {texts : List String} (hread : w.ReadFrom texts)
    (hplain : ∀ text ∈ texts, '\r' ∉ text.toList) (hwords : w.Unreserved)
    (h : w.bundleOf root = .ok (.ok b)) : b.Writable w.service := by
  have hlegible := hread.legible hwords
  have hdeclared : w.index.toDeclarations.Legible := hlegible.declarations
  have hunit : ∀ {u}, u ∈ b.units → u ∈ w.index.units := mem_index_units_of_bundleOf h
  obtain ⟨hroot, hex⟩ := bundleOf_explained h
  have hrootUnit := hunit (root_mem_units hex)
  have hnamed : ∀ {v : TypeUnit}, v ∈ w.index.units → v.space.isEmpty = false →
      IsSpaceName v.space :=
    fun hv hne => (hdeclared.space hv).resolve_left (Bool.eq_false_iff.1 hne)
  constructor
  case blockSpaces =>
    intro u hu space hspace
    rcases mem_append.1 (mem_distinct_iff.1 hspace) with hneeded | himported
    · rw [hex.spaces_eq, lookup_map_of_nodup _ hex.nodup_names hu, Option.getD_some] at hneeded
      obtain ⟨dep, hdep, rfl, hne, -⟩ := exists_bundled_of_noted hex hu hneeded
      exact (hnamed (hunit hdep) hne).legible
    · obtain ⟨i, hi, rfl⟩ := mem_map.1 himported
      obtain ⟨htarget, -⟩ := hdeclared.unitImports (hunit hu) i (mem_filter.1 hi).1
      exact ⟨htarget, nofun⟩
  case imports => exact fun u hu => hdeclared.unitImports (hunit hu)
  case hoisted =>
    intro i hi
    obtain ⟨seen, hseen, rfl⟩ := mem_map.1 (mem_distinct_iff.1 hi)
    rcases mem_append.1 (mem_filter.1 hseen).1 with hlocal | hglobal
    · obtain ⟨space, -, hlocal⟩ := mem_flatMap.1 hlocal
      obtain ⟨entry, hentry, rfl⟩ := mem_map.1 (mem_distinct_iff.1 hlocal)
      exact hdeclared.imports entry (mem_filter.1 hentry).1
    · exact hlegible.globalImports seen hglobal
  case space => exact fun u hu => hdeclared.space (hunit hu)
  case parts =>
    intro u hu hnone
    obtain ⟨order, head, parts, rfl, hhead, -⟩ := Declarations.exists_parts (hunit hu)
    rw [map_eq_nil_iff.1 hnone] at hhead
    cases hhead
  case stands => exact fun u hu part hpart => hread.stands hplain (hunit hu) hpart
  case rootSpace =>
    obtain ⟨hfind, hspace⟩ := locateRoot_eq_ok hroot
    rw [w.index_regular.housed _ (.inl ⟨_, _, hfind⟩)] at hspace
    refine hnamed hrootUnit ?_
    rw [Option.some.inj hspace]
    exact (locateRoot_eq_ok_iff.1 hroot).1
  case rootName => exact hread.named hrootUnit

end Workspace

end SourceBundle

/-
The text of a bundle, read as a source file. It is made of texts of
entries: the usings of the file behind the comment, the scaffold, and
for each unit a namespace with its usings and declarations, or its
declarations alone. So the file that is read has the program in the
namespace of the scaffold and, in the order of the bundle, each unit's
declarations in its namespace (`Bundle.Restates`).

The one word that cannot stand before the call of the entry method is
`new`. A class may have it for a name, with a mark that the tree does
not keep; the text of such a root's bundle cannot be read
(`Workspace.markedRoot_not_parsed`).
-/
import SourceBundle.Proofs.Bundle.Scaffold
import SourceBundle.Proofs.Bundle.Writable

namespace SourceBundle

open List Parse Text

-- ===== lines

theorem afterLines_append (lines more : List String) :
    afterLines (lines ++ more) = afterLines lines ++ afterLines more :=
  flatMap_append

/-- Lines with their ends are the first line and the others after it, and one more end. -/
theorem charsOf_cons (line : String) (lines : List String) :
    charsOf (line :: lines) = line.toList ++ afterLines lines ++ ['\n'] := by
  induction lines generalizing line with
  | nil => simp [charsOf, afterLines]
  | cons next rest ih =>
    have hcons : charsOf (line :: next :: rest) = line.toList ++ ['\n'] ++ charsOf (next :: rest) :=
      flatMap_cons
    rw [hcons, ih, afterLines_cons]
    simp only [append_assoc]

-- ===== usings

/-- A line of a legible import, behind blanks. -/
def IsImportLine (indent line : String) : Prop :=
  ∃ i : Import, i.Legible ∧ line = indent ++ i.render

theorem entries_importLines {indent : String} {lines : List String}
    (hblank : ∀ c ∈ indent.toList, isGapBlank c = true) (hplain : '\r' ∉ indent.toList)
    (hlines : ∀ line ∈ lines, IsImportLine indent line) : Entries (afterLines lines) [] [] := by
  induction lines with
  | nil => exact .nil
  | cons line lines ih =>
    obtain ⟨⟨i, hi, rfl⟩, hmore⟩ := forall_mem_cons.1 hlines
    have hline : Entries ('\n' :: indent.toList ++ i.render.toList) [] [] := by
      refine hi.entries (forall_mem_cons.2 ⟨by decide, hblank⟩) fun hr => ?_
      exact (mem_cons.1 hr).elim (by decide) hplain
    have hcons : afterLines ((indent ++ i.render) :: lines)
        = '\n' :: indent.toList ++ i.render.toList ++ afterLines lines := by
      rw [afterLines_cons, String.toList_append]
      simp only [append_assoc, cons_append, nil_append]
    rw [hcons]
    exact hline.append (ih hmore)

-- ===== units

/-- The properties of declarations that are those of a unit again. -/
def TypeUnit.likenesses (u : TypeUnit) : List (TypeDecl → Prop) :=
  u.parts.map fun part => Alike part.decl

/-- The declarations of a unit, with some line ends in front. -/
theorem entries_parts {parts : List UnitPart} (hparts : parts ≠ [])
    (hstands : ∀ part ∈ parts, part.decl.Stands) (k : Nat) :
    Entries (List.replicate (k + 1) '\n' ++ ("\n\n".intercalate (parts.map (·.decl.text))).toList)
      (parts.map fun part => Alike part.decl) [] := by
  induction parts generalizing k with
  | nil => exact absurd rfl hparts
  | cons part more ih =>
    obtain ⟨hpart, hmore⟩ := forall_mem_cons.1 hstands
    cases more with
    | nil =>
      rw [map_singleton, String.intercalate_singleton]
      exact hpart.entries k
    | cons next rest =>
      have hrest := (hpart.entries k).append (ih (cons_ne_nil _ _) hmore 1)
      have hend : "\n\n".toList = List.replicate (1 + 1) '\n' := by decide
      rw [append_assoc] at hrest
      rw [map_cons, map_cons, String.intercalate_cons_cons, String.toList_append,
        String.toList_append, hend, append_assoc]
      exact hrest

namespace Bundle

variable {m : Type → Type} {s : Service m} {c : Context} {b : Bundle} {u : TypeUnit}

theorem Writable.ownImports (h : b.Writable s) (hu : u ∈ b.units) :
    ∀ line ∈ u.ownImports, ∃ i : Import, i.Legible ∧ line = i.render := by
  intro line hline
  obtain ⟨i, hi, rfl⟩ := mem_map.1 hline
  exact ⟨i, h.imports u hu i (mem_filter.1 hi).1, rfl⟩

/-- The usings of a unit's block, or those that stand for it at the top of the file. -/
theorem Writable.unitUsings (h : b.Writable s) (hu : u ∈ b.units) :
    ∀ line ∈ (b.blockSpaces u).map usingLine ++ u.ownImports,
      ∃ i : Import, i.Legible ∧ line = i.render := by
  refine forall_mem_append.2 ⟨fun line hline => ?_, h.ownImports hu⟩
  obtain ⟨space, hspace, rfl⟩ := mem_map.1 hline
  exact ⟨_, h.blockSpaces u hu space hspace, rfl⟩

/-- The block of a unit is a namespace with its usings and, after one or two line ends, its
declarations. -/
theorem afterLines_block (b : Bundle) (hspace : u.space.isEmpty = false) :
    ∃ k, afterLines ("" :: b.block u) = blockOpening u.space
      ++ (afterLines (b.blockUsings u) ++ (List.replicate (k + 1) '\n' ++ u.text.toList)
        ++ blockClosing) := by
  have hblock : b.block u = ("namespace " ++ u.space) :: "\x7b"
      :: ((if (b.blockUsings u).isEmpty then [] else b.blockUsings u ++ [""])
        ++ [u.text, "\x7d"]) := by
    rw [b.block_eq hspace, append_assoc]
    rfl
  rw [hblock, afterLines_opening, ← afterLines_closing]
  cases husings : b.blockUsings u with
  | nil =>
    refine ⟨0, congrArg _ ?_⟩
    rw [isEmpty_nil, if_pos rfl, nil_append, afterLines_cons]
    exact (append_assoc ..).symm
  | cons line lines =>
    have hempty : "".toList = [] := by decide
    refine ⟨1, congrArg _ ?_⟩
    rw [isEmpty_cons, if_neg Bool.false_ne_true, afterLines_append, afterLines_append,
      afterLines_cons "", afterLines_cons u.text, hempty]
    simp only [append_assoc]
    rfl

/-- The block of a unit that is not of the global namespace. -/
theorem Writable.entries_block (h : b.Writable s) (hu : u ∈ b.units)
    (hspace : u.space.isEmpty = false) :
    Entries (afterLines ("" :: b.block u)) [] [IsBlock u.space u.likenesses []] := by
  have hlines : ∀ line ∈ b.blockUsings u, IsImportLine "    " line := by
    intro line hline
    obtain ⟨line, hmem, rfl⟩ := mem_map.1 (mem_distinct_iff.1 hline)
    obtain ⟨i, hi, rfl⟩ := h.unitUsings hu line hmem
    exact ⟨i, hi, rfl⟩
  have husings := entries_importLines (forall_mem_of_all (by decide)) (by decide) hlines
  obtain ⟨k, hblock⟩ := afterLines_block b hspace
  rw [hblock]
  refine (husings.append (entries_parts (h.parts u hu) (h.stands u hu) k)).block ?_
  exact (h.space u hu).resolve_left (Bool.eq_false_iff.1 hspace)

/-- The declarations of a unit of the global namespace. -/
theorem Writable.entries_blockless (h : b.Writable s) (hu : u ∈ b.units)
    (hspace : u.space.isEmpty = true) : Entries (afterLines ("" :: b.block u)) u.likenesses [] := by
  have hblock : b.block u = [u.text] := if_pos hspace
  have hlines : afterLines ["", u.text] = List.replicate (1 + 1) '\n' ++ u.text.toList := by
    have hempty : "".toList = [] := by decide
    rw [afterLines_cons, afterLines_cons, hempty]
    simp only [nil_append, afterLines, flatMap_nil, append_nil]
    rfl
  rw [hblock, hlines]
  exact entries_parts (h.parts u hu) (h.stands u hu) 1

/-- The declarations of units that stand at the top level, as properties of what is read. -/
def blocklessTypes (units : List TypeUnit) : List (TypeDecl → Prop) :=
  (units.filter (·.space.isEmpty)).flatMap TypeUnit.likenesses

/-- The namespaces of the other units, as properties of what is read. -/
def unitBlocks (units : List TypeUnit) : List (NamespaceDecl → Prop) :=
  (units.filter (!·.space.isEmpty)).map fun u => IsBlock u.space u.likenesses []

/-- The units of a bundle, one after another. -/
theorem Writable.entries_units (h : b.Writable s) {units : List TypeUnit}
    (hunits : ∀ u ∈ units, u ∈ b.units) :
    Entries (afterLines (units.flatMap fun u => "" :: b.block u)) (blocklessTypes units)
      (unitBlocks units) := by
  induction units with
  | nil => exact .nil
  | cons u units ih =>
    obtain ⟨hu, hmore⟩ := forall_mem_cons.1 hunits
    rw [flatMap_cons, afterLines_append]
    cases hspace : u.space.isEmpty with
    | true =>
      have hrest := (h.entries_blockless hu hspace).append (ih hmore)
      simpa [blocklessTypes, unitBlocks, hspace] using hrest
    | false =>
      have hrest := (h.entries_block hu hspace).append (ih hmore)
      simpa [blocklessTypes, unitBlocks, hspace] using hrest

-- ===== the file

/-- The comment that opens a file and its first using. -/
def openingLines : List String :=
  ["* Read input from Console",
   "* Use: Console.WriteLine to output your result to STDOUT.",
   "* Use: Console.Error.WriteLine to output debugging information to STDERR;",
   "*/",
   "",
   "using System"]

def openingChars : List Char :=
  "/*******".toList ++ afterLines openingLines

theorem entries_opening : Entries (openingChars ++ [';']) [] [] := by
  have hfront : Piece openingChars [(.usingKw, "using"), (.ident, "System")] _ _ :=
    .fixed (by decide +kernel) (by decide +kernel) (by decide) (by decide)
  have hsigns : usingSigns none false { name := "System" }
      = [(.usingKw, "using"), (.ident, "System")] ++ [(.semi, ";")] := by decide +kernel
  have htype : TypeRef.Legible { name := "System" } := .named rfl (by decide) nofun nofun
  have halias : ∀ a ∈ (none : Option String), IsPlainName a := nofun
  have hpiece := hfront.append (.stop ';' .semi (by decide) rfl) fun _ h => h.of_eq (by decide)
  rw [← hsigns] at hpiece
  exact entries_using htype halias hpiece

/-- The usings of a file after the first one. -/
theorem Writable.fileUsings (h : b.Writable s) (husings : c.defaultUsings = defaultFileUsings) :
    ∃ lines, b.fileUsings s c = "using System;" :: lines
      ∧ ∀ line ∈ lines, IsImportLine "" line := by
  have hall : ∀ line ∈ b.fileUsings s c, IsImportLine "" line := by
    intro line hline
    suffices himport : ∃ i : Import, i.Legible ∧ line = i.render by
      obtain ⟨i, hi, rfl⟩ := himport
      exact ⟨i, hi, String.empty_append.symm⟩
    rcases mem_append.1 (mem_distinct_iff.1 hline) with hline | hblockless
    · rcases mem_append.1 hline with hdefault | hhoisted
      · obtain ⟨space, hspace, rfl⟩ := mem_map.1 hdefault
        have hspaces : ∀ space ∈ defaultFileUsings, IsSpaceName space := by decide
        exact ⟨_, (hspaces space (husings ▸ hspace)).legible, rfl⟩
      · split at hhoisted
        · obtain ⟨i, hi, rfl⟩ := mem_map.1 hhoisted
          exact ⟨i, h.hoisted i hi, rfl⟩
        · cases hhoisted
    · obtain ⟨u, hu, hline⟩ := mem_flatMap.1 hblockless
      exact h.unitUsings (mem_filter.1 hu).1 line hline
  have hcons : ∃ lines, b.fileUsings s c = "using System;" :: lines := by
    have hfirst : defaultFileUsings.map usingLine
        = "using System;" :: defaultFileUsings.tail.map usingLine := by decide +kernel
    unfold Bundle.fileUsings
    rw [husings, hfirst]
    exact ⟨_, rfl⟩
  obtain ⟨lines, hlines⟩ := hcons
  rw [hlines] at hall
  exact ⟨lines, hlines, (forall_mem_cons.1 hall).2⟩

/-- What a source file has to hold to be that of a bundle: at the top level the declarations of
the units of the global namespace; and of namespaces that of the scaffold, with the program, and
after it one for each other unit, with its declarations. Declarations are alike if their texts are
equal, and their trees up to spans. -/
structure Restates (b : Bundle) (c : Context) (file : SourceFile) : Prop where
  types : Meets (blocklessTypes b.units) file.types
  namespaces : Meets (IsBlock c.scaffoldNamespace [IsProgram] [] :: unitBlocks b.units)
    file.namespaces

/-- The text of a bundle is the opening, the other usings, the scaffold and the units. -/
theorem toList_text_eq {lines : List String}
    (hlines : b.fileUsings s c = "using System;" :: lines) :
    (b.text s c).toList = openingChars ++ [';'] ++ (afterLines lines
      ++ (afterLines ("" :: scaffold c b.root)
        ++ afterLines (b.units.flatMap fun u => "" :: b.block u))) ++ ['\n'] := by
  have hopening : openingChars ++ [';']
      = "/*******".toList ++ afterLines (openingComment.tail ++ ["", "using System;"]) := by
    decide +kernel
  have hcomment : b.lines s c
      = "/*******" :: (openingComment.tail ++ ["", "using System;"] ++ (lines
      ++ ("" :: scaffold c b.root ++ b.units.flatMap fun u => "" :: b.block u))) := by
    unfold Bundle.lines
    rw [hlines]
    simp only [append_assoc, cons_append, nil_append]
    rfl
  rw [toList_text, hcomment, charsOf_cons, hopening, afterLines_append, afterLines_append lines,
    afterLines_append (_ :: scaffold c b.root)]
  simp only [append_assoc]

/-- The text of a bundle that can be written out is read as the bundle's file, unless its root is
named `new`. -/
theorem Writable.parse_text (h : b.Writable s) (husings : c.defaultUsings = defaultFileUsings)
    (hentry : c.entryMethod = "Solve") (hspace : IsSpaceName c.scaffoldNamespace)
    (hnew : b.root.name ≠ "new") (first : Nat) :
    ∃ file next, SourceFile.parse (b.text s c) first = .ok (file, next) ∧ b.Restates c file := by
  obtain ⟨lines, hlines, himports⟩ := h.fileUsings husings
  have hscaffold := entries_scaffold hentry hspace h.rootSpace.legible h.rootName hnew
  have himported := entries_importLines (forall_mem_of_all (by decide)) (by decide) himports
  have hentries := entries_opening.append (himported.append
    (hscaffold.append (h.entries_units fun _ hu => hu)))
  obtain ⟨file, next, hparse, htypes, hspaces⟩ := hentries.parse first
  rw [← toList_text_eq hlines, String.ofList_toList] at hparse
  exact ⟨file, next, hparse, htypes, hspaces⟩

end Bundle

-- ===== workspaces

namespace Workspace

variable {root : String} {b : Bundle}

/-- The bundle of a root that is not named `new`, in any workspace of texts without carriage
returns and without reserved words for names, is written as a source file that has the program in
the scaffold's namespace and, in the bundle's order, the declarations of each unit in its own. -/
theorem bundle_reparsed (policy : Policy) (sources : List (String × String))
    (implicitUsings : Bool) (hplain : ∀ source ∈ sources, '\r' ∉ source.2.toList)
    (hwords : (Id.run (ofSources { policy } sources implicitUsings)).Unreserved)
    (h : (Id.run (ofSources { policy } sources implicitUsings)).bundleOf root = .ok (.ok b))
    (hnew : b.root.name ≠ "new") (first : Nat) :
    ∃ file next, SourceFile.parse
        ((Id.run (ofSources { policy } sources implicitUsings)).textOf b) first = .ok (file, next)
      ∧ b.Restates { policy } file := by
  have hread := always_id_iff.1 (readFrom_ofSources (m := Id) { policy } sources implicitUsings)
  have hcontext : (Id.run (ofSources { policy } sources implicitUsings)).context = { policy } := by
    unfold ofSources
    exact context_addSources _ _ _
  have hwritable := writable hread (forall_mem_map.2 hplain) hwords h
  have hspace : IsSpaceName ({ policy } : Context).scaffoldNamespace := by
    have hname : IsSpaceName "CSharpContestProject" := by decide +kernel
    exact hname
  rw [textOf, hcontext]
  exact hwritable.parse_text rfl rfl hspace hnew first

instance (w : Workspace) : Decidable w.Unreserved :=
  inferInstanceAs (Decidable (∀ doc ∈ w.documents, doc.source.Unreserved))

/-- The root calls into the global namespace and, through a using, a type of two parts. -/
def scatteredSources : List (String × String) :=
  [("A.cs", "using X;\nnamespace A \x7b\n  // calls two others\n  class R \x7b "
      ++ "static int Solve() => Top.F() + T.G(); \x7d \x7d"),
   ("T.cs", "static class Top \x7b static int F() => 1; \x7d"),
   ("X.cs", "namespace X \x7b partial class T \x7b static int G() => 2; \x7d "
      ++ "partial class T \x7b \x7d \x7d")]

def scattered : Workspace :=
  Id.run (ofSources {} scatteredSources)

theorem scattered_eq : scattered
    = Id.run (addSources { context := {}, projects := [textProject false] } (textProject false)
        scatteredSources) :=
  ofSources_of_sorted {} (by decide +kernel)

theorem scattered_unreserved : scattered.Unreserved := by
  rewrite [scattered_eq]
  decide +kernel

theorem scattered_bundles : scattered.bundles "A.R" (fun b => b.root.name == "R"
    && b.names == ["A.R", "Top", "X.T"] && b.units.map (·.parts.length) == [1, 1, 2]) = true := by
  rewrite [scattered_eq]
  decide +kernel

theorem bundle_reparsed_scattered :
    (∀ source ∈ scatteredSources, '\r' ∉ source.2.toList) ∧ scattered.Unreserved
      ∧ ∃ b, scattered.bundleOf "A.R" = .ok (.ok b) ∧ b.names = ["A.R", "Top", "X.T"]
        ∧ b.units.map (·.parts.length) = [1, 1, 2]
        ∧ ∃ file next, SourceFile.parse (scattered.textOf b) = .ok (file, next)
          ∧ b.Restates {} file := by
  have hplain : ∀ source ∈ scatteredSources, '\r' ∉ source.2.toList := by decide +kernel
  obtain ⟨b, hb, htest⟩ := exists_of_bundles scattered_bundles
  simp only [Bool.and_eq_true, beq_iff_eq] at htest
  obtain ⟨⟨hname, hnames⟩, hparts⟩ := htest
  refine ⟨hplain, scattered_unreserved, b, hb, hnames, hparts, ?_⟩
  have hnew : b.root.name ≠ "new" := by
    rw [hname]
    decide
  exact bundle_reparsed .wide scatteredSources false hplain scattered_unreserved hb hnew 0

-- ===== a marked root

/-- A root whose name is a reserved word behind a mark. -/
def markedSources : List (String × String) :=
  [("A.cs", "namespace A \x7b class @new \x7b static int Solve() => 1; \x7d \x7d")]

def marked : Workspace :=
  Id.run (ofSources {} markedSources)

theorem marked_eq : marked
    = Id.run (addSources { context := {}, projects := [textProject false] } (textProject false)
        markedSources) :=
  ofSources_of_sorted {} (by decide +kernel)

/-- The lines of its bundle, where the call of the entry method begins with the bare word. -/
def markedLines : List String :=
  openingComment ++ [""] ++ ({} : Context).defaultUsings.map usingLine
    ++ ["",
        "namespace CSharpContestProject",
        "\x7b",
        "    using A;",
        "",
        "    class Program",
        "    \x7b",
        "        static void Main(string[] args)",
        "        \x7b",
        "            var result = new.Solve();",
        "            Console.WriteLine(result);",
        "        \x7d",
        "    \x7d",
        "\x7d",
        "",
        "namespace A",
        "\x7b",
        " class @new \x7b static int Solve() => 1; \x7d",
        "\x7d"]

theorem marked_bundles : marked.bundles "A.new" (fun b =>
    b.lines marked.service marked.context == markedLines) = true := by
  rewrite [marked_eq]
  decide +kernel

theorem markedLines_unread : (match tokensOf {} true (stripMark (charsOf markedLines)) with
    | .ok ts => (sourceFile (stripMark (charsOf markedLines)) (.ofTokens ts)).toBool
    | .error _ => true) = false := by
  decide +kernel

/-- The text of a bundle whose root is named `new` is no source file, though no word of a
namespace's name or of a directive is reserved. -/
theorem markedRoot_not_parsed :
    (∀ source ∈ markedSources, '\r' ∉ source.2.toList) ∧ marked.Unreserved
      ∧ ∃ b e, marked.bundleOf "A.new" = .ok (.ok b)
        ∧ SourceFile.parse (marked.textOf b) = .error e := by
  have hwords : marked.Unreserved := by
    rewrite [marked_eq]
    decide +kernel
  obtain ⟨b, hb, hlines⟩ := exists_of_bundles marked_bundles
  have htext : (marked.textOf b).toList = charsOf markedLines := by
    rw [← beq_iff_eq.1 hlines, ← Bundle.toList_text]
    rfl
  cases hparse : SourceFile.parse (marked.textOf b) with
  | error e => exact ⟨by decide +kernel, hwords, b, e, hb, hparse⟩
  | ok r =>
    obtain ⟨ts, u, htokens, hfile, -⟩ := parse_eq_ok_iff.1 hparse
    rw [htext] at htokens hfile
    have hfails := markedLines_unread
    rw [htokens] at hfails
    dsimp only at hfails
    rw [hfile] at hfails
    cases hfails

end Workspace

end SourceBundle

/-
The usings that a bundle's text opens with, and those of its blocks.

For each unit, in the order in which the units were found, a bundle has
the namespaces of what the unit refers to (`Bundle.Noted`). Each of them
is noted while the unit is expanded, when its own units are still on the
stack; that they are marked in the end is a matter of the whole walk:
what a bundled unit leads to is bundled. So a using of a namespace that
a unit brings into the text is one of a namespace with a bundled unit
(`Bundle.Brings`), in the unit's block as at the top of the file.

Such a using lets the declarations see all of the namespace. So when the
text is opened again, a name that was found in one namespace can be
found in two, and what it referred to is lost (`clash_not_sameNames`).
-/
import SourceBundle.Proofs.Bundle.Rendered
import SourceBundle.Proofs.Bundle.Workspaces

namespace SourceBundle

open List Text

namespace Bundle

variable {m : Type → Type} {s : Service m} {c : Context} {b : Bundle} {u : TypeUnit}

-- ===== vocabulary

/-- What is noted for a unit stands under its name: namespaces of bundled units, each once, and
neither the global one nor the unit's own. -/
structure Noted (b : Bundle) (u : TypeUnit) (entry : String × List String) : Prop where
  key : entry.1 = u.qualifiedName
  nodup : entry.2.Nodup
  named : "" ∉ entry.2
  foreign : u.space ∉ entry.2
  bundled : ∀ space ∈ entry.2, ∃ v ∈ b.units, v.space = space

/-- A using that a unit brings into the text: of the namespace of a bundled unit that is not its
own, or an alias or static using that its declarations see. -/
def Brings (b : Bundle) (u : TypeUnit) (line : String) : Prop :=
  (∃ v ∈ b.units, v.space ≠ u.space ∧ line = usingLine v.space)
    ∨ ∃ i ∈ u.imports, i.isPlain = false ∧ line = i.render

/-- The usings of a unit's block. -/
def blockUsings (b : Bundle) (u : TypeUnit) : List String :=
  distinct (((b.blockSpaces u).map usingLine ++ u.ownImports).map ("    " ++ ·))

/-- The usings of a bundle's text are grounded in its units. Those at the top of the file that no
unit brings are the ones that every file has, and those that are hoisted. -/
structure Grounded (b : Bundle) (s : Service m) (c : Context) : Prop where
  noted : List.Forall₂ b.Noted b.units b.spaces
  block : ∀ u ∈ b.units, u.space ≠ "" → ∃ usings, b.block u
      = ["namespace " ++ u.space, "\x7b"] ++ (if usings.isEmpty then [] else usings ++ [""])
        ++ [u.text, "\x7d"]
    ∧ usings.Nodup ∧ ∀ line ∈ usings, ∃ bare, line = "    " ++ bare ∧ b.Brings u bare
  file_nodup : (b.fileUsings s c).Nodup
  file : ∀ line ∈ b.fileUsings s c, (∃ space ∈ c.defaultUsings, line = usingLine space)
    ∨ (c.hoist = true ∧ ∃ i ∈ b.hoistedImports s, line = i.render)
    ∨ ∃ u ∈ b.units, u.space = "" ∧ b.Brings u line

-- ===== lines

/-- The block of a unit: its namespace, its usings if it has any, and its declarations. -/
theorem block_eq (b : Bundle) (hspace : u.space.isEmpty = false) :
    b.block u = ["namespace " ++ u.space, "\x7b"]
      ++ (if (b.blockUsings u).isEmpty then [] else b.blockUsings u ++ [""])
      ++ [u.text, "\x7d"] := by
  unfold block
  rw [if_neg (Bool.eq_false_iff.1 hspace)]
  rfl

theorem isEmpty_eq_false_of_ne {space : String} (h : space ≠ "") : space.isEmpty = false :=
  Bool.eq_false_iff.2 fun hempty => h (String.isEmpty_iff.1 hempty)

theorem mem_namespaces_iff {space : String} :
    space ∈ b.namespaces ↔ ∃ v ∈ b.units, v.space = space := by
  rw [namespaces, mem_distinct_iff, mem_map]

/-- The using lines that a unit brings, if what is noted for it is. -/
theorem brings_of_mem {needed : List String}
    (hneeded : b.spaces.lookup u.qualifiedName = some needed)
    (hnoted : b.Noted u (u.qualifiedName, needed)) :
    ∀ line ∈ (b.blockSpaces u).map usingLine ++ u.ownImports, b.Brings u line := by
  refine forall_mem_append.2 ⟨fun line hline => ?_, fun line hline => ?_⟩
  · obtain ⟨space, hspace, rfl⟩ := mem_map.1 hline
    rw [blockSpaces, hneeded, Option.getD_some, mem_distinct_iff, mem_append] at hspace
    rcases hspace with hspace | hspace
    · obtain ⟨v, hv, rfl⟩ := hnoted.bundled space hspace
      exact .inl ⟨v, hv, fun hown => hnoted.foreign (hown ▸ hspace), rfl⟩
    · obtain ⟨i, hi, rfl⟩ := mem_map.1 hspace
      have htest := (mem_filter.1 hi).2
      simp only [Bool.and_eq_true, decide_eq_true_eq, contains_iff_mem] at htest
      obtain ⟨⟨-, hbundled⟩, hown⟩ := htest
      obtain ⟨v, hv, hname⟩ := mem_namespaces_iff.1 hbundled
      exact .inl ⟨v, hv, hname ▸ hown, by rw [hname]⟩
  · obtain ⟨i, hi, rfl⟩ := mem_map.1 hline
    obtain ⟨hmem, hplain⟩ := mem_filter.1 hi
    exact .inr ⟨i, hmem, by simpa using hplain, rfl⟩

/-- If units bring only usings that are grounded, the text has no others. -/
theorem grounded_of_noted (hnoted : List.Forall₂ b.Noted b.units b.spaces)
    (hbrings : ∀ u ∈ b.units, ∀ line ∈ (b.blockSpaces u).map usingLine ++ u.ownImports,
      b.Brings u line) : b.Grounded s c where
  noted := hnoted
  block u hu hspace := by
    refine ⟨b.blockUsings u, b.block_eq (isEmpty_eq_false_of_ne hspace), nodup_distinct _, ?_⟩
    intro line hline
    obtain ⟨bare, hbare, rfl⟩ := mem_map.1 (mem_distinct_iff.1 hline)
    exact ⟨bare, rfl, hbrings u hu bare hbare⟩
  file_nodup := nodup_distinct _
  file line hline := by
    rcases mem_append.1 (mem_distinct_iff.1 hline) with hline | hblockless
    · rcases mem_append.1 hline with hdefault | hhoisted
      · obtain ⟨space, hspace, rfl⟩ := mem_map.1 hdefault
        exact .inl ⟨space, hspace, rfl⟩
      · split at hhoisted
        next hhoist =>
          obtain ⟨i, hi, rfl⟩ := mem_map.1 hhoisted
          exact .inr (.inl ⟨hhoist, i, hi, rfl⟩)
        next => cases hhoisted
    · obtain ⟨u, hu, hline⟩ := mem_flatMap.1 hblockless
      obtain ⟨hu, hspace⟩ := mem_filter.1 hu
      exact .inr (.inr ⟨u, hu, String.isEmpty_iff.1 hspace, hbrings u hu line hline⟩)

end Bundle

-- ===== walks

namespace Workspace

variable {w : Workspace} {c : Context} {st : BindState} {b : Bundle} {u : TypeUnit}

/-- A namespace that is noted for a unit is that of another bundled unit, and not the global
one. -/
theorem exists_bundled_of_noted (hex : b.Explained w.service c st) (hu : u ∈ b.units)
    {space : String}
    (hspace : space
      ∈ (noted (w.service.expandBy c.policy (w.service.account c b.units st)) u).spaces) :
    ∃ dep ∈ b.units, dep.space = space ∧ space.isEmpty = false ∧ space ≠ u.space := by
  cases henum : u.isEnum with
  | true =>
    rw [noted, if_pos henum] at hspace
    cases hspace
  | false =>
    obtain ⟨found, hfound⟩ := hex.collected u hu henum
    rw [noted, if_neg (Bool.eq_false_iff.1 henum), Service.expandBy, hfound, Option.getD_some]
      at hspace
    obtain ⟨dep, hdep, hforeign⟩ := mem_filterMap.1 (mem_distinct_iff.1 hspace)
    obtain ⟨symbol, hsymbol, rfl⟩ := mem_map.1 hdep
    cases hdependency : w.service.dependency symbol with
    | absent =>
      rw [hdependency] at hforeign
      cases hforeign
    | homeless v =>
      rw [hdependency] at hforeign
      cases hforeign
    | located v home =>
      obtain ⟨hkind, hunit, hhome⟩ := Service.dependency_eq_located_iff.1 hdependency
      -- what a bundled unit refers to is bundled
      have hleads : w.service.LeadsBy c.policy (w.service.account c b.units st) u v :=
        ⟨henum, found, hfound, symbol, hsymbol, hkind, v, home, hunit, hhome, .inl rfl⟩
      have hv : v ∈ b.units := (hex.mem_units_iff v).2 (((hex.mem_units_iff u).1 hu).tail hleads)
      rw [w.index_regular.housed v (.inr (.inl ⟨symbol, hunit⟩))] at hhome
      cases hhome
      rw [hdependency, Dependency.foreignSpace?] at hforeign
      split at hforeign
      next => cases hforeign
      next hother =>
        cases hforeign
        rw [Bool.or_eq_true, not_or] at hother
        exact ⟨v, hv, rfl, Bool.eq_false_iff.2 hother.1, fun hown => hother.2 (decide_eq_true hown)⟩

theorem noted_of_explained (hex : b.Explained w.service c st) (hu : u ∈ b.units) :
    b.Noted u (u.qualifiedName,
      (noted (w.service.expandBy c.policy (w.service.account c b.units st)) u).spaces) where
  key := rfl
  nodup := by
    unfold SourceBundle.noted
    split
    · exact nodup_nil
    · exact nodup_distinct _
  named hempty := by
    obtain ⟨_, -, -, hne, -⟩ := exists_bundled_of_noted hex hu hempty
    cases hne
  foreign hown := by
    obtain ⟨_, -, -, -, hne⟩ := exists_bundled_of_noted hex hu hown
    exact hne rfl
  bundled space hspace := by
    obtain ⟨dep, hdep, hsame, -⟩ := exists_bundled_of_noted hex hu hspace
    exact ⟨dep, hdep, hsame⟩

/-- The usings of what is bundled in a workspace, in whatever state its session is, are grounded:
for each unit in order there are the namespaces of what it refers to, each once, and units bring
only usings of namespaces with bundled units into the text, each once. -/
theorem usings_grounded (w : Workspace) (c : Context) {root : String} {st st' : BindState}
    {b : Bundle} (h : (bundle w.service c root).Gives st (.ok b) st') (options : Context) :
    b.Grounded w.service options := by
  obtain ⟨_, -, hb⟩ | ⟨_, hb, -, hex⟩ := bundle_explained w.index_regular.distinct h
  · cases hb
  cases hb
  refine Bundle.grounded_of_noted ?_ fun u hu => ?_
  · rw [hex.spaces_eq, forall₂_map_right_iff, forall₂_same]
    exact fun u hu => noted_of_explained hex hu
  · refine Bundle.brings_of_mem ?_ (noted_of_explained hex hu)
    rw [hex.spaces_eq, lookup_map_of_nodup _ hex.nodup_names hu]

/-- The root and a class of the global namespace both refer to the namespace `X`. -/
def sharedSources : List (String × String) :=
  [("A.cs", "using X; using static X.T; namespace A \x7b "
      ++ "class R \x7b static int Solve() => Top.F() + T.G(); \x7d \x7d"),
   ("T.cs", "using X; using System.Text; static class Top \x7b static int F() => T.G(); \x7d"),
   ("X.cs", "namespace X \x7b class T \x7b static int G() => 1; \x7d \x7d")]

def shared : Workspace :=
  Id.run (ofSources {} sharedSources)

theorem shared_bundles : shared.bundles "A.R" (fun b =>
    b.spaces == [("A.R", ["X"]), ("Top", ["X"]), ("X.T", [])]) = true := by
  rewrite [shared, ofSources_of_sorted {} (by decide +kernel)]
  decide +kernel

theorem usings_grounded_shared :
    ∃ b st, (bundle shared.service shared.context "A.R").Gives {} (.ok b) st
      ∧ b.spaces = [("A.R", ["X"]), ("Top", ["X"]), ("X.T", [])]
      ∧ b.Grounded shared.service { hoist := false } := by
  obtain ⟨b, hb, hspaces⟩ := exists_of_bundles shared_bundles
  obtain ⟨st, hgives⟩ := Session.exists_gives_of_start hb
  exact ⟨b, st, hgives, beq_iff_eq.1 hspaces, usings_grounded shared _ hgives _⟩

-- ===== the text opened again

/-- The workspace whose one source is the text of a bundle. -/
def reopen (w : Workspace) (b : Bundle) (file : String) : Workspace :=
  Id.run (ofSources w.context [(file, w.textOf b)])

/-- A single source is read from its characters. -/
theorem reopen_eq (w : Workspace) (b : Bundle) (file : String) : w.reopen b file
    = (Id.run (addDocument { context := w.context, projects := [textProject false] }
        (.ofText file) (textProject false) (Text.charsOf (b.lines w.service w.context)))).1 := by
  rw [← Bundle.toList_text]
  exact (ofSources_of_sorted w.context (pairwise_singleton _ _)).trans
    (addSources_cons _ _ _ _ [])

/-- The root calls into the namespace `Y` by a full name and into `X` through a using; both have a
type `T`. -/
def clashSources : List (String × String) :=
  [("A.cs", "using X; namespace A \x7b "
      ++ "class R \x7b static int Solve() => Y.F.B() + T.G(); \x7d \x7d"),
   ("X.cs", "namespace X \x7b class T \x7b static int G() => 1; \x7d \x7d"),
   ("Y.cs", "namespace Y \x7b class F \x7b static int B() => T.G(); \x7d "
      ++ "class T \x7b static int G() => 2; \x7d \x7d")]

def clash : Workspace :=
  Id.run (ofSources {} clashSources)

/-- The lines of the bundle of its root. In the block of the root the usings of both namespaces
stand side by side. -/
def clashLines : List String :=
  openingComment ++ [""] ++ ({} : Context).defaultUsings.map usingLine
    ++ ["",
        "namespace CSharpContestProject",
        "\x7b",
        "    using A;",
        "",
        "    class Program",
        "    \x7b",
        "        static void Main(string[] args)",
        "        \x7b",
        "            var result = R.Solve();",
        "            Console.WriteLine(result);",
        "        \x7d",
        "    \x7d",
        "\x7d",
        "",
        "namespace A",
        "\x7b",
        "    using Y;",
        "    using X;",
        "",
        " class R \x7b static int Solve() => Y.F.B() + T.G(); \x7d",
        "\x7d",
        "",
        "namespace Y",
        "\x7b",
        " class F \x7b static int B() => T.G(); \x7d",
        "\x7d",
        "",
        "namespace Y",
        "\x7b",
        " class T \x7b static int G() => 2; \x7d",
        "\x7d",
        "",
        "namespace X",
        "\x7b",
        " class T \x7b static int G() => 1; \x7d",
        "\x7d"]

theorem clash_eq : clash
    = Id.run (addSources { context := {}, projects := [textProject false] } (textProject false)
        clashSources) :=
  ofSources_of_sorted {} (by decide +kernel)

/-- The text of the bundle, opened as a workspace. -/
def clashAgain : Workspace :=
  (Id.run (addDocument { context := {}, projects := [textProject false] } (.ofText "R.cs")
    (textProject false) (Text.charsOf clashLines))).1

theorem clash_bundles :
    clash.bundles "A.R" (fun b => b.diagnostics.isEmpty
      && b.names == ["A.R", "Y.F", "Y.T", "X.T"]
      && b.lines clash.service clash.context == clashLines) = true := by
  rewrite [clash_eq]
  decide +kernel

theorem clashAgain_bundles :
    clashAgain.bundles "A.R" (fun b => b.names == ["A.R", "Y.F", "Y.T"]) = true := by
  decide +kernel

/-- The bundle of the clash has no diagnostics, and its text is what it should be. -/
theorem clash_bundleOf : ∃ b, clash.bundleOf "A.R" = .ok (.ok b) ∧ b.diagnostics = []
    ∧ b.names = ["A.R", "Y.F", "Y.T", "X.T"] ∧ clash.reopen b "R.cs" = clashAgain := by
  obtain ⟨b, hb, htest⟩ := exists_of_bundles clash_bundles
  simp only [Bool.and_eq_true, beq_iff_eq, List.isEmpty_iff] at htest
  obtain ⟨⟨hclean, hnames⟩, hlines⟩ := htest
  have hcontext : clash.context = {} := by
    rewrite [clash_eq]
    exact context_addSources _ _ _
  refine ⟨b, hb, hclean, hnames, ?_⟩
  rewrite [reopen_eq, hlines, hcontext, clashAgain]
  rfl

/-- In the text of the clash the name `T` is found in two namespaces, and the one that the root
refers to is lost. -/
theorem clash_not_sameNames :
    ∃ b b', clash.bundleOf "A.R" = .ok (.ok b) ∧ b.diagnostics = []
      ∧ (clash.reopen b "R.cs").bundleOf "A.R" = .ok (.ok b')
      ∧ "X.T" ∈ b.names ∧ "X.T" ∉ b'.names := by
  obtain ⟨b, hb, hclean, hnames, hreopen⟩ := clash_bundleOf
  obtain ⟨b', hb', hnames'⟩ := exists_of_bundles clashAgain_bundles
  rw [beq_iff_eq] at hnames'
  refine ⟨b, b', hb, hclean, ?_, ?_, ?_⟩
  · rewrite [hreopen]
    exact hb'
  · rw [hnames]
    decide
  · rw [hnames']
    decide

end Workspace

end SourceBundle

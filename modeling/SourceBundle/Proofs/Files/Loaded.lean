/-
What holds of every workspace that is made of texts or loaded from
files.

A workspace grows step by step: a project is listed, or a document of a
listed project is parsed and added. What is reported on the way, and
which files were read, is kept beside. A property that each step keeps
holds wherever the steps lead (`Workspace.Grows.load`).
-/
import SourceBundle.Proofs.Effects
import SourceBundle.Workspace

namespace SourceBundle

open List

namespace Workspace

/-- Every step of loading keeps a property of workspaces. -/
structure Grows (I : Workspace → Prop) : Prop where
  beside : ∀ {w : Workspace}, I w → ∀ diagnostics loaded, I { w with diagnostics, loaded }
  project : ∀ {w : Workspace}, I w → ∀ project, I { w with projects := w.projects ++ [project] }
  document : ∀ {w : Workspace} {project : Project} {source : List Char} {tokens : List Token}
    {parsed : SourceFile × Nat}, I w → project ∈ w.projects →
    parseTokens source tokens w.nextNode = .ok parsed → ∀ path,
    I { w with documents := w.documents ++ [⟨path, project, parsed.1⟩], nextNode := parsed.2 }

/-- A listed project stays listed. -/
theorem Grows.listed {I : Workspace → Prop} (hI : Grows I) (project : Project) :
    Grows fun w => I w ∧ project ∈ w.projects where
  beside h diagnostics loaded := ⟨hI.beside h.1 diagnostics loaded, h.2⟩
  project h other := ⟨hI.project h.1 other, mem_append_left _ h.2⟩
  document h hproject hparse path := ⟨hI.document h.1 hproject hparse path, h.2⟩

namespace Grows

variable {m : Type → Type} [Monad m] [LawfulMonad m] [MonadLog m] {I : Workspace → Prop}
  (hI : Grows I) {w : Workspace}
include hI

theorem report (hw : I w) (d : Diagnostic) : Always I (w.report d : m Workspace) :=
  .after _ fun _ => .of_pure (hI.beside hw _ w.loaded)

theorem reportAll (hw : I w) (ds : List Diagnostic) : Always I (w.reportAll ds : m Workspace) := by
  induction ds generalizing w with
  | nil => exact .of_pure hw
  | cons d ds ih => exact (hI.report hw d).bind fun w hw => ih hw

section

variable {project : Project} (hlisted : ∀ {w : Workspace}, I w → project ∈ w.projects)
include hlisted

theorem addDocument (hw : I w) (path : Path) (source : List Char) :
    Always (fun r => I r.1) (w.addDocument path project source : m (Workspace × Bool)) := by
  unfold Workspace.addDocument
  refine .after _ fun _ => ?_
  split
  · exact (hI.report hw _).bind fun w hw => .of_pure hw
  refine .after _ fun _ => ?_
  split
  · exact (hI.report hw _).bind fun w hw => .of_pure hw
  next hparse => exact .of_pure (hI.document hw (hlisted hw) hparse path)

theorem addSources (hw : I w) (sources : List (String × String)) :
    Always I (w.addSources project sources : m Workspace) := by
  induction sources generalizing w with
  | nil => exact .of_pure hw
  | cons source sources ih => exact (hI.addDocument hlisted hw _ _).bind fun r hr => ih hr

variable [MonadFiles m]

theorem addFile (hw : I w) (path : Path) : Always I (w.addFile project path : m Workspace) := by
  unfold Workspace.addFile
  refine .after _ fun key => ?_
  split
  · exact .after _ fun _ => .of_pure hw
  refine .after _ fun text => ?_
  split
  · exact hI.report hw _
  · refine (hI.addDocument hlisted hw path _).bind fun r hr => .of_pure ?_
    split
    · exact hI.beside hr r.1.diagnostics _
    · exact hr

theorem addFiles (hw : I w) (paths : List Path) :
    Always I (w.addFiles project paths : m Workspace) := by
  induction paths generalizing w with
  | nil => exact .of_pure hw
  | cons path paths ih => exact (hI.addFile hlisted hw path).bind fun w hw => ih hw

end

/-- What holds of a workspace of one project without documents holds once it has its texts. -/
theorem ofSources {c : Context} {implicitUsings : Bool}
    (hstart : I { context := c, projects := [textProject implicitUsings] })
    (sources : List (String × String)) :
    Always I (Workspace.ofSources c sources implicitUsings : m Workspace) :=
  ((hI.listed _).addSources And.right ⟨hstart, mem_singleton_self _⟩ _).mono fun _ h => h.1

variable [MonadFiles m]

theorem addProject (hw : I w) (project : Project) :
    Always (fun r => ∀ w, r = .ok w → I w)
      (w.addProject project : m (Except LoadError Workspace)) := by
  unfold Workspace.addProject
  refine .after _ fun _ => .after _ fun paths => ?_
  split
  · exact .of_pure nofun
  · have hlisted := mem_append_right w.projects (mem_singleton_self project)
    refine ((hI.listed project).addFiles And.right ⟨hI.project hw project, hlisted⟩ _).bind
      fun w' hw' => .of_pure fun w'' heq => ?_
    cases heq
    exact hw'.1

theorem addProjects (hw : I w) (projects : List Project) :
    Always (fun r => ∀ w, r = .ok w → I w)
      (w.addProjects projects : m (Except LoadError Workspace)) := by
  induction projects generalizing w with
  | nil =>
    refine .of_pure fun w' heq => ?_
    cases heq
    exact hw
  | cons project projects ih =>
    refine (hI.addProject hw project).bind fun r hr => ?_
    split
    · exact .of_pure nofun
    · exact ih (hr _ rfl)

/-- What holds of an empty workspace holds of whatever is loaded. -/
theorem load {c : Context} (hstart : I { context := c }) (locator : String) :
    Always (fun r => ∀ w, r = .ok w → I w)
      (Workspace.load c locator : m (Except LoadError Workspace)) := by
  unfold Workspace.load
  refine .after _ fun _ => .after _ fun layout => ?_
  split
  · exact .of_pure nofun
  refine (hI.reportAll hstart _).bind fun w hw => ?_
  refine (hI.addProjects hw _).bind fun r hr => ?_
  split
  · exact .of_pure nofun
  · refine .after _ fun _ => .of_pure fun w heq => ?_
    cases heq
    exact hr _ rfl

end Grows

end Workspace

end SourceBundle

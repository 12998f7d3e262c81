/-
Running `bundle` twice. The second run makes the same bundle if what it
asks of the files is answered as in the first one, and then it writes
what is there already: the files do not change at all
(`bundle_rerun`). What the first run wrote must be out of the sight of
these questions. In the sight of them it is part of the workspace, as a
source or even as a project file, and then the second run need not come
to the same bundle or to any (`rerun_reads_directory`).
-/
import SourceBundle.Proofs.CommandLine.Artifact
import SourceBundle.Proofs.Files.Sight

namespace SourceBundle

theorem Bundle.path_ne_nil (b : Bundle) (directory : String) : (b.path directory).parts ≠ [] := by
  show (Path.ofText directory).parts ++ [_] ≠ []
  simp

theorem Bundle.path_name_ne (b : Bundle) (directory : String) : (b.path directory).name ≠ ".." := by
  have hname : (b.path directory).name = b.root.name ++ ".cs" := by
    show ((Path.ofText directory).parts ++ [b.root.name ++ ".cs"]).getLastD "" = _
    simp
  have hsuffix : ".cs".length = 3 := by decide
  have hup : "..".length = 2 := by decide
  intro heq
  have hlength := congrArg String.length (hname.symm.trans heq)
  rw [String.length_append, hsuffix, hup] at hlength
  omega

/-- A second run of `bundle` changes nothing, if what the first one wrote is out of sight. Where a
run ended with code zero, and no question that the command asks of the files before it writes looks
at the file that was written or at a directory that was made for it, the same command ends in the
same way once more, logs the same lines and leaves the file system exactly as it is. -/
theorem bundle_rerun (e : Environment) (directory : Path) {args : List String} {i : Invocation}
    {workspace name into : String} (hread : CommandLine.read args = .ok i)
    (hcommand : i.command = .bundle workspace (some name) (some into) false) {t t' : FileTree}
    {log log' : List LogLine} {outcome : Outcome}
    (hrun : (runProgram e directory args : OnTree _).Ends t log (.ok outcome) t' log')
    (hcode : outcome.code = 0)
    (hunseen : ∀ q ∈ (Command.bundle workspace (some name) (some into) true).asked
        (i.context e directory) t,
      ∀ target, t'.placeOf (artifactPath into name) = .ok target →
        ∀ place, t.Touches target t' place → q.sees t.working place = false) :
    ∃ lines, log' = lines ++ log ∧ ∀ log,
      (runProgram e directory args : OnTree _).Ends t' log (.ok outcome) t' (lines ++ log) := by
  cases hcheck : e.check with
  | error r =>
    rw [runProgram_of_refused e directory hread hcheck] at hrun
    have hrefused := (ends_refuse_check e hcheck t log).bind
      (f := fun o => (pure (.ok o) : OnTree (Except RunError Outcome))) (OnTree.ends_pure ..)
    cases (hrun.unique hrefused).1
    cases hcode
  | ok _ =>
    rw [runProgram_of_read e directory hread hcheck, hcommand] at hrun ⊢
    rcases run_bundle_cases (i.context e directory) workspace (some name) t with
      ⟨result, lines, hfails, hruns⟩ | ⟨w, b, lines, name', hroot, hname, hruns⟩
    · -- without a bundle no run ends with code zero
      exact absurd hcode (hfails outcome (hrun.unique (hruns (some into) false log)).1.symm)
    cases hroot
    have hhere := hruns (some into) t rfl fun q _ => q.same_refl t
    rcases deliver_cases (i.context e directory) w b (some into) t (lines ++ log) with
      ⟨folder, place, t₁, hfolder, hwrites, hends⟩ | ⟨result, t₁, log₁, -, hfails, hends⟩
    · cases hfolder
      obtain ⟨heq, rfl, rfl⟩ := hrun.unique (hhere false log hends)
      cases heq
      have hpath : b.path into = artifactPath into name := by
        rw [artifactPath, ← hname]
        rfl
      have hsame : ∀ q ∈ (Command.bundle workspace (some name) (some into) true).asked
          (i.context e directory) t, q.Same t t' := fun q hq =>
        hwrites.same_of_unseen q (hunseen q hq place (hpath ▸ hwrites.placeOf))
      refine ⟨wroteLines (i.context e directory) (b.path into) (w.text (i.context e directory) b)
        ++ (w.renderLines (i.context e directory) b ++ lines), by simp only [List.append_assoc],
        fun log => ?_⟩
      have hagain := hwrites.again (b.path_ne_nil into) (b.path_name_ne into)
        (i.context e directory) (w.renderLines (i.context e directory) b ++ (lines ++ log))
      have hend := hruns (some into) t' hwrites.working hsame false log
        (ends_deliver_write (i.context e directory) w b hagain)
      simpa only [List.append_assoc] using hend
    · exact absurd hcode (hfails outcome (hrun.unique (hhere false log hends)).1.symm)

theorem FileTree.Touches.mem_entries {t t' : FileTree} {target place : List String}
    (h : t.Touches target t' place) (htarget : target ∈ t'.entries.map (·.1)) :
    place ∈ t'.entries.map (·.1) := by
  rcases h with rfl | ⟨hfree, hmade⟩
  · exact htarget
  · have hplace : place ≠ [] := by
      rintro rfl
      cases hfree
    rw [FileTree.entryAt_eq_lookup _ hplace] at hmade
    obtain ⟨before, after, hentries, -⟩ := List.lookup_eq_some_iff.1 hmade
    simp [hentries]

/-- Beside the workspace the artifact is out of sight. -/
theorem bundle_rerun_beside : ∃ lines, ∀ log, (bundlePart "out").Ends (afterPart "out") log
    (.ok (generated (artifactPath "out" "A.R"))) (afterPart "out") (lines ++ log) := by
  have hread : CommandLine.read ["bundle", "src", "A.R", "out"]
      = .ok { command := .bundle "src" (some "A.R") (some "out") false } := rfl
  have hplace : (afterPart "out").placeOf (artifactPath "out" "A.R")
      = .ok ["ws", "out", "R.cs"] := by decide +kernel
  have hhidden : ∀ q ∈ (Command.bundle "src" (some "A.R") (some "out") true).asked
      (Invocation.context { command := .bundle "src" (some "A.R") (some "out") false } {}
        ⟨.slash, ["ws"]⟩) partTree,
      ∀ place ∈ (afterPart "out").entries.map (·.1), partTree.entryAt place = none →
        q.sees partTree.working place = false := by decide +kernel
  obtain ⟨lines, -, hagain⟩ := bundle_rerun {} ⟨.slash, ["ws"]⟩ hread rfl ends_bundlePart_out rfl
    fun q hq target htarget place htouched => by
      cases hplace.symm.trans htarget
      refine hhidden q hq place (htouched.mem_entries (by decide +kernel)) ?_
      rcases htouched with rfl | ⟨hfree, -⟩
      · decide +kernel
      · exact hfree
  exact ⟨lines, hagain⟩

/-- A directory in the workspace that is named like a project file is taken for one by the second
run, which fails. -/
theorem rerun_reads_directory : ∃ t' t'' log'',
    (bundlePart "src/o.csproj").Ends partTree []
      (.ok (generated (artifactPath "src/o.csproj" "A.R"))) t' []
    ∧ (bundlePart "src/o.csproj").Ends t' [] (.ok .failed) t'' log'' :=
  ⟨afterPart "src/o.csproj", _, _, OnTree.ends_of_value (by decide +kernel) (by decide +kernel),
    OnTree.ends_of_value (by decide +kernel) rfl⟩

end SourceBundle

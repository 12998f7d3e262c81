/-
Loading only asks. From the layout of a workspace to its documents, its
index and the lines that show what is wrong with it, each step is work
that asks of the files and leaves them as they are; so is walking the
closure of a root, which asks nothing at all.
-/
import SourceBundle.CommandLine.Run
import SourceBundle.Proofs.Closure.Comparison
import SourceBundle.Proofs.Files.Questions

namespace SourceBundle

variable {α β : Type}

-- ===== files

/-- Asking for the kind of an entry changes nothing. -/
theorem asks_isKind (kind : EntryKind) (p : Path) : Asks (isKind kind p) (isKind kind p) := by
  refine .bind (.kind p) fun answer => ?_
  cases answer with
  | ok k => exact .pure _
  | error e => exact .pure _

/-- A text is read, and decoded, without a change to the files. -/
theorem asks_readText (p : Path) : Asks (readText p) (readText p) := by
  refine .answered (.read p) (fun _ => .pure _) fun bytes => ?_
  dsimp only
  cases textOfBytes bytes with
  | error e => exact .pure _
  | ok text => exact .pure _

namespace Project

/-- A project file is read, and no other. -/
theorem asks_read (file : Path) (name : Option String) :
    Asks (Project.read file name) (Project.read file name) :=
  .answered (asks_readText file) (fun _ => .pure _) fun _ => .pure _

/-- The listed files are looked for one after another. -/
theorem asks_existingFiles (ps : List Path) : Asks (existingFiles ps) (existingFiles ps) := by
  induction ps with
  | nil => exact .pure _
  | cons p ps ih =>
    refine .answered (asks_isKind .file p) (fun _ => .pure _) fun here => ?_
    exact .answered ih (fun _ => .pure _) fun more => .pure _

/-- The documents are those listed, or those found below the root. -/
theorem asks_documents (p : Project) : Asks p.documents p.documents := by
  unfold documents
  cases p.explicit with
  | some paths =>
    exact .answered (asks_existingFiles paths) (fun _ => .pure _) fun found => .pure _
  | none =>
    exact .answered (.search p.root ".cs") (fun _ => .pure _) fun found => asks_existingFiles found

end Project

-- ===== layouts

namespace WorkspaceLayout

/-- Each project file is read in turn. -/
theorem asks_addFiles (w : WorkspaceLayout) (files : List Path) :
    Asks (w.addFiles files) (w.addFiles files) := by
  induction files generalizing w with
  | nil => exact .pure _
  | cons file files ih =>
    exact .answered (Project.asks_read file none) (fun _ => .pure _) fun p => ih _

/-- Each entry of a solution that is there is read. -/
theorem asks_addEntries (w : WorkspaceLayout) (entries : List (String × Path)) :
    Asks (w.addEntries entries) (w.addEntries entries) := by
  induction entries generalizing w with
  | nil => exact .pure _
  | cons entry more ih =>
    obtain ⟨name, file⟩ := entry
    refine .answered (asks_isKind .file file) (fun _ => .pure _) fun here => ?_
    cases here with
    | false => exact ih _
    | true =>
      exact .answered (Project.asks_read file (some name)) (fun _ => .pure _) fun p => ih _

/-- A directory is searched for project files. -/
theorem asks_ofDirectory (directory : Path) :
    Asks (ofDirectory directory) (ofDirectory directory) := by
  refine .answered (.search directory ".csproj") (fun _ => .pure _) fun files => ?_
  cases files with
  | nil => exact .pure _
  | cons file files => exact asks_addFiles _ _

/-- A solution is read, and then its entries. -/
theorem asks_ofSolution (file : Path) : Asks (ofSolution file) (ofSolution file) :=
  .answered (asks_readText file) (fun _ => .pure _) fun _ => asks_addEntries _ _

/-- A workspace is found by a look at what its locator names. -/
theorem asks_locate (locator : String) : Asks (locate locator) (locate locator) := by
  refine .answered (.kind (.ofText locator)) (fun _ => .pure _) fun kind => ?_
  cases kind with
  | directory => exact asks_ofDirectory _
  | file =>
    refine .ite (fun _ => asks_ofSolution _) fun _ => ?_
    exact .ite (fun _ => asks_addFiles _ _) fun _ => .pure _

end WorkspaceLayout

-- ===== workspaces

namespace Workspace

/-- A diagnostic is noted. -/
theorem asks_report (w : Workspace) (d : Diagnostic) : Asks (w.report d) (w.report d) :=
  .bind (.log ..) fun _ => .pure _

/-- Diagnostics are noted in their order. -/
theorem asks_reportAll (w : Workspace) (ds : List Diagnostic) :
    Asks (w.reportAll ds) (w.reportAll ds) := by
  induction ds generalizing w with
  | nil => exact .pure _
  | cons d ds ih => exact .bind (asks_report w d) fun w => ih w

/-- A source is read as tokens, and then as a file. -/
theorem asks_addDocument (w : Workspace) (path : Path) (project : Project) (source : List Char) :
    Asks (w.addDocument path project source) (w.addDocument path project source) := by
  refine .bind (.log ..) fun _ => ?_
  cases tokenizeChars source with
  | error e => exact .bind (asks_report ..) fun _ => .pure _
  | ok tokens =>
    refine .bind (.log ..) fun _ => ?_
    cases parseTokens source tokens w.nextNode with
    | error e => exact .bind (asks_report ..) fun _ => .pure _
    | ok parsed => exact .pure _

/-- A file that was added before is not read again. -/
theorem asks_addFile (w : Workspace) (project : Project) (path : Path) :
    Asks (w.addFile project path) (w.addFile project path) := by
  refine .bind (.canonical path) fun key => .ite (fun _ => ?_) fun _ => ?_
  · exact .bind (.log ..) fun _ => .pure _
  · refine .bind (asks_readText path) fun answer => ?_
    cases answer with
    | error e => exact asks_report ..
    | ok text => exact .bind (asks_addDocument ..) fun _ => .pure _

/-- The files of a project are added in turn. -/
theorem asks_addFiles (w : Workspace) (project : Project) (paths : List Path) :
    Asks (w.addFiles project paths) (w.addFiles project paths) := by
  induction paths generalizing w with
  | nil => exact .pure _
  | cons path paths ih => exact .bind (asks_addFile w project path) fun w => ih w

/-- A project is added with its documents. -/
theorem asks_addProject (w : Workspace) (project : Project) :
    Asks (w.addProject project) (w.addProject project) := by
  refine .bind (.log ..) fun _ => .answered project.asks_documents (fun _ => .pure _) ?_
  exact fun paths => .bind (asks_addFiles ..) fun _ => .pure _

/-- Projects are added until one cannot be. -/
theorem asks_addProjects (w : Workspace) (projects : List Project) :
    Asks (w.addProjects projects) (w.addProjects projects) := by
  induction projects generalizing w with
  | nil => exact .pure _
  | cons project projects ih =>
    exact .answered (asks_addProject w project) (fun _ => .pure _) fun w => ih w

/-- Loading a workspace only asks. -/
theorem asks_load (c : Context) (locator : String) : Asks (load c locator) (load c locator) := by
  refine .bind (.log ..) fun _ => .answered (WorkspaceLayout.asks_locate locator) (fun _ => .pure _)
    fun layout => .bind (asks_reportAll ..) fun w => ?_
  exact .answered (asks_addProjects w _) (fun _ => .pure _) fun w =>
    .bind (.log ..) fun _ => .pure _

/-- The index is made from what was loaded. -/
theorem asks_openIndex (w : Workspace) : Asks w.openIndex w.openIndex :=
  .bind (asks_reportAll ..) fun _ => .bind (.log ..) fun _ => .pure _

end Workspace

-- ===== diagnostics

/-- A line is logged, in a context or without one. -/
theorem asks_logIn (c : Option Context) (level : LogLevel) (message : String) :
    Asks (logIn c level message) (logIn c level message) := by
  cases c with
  | some c => exact .log c level message
  | none => exact .bind (.note _) fun _ => .note _

/-- Lines are logged in their order. -/
theorem asks_logAllIn (c : Option Context) (level : LogLevel) (messages : List String) :
    Asks (logAllIn c level messages) (logAllIn c level messages) := by
  induction messages with
  | nil => exact .pure _
  | cons message messages ih => exact .bind (asks_logIn c level message) fun _ => ih

/-- The lines to show are read from the file. -/
theorem asks_fileLines (file : String) : Asks (fileLines file) (fileLines file) := by
  refine .bind (asks_readText _) fun answer => ?_
  cases answer with
  | error e =>
    dsimp only
    cases e.impossible? with
    | some f => exact .pure _
    | none => exact .pure _
  | ok text => exact .pure _

/-- A diagnostic is shown with the lines it is about. -/
theorem asks_showDiagnostic (c : Option Context) (directory : Path) (d : Diagnostic) :
    Asks (showDiagnostic c directory d) (showDiagnostic c directory d) := by
  refine .bind (asks_logIn ..) fun _ => ?_
  cases d.file with
  | none => exact .pure _
  | some file =>
    refine .ite (fun _ => .pure _) fun _ => .answered (asks_fileLines file) (fun _ => .pure _) ?_
    exact fun lines => .bind (asks_logAllIn ..) fun _ => .pure _

/-- Diagnostics are shown in their order. -/
theorem asks_showDiagnostics (c : Option Context) (directory : Path) (ds : List Diagnostic) :
    Asks (showDiagnostics c directory ds) (showDiagnostics c directory ds) := by
  induction ds with
  | nil => exact .pure _
  | cons d ds ih =>
    exact .answered (asks_showDiagnostic c directory d) (fun _ => .pure _) fun _ => ih

-- ===== sessions

/-- Work of a session that asks, from any state of the session. -/
structure Session.Asks (x : Session (Asking OnTree) α) (y : Session OnTree α) : Prop where
  from_state : ∀ st, SourceBundle.Asks (x st) (y st)

namespace Session.Asks

theorem pure (a : α) : Session.Asks (pure a) (pure a) :=
  ⟨fun _ => .pure _⟩

/-- Work that asks is followed by work that asks. -/
theorem bind {x : Session (Asking OnTree) α} {y : Session OnTree α}
    {f : α → Session (Asking OnTree) β} {g : α → Session OnTree β} (hx : Session.Asks x y)
    (hf : ∀ a, Session.Asks (f a) (g a)) : Session.Asks (x >>= f) (y >>= g) := by
  refine ⟨fun st => ?_⟩
  show SourceBundle.Asks (x st >>= fun r => ExceptT.bindCont f r.1 r.2)
    (y st >>= fun r => ExceptT.bindCont g r.1 r.2)
  refine (hx.from_state st).bind fun r => ?_
  obtain ⟨answer, st⟩ := r
  cases answer with
  | error e => exact .pure _
  | ok a => exact (hf a).from_state st

/-- A line of a session is noted if it is admitted. -/
theorem log (c : Context) (level : LogLevel) (message : String) :
    Session.Asks (c.log level message) (c.log level message) := by
  refine ⟨fun st => ?_⟩
  unfold Context.log
  cases c.admit? level message with
  | none => exact .pure _
  | some line => exact .bind (.note line) fun _ => .pure _

/-- Binding asks nothing. -/
theorem ofBind (x : BindM α) : Session.Asks (ofBind x) (ofBind x) :=
  ⟨fun _ => .pure _⟩

/-- A session that asks can be started. -/
theorem start {x : Session (Asking OnTree) α} {y : Session OnTree α} (h : Session.Asks x y) :
    SourceBundle.Asks x.start y.start :=
  (h.from_state {}).bind fun _ => .pure _

end Session.Asks

-- ===== closure

/-- Walking the closure of a root asks nothing of the files. -/
theorem asks_bundle (ix : Index) (c : Context) (root : String) :
    Session.Asks (bundle ix.service c root) (bundle ix.service c root) := by
  have hasks : Likeness (m := Session (Asking OnTree)) (n := Session OnTree) c fun _ x y =>
      Session.Asks x y := ⟨.pure, .bind, .log c⟩
  exact hasks.of_bundle ix.service ix.service (fun _ => .ofBind _)
    ⟨rfl, fun _ => rfl, fun _ _ _ => rfl⟩ _ root

end SourceBundle

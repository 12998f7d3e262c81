/-
What `bundle` does to the files. A run first makes a bundle, which only
asks, and then prints or writes its text (`Command.run_bundle`). So a
run that writes leaves one file that was not there before or is another
one now, and every other run leaves at most new directories; what is
written is what the same command prints.
-/
import SourceBundle.Proofs.Closure.Recursion
import SourceBundle.Proofs.Effects
import SourceBundle.Proofs.Files.Loading
import SourceBundle.Proofs.Files.Writing

namespace SourceBundle

variable {α β : Type}

-- ===== always

/-- What holds of all that the work of a session comes to holds of what it starts with. -/
theorem Always.start {m : Type → Type} [Monad m] [LawfulMonad m] {P : α → Prop} {x : Session m α}
    (hx : Always P x) : Always (fun r : Except BindError α => ∀ a, r = .ok a → P a) x.start := by
  obtain ⟨y, rfl⟩ := hx
  have hmap : (Subtype.val <$> y : Session m α) {}
      = (fun p => (p.1.map Subtype.val, p.2)) <$> y {} := by
    conv_rhs => rw [map_eq_pure_bind]
    refine congrArg (y {} >>= ·) (funext fun p => ?_)
    obtain ⟨r, st⟩ := p
    cases r with
    | error e => rfl
    | ok a => rfl
  have hstart : ∀ {γ : Type} (z : Session m γ), z.start = Prod.fst <$> z {} :=
    fun z => (map_eq_pure_bind ..).symm
  refine ⟨(fun r => ⟨r.map Subtype.val, ?_⟩) <$> y.start, ?_⟩
  · intro a ha
    cases r with
    | error e => cases ha
    | ok b =>
      cases ha
      exact b.2
  · rw [hstart, hstart, hmap, Functor.map_map, Functor.map_map, Functor.map_map]

-- ===== bundles

theorem root_name_of_locateRoot {m : Type → Type} [Monad m] {ix : Index} {root : String}
    {u : TypeUnit} (h : locateRoot (ix.service (m := m)) root = .ok u) :
    u.name = (Text.splitLast root).2 := by
  have hname := List.find?_some (locateRoot_eq_ok h).1
  exact (Text.dotted_inj u.dotless (Text.dotless_splitLast root) (of_decide_eq_true hname)).2

/-- The root of a bundle is named as it was asked for. -/
theorem always_bundle_root {m : Type → Type} [Monad m] [LawfulMonad m] [MonadLog m] (ix : Index)
    (c : Context) (root : String) :
    Always (fun r : Except WalkError Bundle =>
      ∀ b, r = .ok b → b.root.name = (Text.splitLast root).2)
      (bundle ix.service c root : Session m _) := by
  refine .after _ fun _ => ?_
  cases hroot : locateRoot (ix.service (m := m)) root with
  | error e => exact .of_pure nofun
  | ok u =>
    refine .after _ fun _ => .after _ fun r => ?_
    cases r with
    | error e => exact .of_pure nofun
    | ok w =>
      refine .after _ fun _ => .of_pure fun b hb => ?_
      cases hb
      exact root_name_of_locateRoot hroot

section

variable {m : Type → Type} [Monad m] [MonadLog m] [MonadFiles m]

/-- Makes the bundle of a root from a loaded workspace; without one, a run breaks off for a cause,
or has logged it and fails. -/
def bundleFrom (c : Context) (root : Option String) (w : Workspace) :
    m (Except (Option RunError) (OpenWorkspace × Bundle)) := do
  let w ← w.openIndex
  match ← showDiagnostics (some c) c.directory w.workspace.diagnostics with
  | .error f => return .error (some (.file f))
  | .ok _ =>
    match root with
    | none => return .error (some .blankRoot)
    | some root =>
      match ← (bundle w.index.service c root).start with
      | .error e => return .error (some (.bind e))
      | .ok (.error e) => do
        c.log .error e.message
        return .error none
      | .ok (.ok b) =>
        match ← showDiagnostics (some c) c.directory b.diagnostics with
        | .error f => return .error (some (.file f))
        | .ok _ => return .ok (w, b)

/-- Makes the bundle of a root from a workspace that is loaded first. -/
def makeBundle (c : Context) (locator : String) (root : Option String) :
    m (Except (Option RunError) (OpenWorkspace × Bundle)) := do
  match ← Workspace.load c locator with
  | .error (.source f) => return .error (some (.file f))
  | .error e => do
    c.log .error e.message
    return .error none
  | .ok w => bundleFrom c root w

/-- Goes on with a bundle. -/
def withMade (next : OpenWorkspace → Bundle → m (Except RunError Outcome)) :
    Except (Option RunError) (OpenWorkspace × Bundle) → m (Except RunError Outcome)
  | .error none => return .ok .failed
  | .error (some e) => return .error e
  | .ok (w, b) => next w b

/-- The text of a bundle is printed, or written to a directory. -/
def deliver (c : Context) (directory : Option String) (toOutput : Bool) (w : OpenWorkspace)
    (b : Bundle) : m (Except RunError Outcome) := do
  if toOutput then return .ok { code := 0, output := ← b.render (w.service (m := m)) c }
  else writeBundle c w directory b

/-- A run of `bundle` makes the bundle and then delivers it. -/
theorem Command.run_bundle [LawfulMonad m] (c : Context) (locator : String)
    (root directory : Option String) (toOutput : Bool) :
    (Command.bundle locator root directory toOutput).run c
      = makeBundle c locator root >>= withMade (deliver (m := m) c directory toOutput) := by
  unfold Command.run withWorkspace makeBundle bundleFrom
  rw [bind_assoc]
  refine bind_congr fun loaded => ?_
  cases loaded with
  | error e =>
    cases e with
    | source f => simp [withMade]
    | locate e => simp [withMade, failWith]
  | ok w =>
    dsimp only
    rw [bind_assoc]
    refine bind_congr fun w => ?_
    rw [bind_assoc]
    refine bind_congr fun shown => ?_
    cases shown with
    | error f => simp [withMade]
    | ok _ =>
      cases root with
      | none => simp [withMade, withBundle]
      | some root =>
        dsimp only [withBundle]
        rw [bind_assoc]
        refine bind_congr fun r => ?_
        rcases r with e | e | b
        · simp [withMade]
        · simp [withMade, failWith]
        · dsimp only
          rw [bind_assoc]
          refine bind_congr fun shown => ?_
          cases shown with
          | error f => simp [withMade]
          | ok _ => simp [withMade, deliver]

/-- A bundle that is made is one of the root that was asked for. -/
theorem always_bundleFrom_root [LawfulMonad m] (c : Context) (root : Option String)
    (w : Workspace) :
    Always (fun r : Except (Option RunError) (OpenWorkspace × Bundle) => ∀ w b, r = .ok (w, b) →
      ∃ name, root = some name ∧ b.root.name = (Text.splitLast name).2)
      (bundleFrom c root w : m _) := by
  refine .after w.openIndex fun w => .after _ fun shown => ?_
  cases shown with
  | error f => exact .of_pure fun _ _ h => nomatch h
  | ok _ =>
    cases root with
    | none => exact .of_pure fun _ _ h => nomatch h
    | some root =>
      refine (always_bundle_root w.index c root).start.bind fun r hr => ?_
      rcases r with e | e | b
      · exact .of_pure fun _ _ h => nomatch h
      · exact .after _ fun _ => .of_pure fun _ _ h => nomatch h
      · refine .after _ fun shown => ?_
        cases shown with
        | error f => exact .of_pure fun _ _ h => nomatch h
        | ok _ =>
          refine .of_pure fun w' b' hb => ?_
          cases hb
          exact ⟨root, rfl, hr _ rfl b rfl⟩

theorem always_makeBundle_root [LawfulMonad m] (c : Context) (locator : String)
    (root : Option String) :
    Always (fun r : Except (Option RunError) (OpenWorkspace × Bundle) => ∀ w b, r = .ok (w, b) →
      ∃ name, root = some name ∧ b.root.name = (Text.splitLast name).2)
      (makeBundle c locator root : m _) := by
  refine .after _ fun loaded => ?_
  cases loaded with
  | error e =>
    cases e with
    | source f => exact .of_pure fun _ _ h => nomatch h
    | locate e => exact .after _ fun _ => .of_pure fun _ _ h => nomatch h
  | ok w => exact always_bundleFrom_root c root w

end

theorem asks_bundleFrom (c : Context) (root : Option String) (w : Workspace) :
    Asks (bundleFrom c root w) (bundleFrom c root w) := by
  refine .bind w.asks_openIndex fun w => .bind (asks_showDiagnostics ..) fun shown => ?_
  cases shown with
  | error f => exact .pure _
  | ok _ =>
    cases root with
    | none => exact .pure _
    | some root =>
      refine .bind (asks_bundle w.index c root).start fun r => ?_
      rcases r with e | e | b
      · exact .pure _
      · exact .bind (.log ..) fun _ => .pure _
      · refine .bind (asks_showDiagnostics ..) fun shown => ?_
        cases shown with
        | error f => exact .pure _
        | ok _ => exact .pure _

theorem asks_makeBundle (c : Context) (locator : String) (root : Option String) :
    Asks (makeBundle c locator root) (makeBundle c locator root) := by
  refine .bind (Workspace.asks_load c locator) fun loaded => ?_
  cases loaded with
  | error e =>
    cases e with
    | source f => exact .pure _
    | locate e => exact .bind (.log ..) fun _ => .pure _
  | ok w => exact asks_bundleFrom c root w

-- ===== delivery

section

variable (c : Context) (w : OpenWorkspace) (b : Bundle)

/-- The text of a bundle from an open workspace. -/
def OpenWorkspace.text : String :=
  b.text (w.service (m := OnTree)) c

/-- The lines that are logged when a bundle is rendered. -/
def OpenWorkspace.renderLines : List LogLine :=
  if c.hoist then
    (c.admit? .debug (hoistMessage (b.hoistedImports (w.service (m := OnTree))))).toList
  else []

theorem ends_render (t : FileTree) (log : List LogLine) :
    (b.render (w.service (m := OnTree)) c : OnTree _).Ends t log (w.text c b) t
      (w.renderLines c b ++ log) := by
  unfold Bundle.render OpenWorkspace.renderLines
  by_cases hhoist : c.hoist = true
  · rw [if_pos hhoist, if_pos hhoist]
    exact (ends_log c .debug _ t log).bind (OnTree.ends_pure ..)
  · rw [if_neg hhoist, if_neg hhoist]
    exact OnTree.ends_pure ..

theorem ends_deliver_output (directory : Option String) (t : FileTree) (log : List LogLine) :
    (deliver c directory true w b : OnTree _).Ends t log
      (.ok { code := 0, output := w.text c b }) t (w.renderLines c b ++ log) :=
  (ends_render c w b t log).bind (OnTree.ends_pure ..)

/-- What a run prints that has written to a path. -/
def generated (path : Path) : Outcome :=
  .printed ["Generated " ++ path.text]

theorem ends_deliver_write {directory : String} {t t' : FileTree} {log log' : List LogLine}
    (h : (writeText c (b.path directory) (w.text c b) : OnTree _).Ends t
      (w.renderLines c b ++ log) (.ok (b.path directory)) t' log') :
    (deliver c (some directory) false w b : OnTree _).Ends t log
      (.ok (generated (b.path directory))) t' log' :=
  (ends_render c w b t log).bind (h.bind (OnTree.ends_pure ..))

/-- A bundle is written as a whole, or the run does not go well and directories are all that is
new. -/
theorem deliver_cases (directory : Option String) (t : FileTree) (log : List LogLine) :
    (∃ folder place t', directory = some folder ∧ t.Writes (b.path folder) (w.text c b) place t'
        ∧ (deliver c directory false w b : OnTree _).Ends t log
            (.ok (generated (b.path folder))) t'
            (wroteLines c (b.path folder) (w.text c b) ++ (w.renderLines c b ++ log)))
      ∨ ∃ result t' log', t.Opens t' ∧ (∀ outcome, result = .ok outcome → outcome.code ≠ 0)
        ∧ (deliver c directory false w b : OnTree _).Ends t log result t' log' := by
  cases directory with
  | none =>
    refine .inr ⟨.error .blankDirectory, t, w.renderLines c b ++ log, .refl t,
      (fun _ h => nomatch h), ?_⟩
    exact (ends_render c w b t log).bind (OnTree.ends_pure ..)
  | some folder =>
    rcases writeText_cases c (b.path folder) (w.text c b) t (w.renderLines c b ++ log) with
      ⟨place, t', hwrites, hends⟩ | ⟨e, t', hopens, hends⟩
    · exact .inl ⟨folder, place, t', rfl, hwrites, ends_deliver_write c w b hends⟩
    · cases e with
      | impossible f =>
        refine .inr ⟨.error (.file f), t', w.renderLines c b ++ log, hopens,
          (fun _ h => nomatch h), ?_⟩
        exact (ends_render c w b t log).bind (hends.bind (OnTree.ends_pure ..))
      | refused path cause =>
        have hfail : (failWith c (WriteError.refused path cause).message : OnTree _).Ends t'
            (w.renderLines c b ++ log) .failed t' _ :=
          (ends_log c .error _ t' _).bind (OnTree.ends_pure ..)
        refine .inr ⟨.ok .failed, t', _, hopens, fun outcome heq => ?_,
          (ends_render c w b t log).bind (hends.bind (hfail.bind (OnTree.ends_pure ..)))⟩
        cases heq
        exact Nat.one_ne_zero

end

-- ===== records

/-- What a command asks of the files, in order. -/
def Command.asked (command : Command) (c : Context) (t : FileTree) : List FileQuestion :=
  (Id.run ((command.run c : Asking OnTree _) [] t [])).1.1.2

theorem ends_log_asking (c : Context) (level : LogLevel) (message : String)
    (asked : List FileQuestion) (t : FileTree) (log : List LogLine) :
    ((c.log level message : Asking OnTree _) asked).Ends t log ((), asked) t
      ((c.admit? level message).toList ++ log) := by
  unfold Context.log
  cases c.admit? level message with
  | none => rfl
  | some line => rfl

theorem ends_render_asking (c : Context) (w : OpenWorkspace) (b : Bundle)
    (asked : List FileQuestion) (t : FileTree) (log : List LogLine) :
    ((b.render (w.service (m := Asking OnTree)) c : Asking OnTree _) asked).Ends t log
      (w.text c b, asked) t (w.renderLines c b ++ log) := by
  unfold Bundle.render OpenWorkspace.renderLines
  by_cases hhoist : c.hoist = true
  · rw [if_pos hhoist, if_pos hhoist]
    exact (ends_log_asking c .debug _ asked t log).bind
      (f := fun r => (pure (w.text c b, r.2) : OnTree _)) (OnTree.ends_pure ..)
  · rw [if_neg hhoist, if_neg hhoist]
    rfl

/-- To print a bundle asks nothing more than to make it. -/
theorem asked_bundle {c : Context} {workspace : String} {root : Option String} {t : FileTree}
    {made : Except (Option RunError) (OpenWorkspace × Bundle)} {qs : List FileQuestion}
    {lines : List LogLine}
    (hmade : ((makeBundle c workspace root : Asking OnTree _) []).Ends t [] (made, qs) t lines)
    (folder : Option String) : (Command.bundle workspace root folder true).asked c t = qs := by
  have hnext : ∃ result log', ((withMade (deliver c folder true) made : Asking OnTree _) qs).Ends t
      lines (result, qs) t log' := by
    rcases made with e | ⟨w, b⟩
    · cases e with
      | none => exact ⟨.ok .failed, lines, rfl⟩
      | some e => exact ⟨.error e, lines, rfl⟩
    · let done (r : String × List FileQuestion) :
          OnTree (Except RunError Outcome × List FileQuestion) :=
        pure (.ok { code := 0, output := r.1 }, r.2)
      exact ⟨.ok { code := 0, output := w.text c b }, _,
        (ends_render_asking c w b qs t lines).bind (f := done) (OnTree.ends_pure ..)⟩
  obtain ⟨result, log', hnext⟩ := hnext
  have hrun : (((Command.bundle workspace root folder true).run c : Asking OnTree _) []).Ends t []
      (result, qs) t log' := by
    rw [Command.run_bundle]
    exact hmade.bind (f := fun r => (withMade (deliver c folder true) r.1 : Asking OnTree _) r.2)
      hnext
  exact congrArg (·.1.1.2) hrun

-- ===== runs

namespace FileTree

/-- No file is made, changed or removed, and directories may be new. -/
def KeepsFiles (t t' : FileTree) : Prop :=
  ∀ place, t'.entryAt place = t.entryAt place
    ∨ t.entryAt place = none ∧ t'.entryAt place = some .directory

/-- No file is made, changed or removed but at one place, and directories may be new. -/
def KeepsFilesBut (t : FileTree) (target : List String) (t' : FileTree) : Prop :=
  ∀ place, place ≠ target → t'.entryAt place = t.entryAt place
    ∨ t.entryAt place = none ∧ t'.entryAt place = some .directory

end FileTree

/-- The path of the file for a root in a directory. -/
def artifactPath (directory root : String) : Path :=
  (Path.ofText directory).join ⟨.relative, [(Text.splitLast root).2 ++ ".cs"]⟩

section

variable (e : Environment) (directory : Path) {args : List String} {i : Invocation}

section

variable {m : Type → Type} [Monad m] [MonadLog m] [MonadFiles m]

/-- The program does what the arguments say, unless the environment is refused. -/
theorem runProgram_of_read (hread : CommandLine.read args = .ok i) {u : Unit}
    (hcheck : e.check = .ok u) :
    (runProgram e directory args : m _) = i.command.run (i.context e directory) := by
  simp only [runProgram, hread, hcheck]

theorem runProgram_of_refused (hread : CommandLine.read args = .ok i) {r : CommandLine.Refusal}
    (hcheck : e.check = .error r) :
    (runProgram e directory args : m _) = do return .ok (← refuse r) := by
  simp only [runProgram, hread, hcheck]

end

theorem ends_refuse_check {r : CommandLine.Refusal} (hr : e.check = .error r) (t : FileTree)
    (log : List LogLine) :
    (refuse r : OnTree _).Ends t log { code := 2 } t ({ message := r.message } :: log) := by
  have hhelp : r.error ≠ .help := by
    unfold Environment.check at hr
    split at hr
    · cases hr
    · split at hr
      · cases hr
      · cases hr
        nofun
  unfold refuse
  rw [if_neg hhelp]
  rfl

variable {workspace : String} {root folder : Option String} {toOutput : Bool}

/-- How a run of `bundle` ends: before there is a bundle, and then with the files as they were, or
as the bundle is delivered. What is asked of the files settles which. -/
theorem run_bundle_cases (c : Context) (workspace : String) (root : Option String)
    (t : FileTree) :
    (∃ result lines, (∀ outcome, result = .ok outcome → outcome.code ≠ 0)
        ∧ ∀ folder toOutput log,
            ((Command.bundle workspace root folder toOutput).run c : OnTree _).Ends t log result t
              (lines ++ log))
      ∨ ∃ w b lines name, root = some name ∧ b.root.name = (Text.splitLast name).2
        ∧ ∀ folder t', t'.working = t.working →
            (∀ q ∈ (Command.bundle workspace root folder true).asked c t, q.Same t t') →
            ∀ toOutput log {result t'' log'},
              (deliver c folder toOutput w b : OnTree _).Ends t' (lines ++ log) result t'' log' →
                ((Command.bundle workspace root folder toOutput).run c : OnTree _).Ends t' log
                  result t'' log' := by
  obtain ⟨made, qs, lines, hrecorded, hmade⟩ := (asks_makeBundle c workspace root).settled t
  have hasked := asked_bundle (by simpa using hrecorded [] [])
  have hrun : ∀ folder t', t'.working = t.working →
      (∀ q ∈ (Command.bundle workspace root folder true).asked c t, q.Same t t') →
      ∀ toOutput log {result t'' log'},
        (withMade (deliver c folder toOutput) made : OnTree _).Ends t' (lines ++ log) result t''
          log' →
        ((Command.bundle workspace root folder toOutput).run c : OnTree _).Ends t' log result t''
          log' := by
    intro folder t' hworking hsame toOutput log result t'' log' hnext
    rw [Command.run_bundle]
    rw [hasked folder] at hsame
    exact (hmade t' hworking hsame log).bind hnext
  rcases made with e | ⟨w, b⟩
  · have hhere := fun folder => hrun folder t rfl fun q _ => q.same_refl t
    cases e with
    | none =>
      refine .inl ⟨.ok .failed, lines, fun outcome heq => ?_, fun folder toOutput log => ?_⟩
      · cases heq
        exact Nat.one_ne_zero
      · exact hhere folder toOutput log (OnTree.ends_pure ..)
    | some e =>
      refine .inl ⟨.error e, lines, (fun _ h => nomatch h), fun folder toOutput log => ?_⟩
      exact hhere folder toOutput log (OnTree.ends_pure ..)
  · have hmade := hmade t rfl (fun q _ => q.same_refl t) []
    obtain ⟨name, hroot, hname⟩ := (always_makeBundle_root c workspace root).of_ends hmade w b rfl
    exact .inr ⟨w, b, lines, name, hroot, hname, hrun⟩

/-- The only file that `bundle` makes or changes is its artifact. If a run ends with code zero and
does not print, the file of the root in the directory holds the bytes of what the same command
prints in its place, and no other file is another one than before. Every other run, whether it
prints, fails or breaks off, leaves all files as they were. -/
theorem bundle_keeps_files (hread : CommandLine.read args = .ok i)
    (hcommand : i.command = .bundle workspace root folder toOutput) (t : FileTree)
    (log : List LogLine) :
    ∃ result t' log', (runProgram e directory args : OnTree _).Ends t log result t' log'
      ∧ ((toOutput = false ∧ ∃ outcome, result = .ok outcome ∧ outcome.code = 0) →
          ∃ name into place text, root = some name ∧ folder = some into
            ∧ t'.placeOf (artifactPath into name) = .ok place
            ∧ t'.entryAt place = some (.file (Text.encodeUtf8 text))
            ∧ t.KeepsFilesBut place t'
            ∧ ∀ args', CommandLine.read args'
                = .ok { i with command := .bundle workspace root folder true } →
                ∀ log, ∃ log', (runProgram e directory args' : OnTree _).Ends t log
                  (.ok { code := 0, output := text }) t log')
      ∧ (¬(toOutput = false ∧ ∃ outcome, result = .ok outcome ∧ outcome.code = 0) →
          t.KeepsFiles t') := by
  cases hcheck : e.check with
  | error r =>
    rw [runProgram_of_refused e directory hread hcheck]
    refine ⟨.ok { code := 2 }, t, _, (ends_refuse_check e hcheck t log).bind (OnTree.ends_pure ..),
      fun ⟨_, outcome, heq, hcode⟩ => ?_, fun _ place => .inl rfl⟩
    cases heq
    cases hcode
  | ok _ =>
    rw [runProgram_of_read e directory hread hcheck, hcommand]
    rcases run_bundle_cases (i.context e directory) workspace root t with
      ⟨result, lines, hcode, hruns⟩ | ⟨w, b, lines, name, hroot, hname, hruns⟩
    · refine ⟨result, t, _, hruns folder toOutput log, fun ⟨_, outcome, heq, hzero⟩ => ?_,
        fun _ place => .inl rfl⟩
      exact absurd hzero (hcode outcome heq)
    have hruns := fun folder => hruns folder t rfl fun q _ => q.same_refl t
    have hprints : ∀ args', CommandLine.read args'
        = .ok { i with command := .bundle workspace root folder true } →
        ∀ log, ∃ log', (runProgram e directory args' : OnTree _).Ends t log
          (.ok { code := 0, output := w.text (i.context e directory) b }) t log' := by
      intro args' hread' log
      rw [runProgram_of_read e directory hread' hcheck]
      exact ⟨_, hruns folder true log (ends_deliver_output (i.context e directory) w b folder t _)⟩
    cases toOutput with
    | true =>
      refine ⟨_, t, _, hruns folder true log (ends_deliver_output _ w b folder t _),
        fun ⟨hfalse, _⟩ => ?_, fun _ place => .inl rfl⟩
      cases hfalse
    | false =>
      rcases deliver_cases (i.context e directory) w b folder t (lines ++ log) with
        ⟨into, place, t', rfl, hwrites, hends⟩ | ⟨result, t', log', hopens, hcode, hends⟩
      · refine ⟨_, t', _, hruns (some into) false log hends, fun _ => ?_, fun hnot => ?_⟩
        · refine ⟨name, into, place, _, hroot, rfl, ?_, hwrites.entryAt_place,
            fun p hp => hwrites.entryAt_other hp, hprints⟩
          rw [artifactPath, ← hname]
          exact hwrites.placeOf
        · exact absurd ⟨rfl, _, rfl, rfl⟩ hnot
      · refine ⟨result, t', log', hruns folder false log hends,
          fun ⟨_, outcome, heq, hzero⟩ => ?_, fun _ => hopens.entryAt⟩
        exact absurd hzero (hcode outcome heq)

end

/-- A workspace of one source, with a part of a type in it. -/
def partTree : FileTree where
  entries := [(["ws"], .directory), (["ws", "src"], .directory),
    (["ws", "src", "A.cs"], .file (Text.encodeUtf8
      "namespace A \x7b partial class R \x7b static int Solve() => 1; \x7d \x7d"))]
  working := ["ws"]

/-- Bundles this type to a directory. -/
def bundlePart (directory : String) : OnTree (Except RunError Outcome) :=
  runProgram {} ⟨.slash, ["ws"]⟩ ["bundle", "src", "A.R", directory]

/-- The files after that. -/
def afterPart (directory : String) : FileTree :=
  (bundlePart directory).after partTree

theorem ends_bundlePart_out : (bundlePart "out").Ends partTree []
    (.ok (generated (artifactPath "out" "A.R"))) (afterPart "out") [] :=
  OnTree.ends_of_value (by decide +kernel) (by decide +kernel)

/-- The part is written to a new directory, and it is what the command prints. -/
theorem bundle_keeps_files_part :
    (bundlePart "out").Ends partTree [] (.ok (generated (artifactPath "out" "A.R")))
      (afterPart "out") []
    ∧ ∃ text, (afterPart "out").entryAt ["ws", "out", "R.cs"]
        = some (.file (Text.encodeUtf8 text))
      ∧ partTree.KeepsFilesBut ["ws", "out", "R.cs"] (afterPart "out")
      ∧ ∃ log, (runProgram {} ⟨.slash, ["ws"]⟩ ["bundle", "src", "A.R", "out", "--stdout"]
          : OnTree _).Ends partTree [] (.ok { code := 0, output := text }) partTree log := by
  refine ⟨ends_bundlePart_out, ?_⟩
  have hread : CommandLine.read ["bundle", "src", "A.R", "out"]
      = .ok { command := .bundle "src" (some "A.R") (some "out") false } := rfl
  obtain ⟨result, t', log', hends, hwritten, -⟩ :=
    bundle_keeps_files {} ⟨.slash, ["ws"]⟩ hread rfl partTree []
  obtain ⟨rfl, rfl, rfl⟩ := ends_bundlePart_out.unique hends
  obtain ⟨name, into, place, text, hname, hinto, hplace, hfile, hkeeps, hprints⟩ :=
    hwritten ⟨rfl, _, rfl, rfl⟩
  cases hname
  cases hinto
  have hthere : (afterPart "out").placeOf (artifactPath "out" "A.R")
      = .ok ["ws", "out", "R.cs"] := by decide +kernel
  cases hthere.symm.trans hplace
  exact ⟨text, hfile, hkeeps, hprints _ (by with_unfolding_all rfl) []⟩

end SourceBundle

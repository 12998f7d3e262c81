/-
What work asks of the files. A file system is asked what stands at a
path, what stands below a directory and what is in a file; `Asking`
keeps a record of that beside any work.

Loading a workspace and showing what is wrong with it only asks. `Asks`
says so of work and of the same work with its record: the files stay as
they are, and in every file system that answers the questions of the
record alike the work comes to the same and logs the same lines. The
rules follow how work is put together, and each reader of files has its
lemma by these rules alone.
-/
import SourceBundle.Files.Solution
import SourceBundle.Files.Tree
import SourceBundle.Proofs.Effects
import SourceBundle.Workspace

namespace SourceBundle

open List

variable {α β : Type}

-- ===== runs

/-- Work on a file system in memory that keeps a log. -/
abbrev OnTree := StateT FileTree Logged

/-- The work goes from one file system and log to others and comes to a value. -/
def OnTree.Ends (x : OnTree α) (t : FileTree) (log : List LogLine) (a : α) (t' : FileTree)
    (log' : List LogLine) : Prop :=
  Id.run (x t log) = ((a, t'), log')

namespace OnTree

variable {x : OnTree α} {f : α → OnTree β} {t t' t'' : FileTree} {log log' log'' : List LogLine}
  {a a' : α} {b : β}

theorem ends_pure (a : α) (t : FileTree) (log : List LogLine) :
    (pure a : OnTree α).Ends t log a t log :=
  rfl

theorem Ends.bind (hx : x.Ends t log a t' log') (hf : (f a).Ends t' log' b t'' log'') :
    (x >>= f).Ends t log b t'' log'' :=
  (congrArg (fun r : (α × FileTree) × List LogLine => Id.run (f r.1.1 r.1.2 r.2)) hx).trans hf

/-- What the work comes to. -/
def value (x : OnTree α) (t : FileTree) : α :=
  (Id.run (x t [])).1.1

/-- The file system after the work. -/
def after (x : OnTree α) (t : FileTree) : FileTree :=
  (Id.run (x t [])).1.2

/-- The log of the work. -/
def lines (x : OnTree α) (t : FileTree) : List LogLine :=
  (Id.run (x t [])).2

theorem ends_of_value (hvalue : x.value t = a) (hlines : x.lines t = log) :
    x.Ends t [] a (x.after t) log :=
  Prod.ext (Prod.ext hvalue rfl) hlines

/-- Work ends in one way only. -/
theorem Ends.unique (h : x.Ends t log a t' log') (h' : x.Ends t log a' t'' log'') :
    a = a' ∧ t' = t'' ∧ log' = log'' := by
  have heq := h.symm.trans h'
  simp only [Prod.mk.injEq] at heq
  exact ⟨heq.1.1, heq.1.2, heq.2⟩

end OnTree

/-- Work that always comes to something with a property ends with such a value. -/
theorem Always.of_ends {P : α → Prop} {x : OnTree α} (hx : Always P x) {t t' : FileTree}
    {log log' : List LogLine} {a : α} (h : x.Ends t log a t' log') : P a := by
  obtain ⟨y, rfl⟩ := hx
  have hval : (Id.run (y t log)).1.1.1 = a := congrArg (·.1.1) h
  exact hval ▸ (Id.run (y t log)).1.1.2

-- ===== questions

/-- A question to the file system. -/
inductive FileQuestion where
  /-- What stands at a path. -/
  | kind (path : Path)
  /-- What stands below a directory with a given end of its name. -/
  | below (directory : Path) (ending : String)
  /-- What is in a file. -/
  | read (path : Path)
deriving DecidableEq, Repr

/-- Two file systems answer a question alike. Of what stands below a directory only that counts
which is no build output, and no order. -/
def FileQuestion.Same (q : FileQuestion) (t t' : FileTree) : Prop :=
  match q with
  | kind p => (t'.find p).map Entry.kind = (t.find p).map Entry.kind
  | below d ending =>
    (t'.below d ending).map Project.listed = (t.below d ending).map Project.listed
  | read p => t'.read p = t.read p

theorem FileQuestion.same_refl (q : FileQuestion) (t : FileTree) : q.Same t t := by
  cases q with
  | kind p => rfl
  | below d ending => rfl
  | read p => rfl

/-- Work with a record of what it asks. -/
abbrev Asking (m : Type → Type) := StateT (List FileQuestion) m

section

variable {m : Type → Type} [Monad m]

/-- Asks a question and keeps a record of it. -/
def Asking.ask (q : FileQuestion) (answer : m α) : Asking m α := do
  modify (· ++ [q])
  StateT.lift answer

instance [MonadFiles m] : MonadFiles (Asking m) where
  kind p := Asking.ask (.kind p) (MonadFiles.kind p)
  below p ending := Asking.ask (.below p ending) (MonadFiles.below p ending)
  read p := Asking.ask (.read p) (MonadFiles.read p)
  canonical p := StateT.lift (MonadFiles.canonical p)
  makeDirectory p := StateT.lift (MonadFiles.makeDirectory p)
  stage directory name content := StateT.lift (MonadFiles.stage directory name content)
  move source target := StateT.lift (MonadFiles.move source target)
  remove p := StateT.lift (MonadFiles.remove p)

end

-- ===== work that asks

/-- The work, here with a record and without one, leaves the files as they are. What it comes to
and the lines that it logs are settled by the answers to the questions of the record. -/
structure Asks (x : Asking OnTree α) (y : OnTree α) : Prop where
  settled : ∀ t, ∃ a qs lines,
    (∀ asked log, (x asked).Ends t log (a, asked ++ qs) t (lines ++ log))
    ∧ ∀ t', t'.working = t.working → (∀ q ∈ qs, q.Same t t') →
        ∀ log, y.Ends t' log a t' (lines ++ log)

namespace Asks

theorem pure (a : α) : Asks (pure a) (pure a) := by
  refine ⟨fun t => ⟨a, [], [], fun asked log => ?_, fun t' _ _ log => rfl⟩⟩
  rw [append_nil]
  rfl

theorem bind {x : Asking OnTree α} {y : OnTree α} {f : α → Asking OnTree β} {g : α → OnTree β}
    (hx : Asks x y) (hf : ∀ a, Asks (f a) (g a)) : Asks (x >>= f) (y >>= g) := by
  constructor
  intro t
  obtain ⟨a, qs, lines, hrecorded, hplain⟩ := hx.settled t
  obtain ⟨b, qs', lines', hrecorded', hplain'⟩ := (hf a).settled t
  refine ⟨b, qs ++ qs', lines' ++ lines, fun asked log => ?_, fun t' hworking hsame log => ?_⟩
  · have hnext := hrecorded' (asked ++ qs) (lines ++ log)
    rw [append_assoc, ← append_assoc lines'] at hnext
    exact (hrecorded asked log).bind (f := fun r : α × List FileQuestion => f r.1 r.2) hnext
  · have hfirst := hplain t' hworking (fun q hq => hsame q (mem_append_left _ hq)) log
    have hnext := hplain' t' hworking (fun q hq => hsame q (mem_append_right _ hq))
      (lines ++ log)
    rw [← append_assoc] at hnext
    exact hfirst.bind hnext

/-- Work that goes on with an answer, or with the reason why there is none. -/
theorem answered {ε : Type} {x : Asking OnTree (Except ε α)} {y : OnTree (Except ε α)}
    {f : Except ε α → Asking OnTree β} {g : Except ε α → OnTree β} (hx : Asks x y)
    (herror : ∀ e, Asks (f (.error e)) (g (.error e))) (hok : ∀ a, Asks (f (.ok a)) (g (.ok a))) :
    Asks (x >>= f) (y >>= g) := by
  refine hx.bind fun answer => ?_
  cases answer with
  | error e => exact herror e
  | ok a => exact hok a

theorem note (line : LogLine) : Asks (MonadLog.note line) (MonadLog.note line) := by
  refine ⟨fun t => ⟨(), [], [line], fun asked log => ?_, fun t' _ _ log => rfl⟩⟩
  rw [append_nil]
  rfl

theorem log (c : Context) (level : LogLevel) (message : String) :
    Asks (c.log level message) (c.log level message) := by
  unfold Context.log
  cases c.admit? level message with
  | none => exact .pure ()
  | some line => exact .note line

theorem ite {p : Prop} [Decidable p] {x x' : Asking OnTree α} {y y' : OnTree α}
    (hthen : p → Asks x y) (helse : ¬p → Asks x' y') :
    Asks (if p then x else x') (if p then y else y') := by
  by_cases h : p
  · rw [if_pos h, if_pos h]
    exact hthen h
  · rw [if_neg h, if_neg h]
    exact helse h

/-- A question of whose answer only a part counts. -/
theorem ask (q : FileQuestion) {answer : OnTree α} {f : FileTree → α} {g : α → β}
    {x : Asking OnTree β} {y : OnTree β} (hanswer : ∀ t log, answer.Ends t log (f t) t log)
    (hx : x = do return g (← Asking.ask q answer)) (hy : y = do return g (← answer))
    (hsame : ∀ t t', q.Same t t' → g (f t') = g (f t)) : Asks x y := by
  refine ⟨fun t => ⟨g (f t), [q], [], fun asked log => ?_, fun t' _ hq log => ?_⟩⟩
  · rw [hx]
    exact (hanswer t log).bind (f := fun a => (Pure.pure (g a, asked ++ [q]) : OnTree _))
      (OnTree.ends_pure ..)
  · rw [hy, ← hsame t t' (hq q (mem_singleton_self q))]
    exact (hanswer t' log).bind (OnTree.ends_pure ..)

theorem kind (p : Path) : Asks (MonadFiles.kind p) (MonadFiles.kind p) :=
  .ask (.kind p) (f := fun t => (t.find p).map Entry.kind) (g := id) (fun _ _ => rfl) rfl rfl
    fun _ _ h => h

theorem read (p : Path) : Asks (MonadFiles.read p) (MonadFiles.read p) :=
  .ask (.read p) (f := fun t => t.read p) (g := id) (fun _ _ => rfl) rfl rfl fun _ _ h => h

theorem canonical (p : Path) : Asks (MonadFiles.canonical p) (MonadFiles.canonical p) := by
  refine ⟨fun t => ⟨t.fullPath p, [], [], fun asked log => ?_, fun t' hworking _ log => ?_⟩⟩
  · rw [append_nil]
    rfl
  · have hpath : t'.fullPath p = t.fullPath p := by
      unfold FileTree.fullPath
      rw [hworking]
    exact hpath ▸ rfl

/-- A search asks what stands below a directory, and neither build output nor an order counts. -/
theorem search (directory : Path) (ending : String) :
    Asks (Project.search directory ending) (Project.search directory ending) := by
  let paths (all : List (List String)) : List Path :=
    all.map fun parts => directory.join ⟨.relative, parts⟩
  let part (found : Except FileFault (List (List String))) : Except FileFault (List Path) :=
    (found.map Project.listed).map paths
  have heq : ∀ {m : Type → Type} [Monad m] [MonadFiles m],
      (Project.search directory ending : m _)
        = do return part (← MonadFiles.below directory ending) := by
    intro m _ _
    refine congrArg (MonadFiles.below directory ending >>= ·) (funext fun found => ?_)
    cases found with
    | error f => rfl
    | ok found => rfl
  exact .ask (.below directory ending) (f := fun t => t.below directory ending) (fun _ _ => rfl)
    heq heq fun _ _ h => congrArg (Except.map paths) h

end Asks

end SourceBundle

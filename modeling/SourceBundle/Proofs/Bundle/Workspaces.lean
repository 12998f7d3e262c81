/-
Bundles in workspaces that are made of texts.

A workspace has a language service, and a session of its own in which a
root is bundled (`bundleOf`). What the session collects from the units,
one after another, explains the bundle (`bundleOf_explained`).

Texts in the order of their names are added as they stand
(`ofSources_of_sorted`), and a bundle of such a workspace can be put to
a test (`bundles`).
-/
import SourceBundle.Bundle.Render
import SourceBundle.Proofs.Binding.Located
import SourceBundle.Proofs.Closure.Account

namespace SourceBundle

open List

/-- The names of the units of a bundle. -/
def Bundle.names (b : Bundle) : List String :=
  b.units.map (·.qualifiedName)

namespace Workspace

-- ===== bundling

/-- The language service of a workspace, with no effects but those of a session. -/
abbrev service (w : Workspace) : Service (Session Id) :=
  w.index.service

/-- Bundles a root in a session of its own. -/
def bundleOf (w : Workspace) (root : String) : Except BindError (Except WalkError Bundle) :=
  Id.run (bundle w.service w.context root).start

/-- The text of a bundle. -/
def textOf (w : Workspace) (b : Bundle) : String :=
  b.text w.service w.context

/-- What a session collects from the units of a bundle, one after another. -/
def account (w : Workspace) (b : Bundle) : List (String × Collection) :=
  w.service.account w.context b.units {}

variable {w : Workspace} {root : String} {b : Bundle}

/-- What a session collects explains each bundle. -/
theorem bundleOf_explained (h : w.bundleOf root = .ok (.ok b)) :
    locateRoot w.service root = .ok b.root
      ∧ b.Explained w.service w.context {} := by
  obtain ⟨st, hgives⟩ := Session.exists_gives_of_start h
  rcases bundle_explained w.index_regular.distinct hgives with ⟨e, -, he⟩ | ⟨b', hb', hroot, hex⟩
  · cases he
  · cases hb'
    exact ⟨hroot, hex⟩

/-- The root is bundled. -/
theorem root_mem_units (hex : b.Explained w.service w.context {}) : b.root ∈ b.units :=
  (hex.mem_units_iff b.root).2 .refl

-- ===== texts

/-- Sources in the order of their names are added as they stand. -/
theorem ofSources_of_sorted (c : Context) {sources : List (String × String)}
    (hsorted : sources.Pairwise fun a b => decide (a.1 ≤ b.1)) :
    Id.run (ofSources c sources)
      = Id.run (addSources { context := c, projects := [textProject false] } (textProject false)
          sources) := by
  unfold ofSources
  rw [mergeSort_of_pairwise hsorted]

/-- Sources are added one after another. -/
theorem addSources_cons (w : Workspace) (project : Project) (name text : String)
    (more : List (String × String)) :
    Id.run (w.addSources project ((name, text) :: more))
      = Id.run ((Id.run (w.addDocument (.ofText name) project text.toList)).1.addSources project
          more) := by
  rw [addSources]
  generalize (w.addDocument (.ofText name) project text.toList : Id (Workspace × Bool)) = added
  rfl

/-- A document leaves the context as it is. -/
theorem context_addDocument (w : Workspace) (path : Path) (project : Project)
    (source : List Char) : (Id.run (w.addDocument path project source)).1.context = w.context := by
  unfold addDocument
  cases tokenizeChars source with
  | error e => rfl
  | ok tokens =>
    dsimp only
    cases parseTokens source tokens w.nextNode with
    | error e => rfl
    | ok r => rfl

/-- So do sources. -/
theorem context_addSources (w : Workspace) (project : Project) (sources : List (String × String)) :
    (Id.run (w.addSources project sources)).context = w.context := by
  induction sources generalizing w with
  | nil => rfl
  | cons source more ih =>
    rw [addSources_cons, ih, context_addDocument]

-- ===== tests

/-- There is a bundle of a root, and it passes a test. -/
def bundles (w : Workspace) (root : String) (test : Bundle → Bool) : Bool :=
  match w.bundleOf root with
  | .ok (.ok b) => test b
  | _ => false

/-- The bundle that passed the test. -/
theorem exists_of_bundles {w : Workspace} {root : String} {test : Bundle → Bool}
    (h : w.bundles root test = true) : ∃ b, w.bundleOf root = .ok (.ok b) ∧ test b = true := by
  unfold bundles at h
  split at h
  · next b hb => exact ⟨b, hb, h⟩
  · cases h

end Workspace

end SourceBundle

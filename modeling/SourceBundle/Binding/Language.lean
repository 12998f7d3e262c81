/-
The language service of a workspace: its units, and references resolved
by binding expressions.
-/
import SourceBundle.Binding.Resolve
import SourceBundle.Service

namespace SourceBundle

/-- Work on an open workspace among other effects: it may fail, and remembers what was bound. -/
abbrev Session (m : Type → Type) := ExceptT BindError (StateT BindState m)

section

variable {m : Type → Type} [Monad m]

/-- Binding as part of a session. -/
def Session.ofBind {α : Type} (x : BindM α) : Session m α :=
  fun s => pure (x s)

/-- A question about the hierarchy as part of a session. -/
def Session.ofBases {α : Type} (x : StateM BaseMemo α) : Session m α :=
  .ofBind (.ofBases x)

/-- Works with a workspace that nothing has been asked of yet. -/
def Session.start {α : Type} (work : Session m α) : m (Except BindError α) := do
  let (answer, _) ← work.run.run {}
  return answer

end

namespace Index

def unitNamed (ix : Index) (name : String) : Option TypeUnit :=
  ix.units.find? (·.qualifiedName = name)

/-- The unit that the declaration of a symbol belongs to. -/
def declaringUnit (ix : Index) (s : Symbol) : Option TypeUnit := do
  let t ← ix.types[← s.container]?
  ix.unitNamed t.outermost.qualifiedName

theorem mem_units_of_unitNamed {ix : Index} {name : String} {u : TypeUnit}
    (hu : ix.unitNamed name = some u) : u ∈ ix.units :=
  List.mem_of_find?_eq_some hu

theorem unitNamed_of_declaringUnit {ix : Index} {s : Symbol} {u : TypeUnit}
    (hu : ix.declaringUnit s = some u) : ∃ name, ix.unitNamed name = some u := by
  obtain ⟨number, -, hu⟩ := Option.bind_eq_some_iff.1 hu
  obtain ⟨t, -, hu⟩ := Option.bind_eq_some_iff.1 hu
  exact ⟨_, hu⟩

/-- The namespace of a unit, if it is one of the index. -/
def enclosingSpace (ix : Index) (u : TypeUnit) : Option String :=
  ((ix.unitNamed u.qualifiedName).filter (·.key = u.key)).map fun _ => u.space

def service {m : Type → Type} [Monad m] (ix : Index) : Service (Session m) where
  names := ix.units.map (·.qualifiedName)
  findUnit space name := ix.unitNamed (Text.dotted space name)
  resolve e := .ofBind (ix.resolve e)
  declaringUnit := ix.declaringUnit
  enclosingSpace := ix.enclosingSpace
  importsOf := ix.importsOf
  unitsIn space := ix.units.filter (·.space = space)
  declaresSpace space := ix.spaces.contains space
  globalImports := ix.globalImports
  findUnit_named hu := List.mem_map_of_mem (mem_units_of_unitNamed hu)
  declaringUnit_named hu := by
    obtain ⟨name, hu⟩ := unitNamed_of_declaringUnit hu
    exact List.mem_map_of_mem (mem_units_of_unitNamed hu)
  unitsIn_named hu := List.mem_map_of_mem (List.mem_filter.1 hu).1

/-- The type that a qualified name stands for. -/
def typeInfo (ix : Index) (name : String) : Option DeclaredType :=
  (ix.named name).head?

end Index

/-- A workspace with its index. The warnings of the index are reported to the workspace. -/
structure OpenWorkspace where
  workspace : Workspace
  index : Index

/-- Indexes a workspace. -/
def Workspace.openIndex {m : Type → Type} [Monad m] [MonadLog m] (w : Workspace) :
    m OpenWorkspace := do
  let index := w.index
  let w ← w.reportAll index.duplicates
  w.context.log .debug
    s!"Indexed {index.units.length} unit(s) in {index.spaces.length} namespace(s)"
  return ⟨w, index⟩

end SourceBundle

/-
What a local name stands for. At a place of the source a name stands for
the symbol that starts last before it, in the innermost scope that has
one; of symbols that start together the one recorded last counts
(`Scope.lookup_closest`). So nothing is hidden before it is declared.
-/
import SourceBundle.Scope

namespace SourceBundle

open List

variable {name : String} {line column : Nat} {symbols front level : List LocalSymbol}
  {outer : Scope}

/-- The symbols of a name that are declared at a place or before it. -/
def bindings (name : String) (line column : Nat) (level : List LocalSymbol) : List LocalSymbol :=
  level.filter fun s => s.name = name && s.startsBy line column

/-- The symbol that starts last among some, and is the last of those that start with it. -/
def Latest (symbols : List LocalSymbol) (s : LocalSymbol) : Prop :=
  ∃ before after, symbols = before ++ s :: after
    ∧ (∀ x ∈ before, x.startsBy s.line s.column)
    ∧ ∀ x ∈ after, ¬s.startsBy x.line x.column

/-- The symbols of a member: its parameters, then the locals of its body in order. -/
def MemberDecl.ownSymbols (m : MemberDecl) : List LocalSymbol :=
  m.params.map (LocalSymbol.ofParam .param) ++ m.locals.map LocalSymbol.ofLocal

-- ===== the order of places

namespace LocalSymbol

variable {a b : LocalSymbol}

theorem startsBy_iff :
    a.startsBy line column ↔ a.line < line ∨ a.line = line ∧ a.column ≤ column := by
  simp [startsBy]

theorem startsBy_trans (hab : a.startsBy b.line b.column) (hb : b.startsBy line column) :
    a.startsBy line column := by
  rw [startsBy_iff] at *
  omega

theorem startsBy_of_not (h : ¬a.startsBy b.line b.column) : b.startsBy a.line a.column := by
  rw [startsBy_iff] at *
  omega

end LocalSymbol

-- ===== one scope

namespace Latest

variable {s : LocalSymbol}

theorem singleton (s : LocalSymbol) : Latest [s] s :=
  ⟨[], [], rfl, nofun, nofun⟩

theorem mem (h : Latest symbols s) : s ∈ symbols := by
  obtain ⟨before, after, rfl, -⟩ := h
  simp

/-- A further symbol takes the place of the latest one unless it starts earlier. -/
theorem concat (h : Latest symbols s) (x : LocalSymbol) :
    Latest (symbols ++ [x]) (s.later x) := by
  obtain ⟨before, after, rfl, hbefore, hafter⟩ := h
  unfold LocalSymbol.later
  split
  next hx =>
    refine ⟨_, [], rfl, fun y hy => ?_, nofun⟩
    obtain hy | rfl | hy : y ∈ before ∨ y = s ∨ y ∈ after := by simpa using hy
    · exact LocalSymbol.startsBy_trans (hbefore y hy) hx
    · exact hx
    · exact LocalSymbol.startsBy_trans (LocalSymbol.startsBy_of_not (hafter y hy)) hx
  next hx =>
    refine ⟨before, after ++ [x], by simp, hbefore, fun y hy => ?_⟩
    obtain hy | rfl : y ∈ after ∨ y = x := by simpa using hy
    · exact hafter y hy
    · exact hx

theorem foldl_later (h : Latest front s) (symbols : List LocalSymbol) :
    ∃ t, symbols.foldl (fun best x => some ((best.map (·.later x)).getD x)) (some s) = some t
      ∧ Latest (front ++ symbols) t := by
  induction symbols generalizing front s with
  | nil => exact ⟨s, rfl, by rwa [append_nil]⟩
  | cons x symbols ih =>
    obtain ⟨t, hfold, ht⟩ := ih (h.concat x)
    exact ⟨t, hfold, by rwa [append_assoc] at ht⟩

end Latest

/-- Within a scope the latest symbol of a name is found, if there is one. -/
theorem closestBefore_cases (name : String) (line column : Nat) (level : List LocalSymbol) :
    (bindings name line column level = []
        ∧ closestBefore (some (line, column)) (level.filter (·.name = name)) = none)
      ∨ ∃ s, closestBefore (some (line, column)) (level.filter (·.name = name)) = some s
        ∧ Latest (bindings name line column level) s := by
  have hfilter : (level.filter (·.name = name)).filter (·.startsBy line column)
      = bindings name line column level := by
    rw [filter_filter, bindings]
    simp only [Bool.and_comm]
  rw [closestBefore, hfilter]
  cases bindings name line column level with
  | nil => exact .inl ⟨rfl, rfl⟩
  | cons s symbols => exact .inr ((Latest.singleton s).foldl_later symbols)

-- ===== scopes around one another

theorem Scope.lookup_of_nil (h : bindings name line column level = []) :
    Scope.lookup name (some (line, column)) (level :: outer)
      = outer.lookup name (some (line, column)) := by
  obtain ⟨-, hnone⟩ | ⟨s, -, hlatest⟩ := closestBefore_cases name line column level
  · rw [lookup, hnone]
  · exact absurd (h ▸ hlatest.mem) not_mem_nil

theorem Scope.lookup_of_ne_nil (h : bindings name line column level ≠ []) :
    ∃ s, Scope.lookup name (some (line, column)) (level :: outer) = some s
      ∧ Latest (bindings name line column level) s := by
  obtain ⟨hnil, -⟩ | ⟨s, hsome, hlatest⟩ := closestBefore_cases name line column level
  · exact absurd hnil h
  · exact ⟨s, by rw [lookup, hsome], hlatest⟩

/-- A lookup that finds nothing has passed every scope, and one that finds a symbol has passed those
inside the one that it is found in. -/
theorem Scope.lookup_cases (name : String) (line column : Nat) (scope : Scope) :
    (scope.lookup name (some (line, column)) = none
        ∧ ∀ level ∈ scope, bindings name line column level = [])
      ∨ ∃ s inner level outer, scope.lookup name (some (line, column)) = some s
        ∧ scope = inner ++ level :: outer
        ∧ (∀ l ∈ inner, bindings name line column l = [])
        ∧ Latest (bindings name line column level) s := by
  induction scope with
  | nil => exact .inl ⟨rfl, nofun⟩
  | cons level outer ih =>
    by_cases hlevel : bindings name line column level = []
    · rw [lookup_of_nil hlevel]
      obtain ⟨hnone, hall⟩ | ⟨s, inner, level', outer', hsome, rfl, hinner, hlatest⟩ := ih
      · exact .inl ⟨hnone, forall_mem_cons.2 ⟨hlevel, hall⟩⟩
      · exact .inr ⟨s, level :: inner, level', outer', hsome, rfl,
          forall_mem_cons.2 ⟨hlevel, hinner⟩, hlatest⟩
    · obtain ⟨s, hsome, hlatest⟩ := lookup_of_ne_nil hlevel
      exact .inr ⟨s, [], level, outer, hsome, rfl, nofun, hlatest⟩

/-- A name stands for the latest of its symbols at a place, in the innermost scope that has one, and
for nothing if there is none. In a member it never stands for what is declared after the place, and
the symbols of the member hide the parameters of the type only where one of them is declared by
then. -/
theorem Scope.lookup_closest (scope : Scope) (name : String) (line column : Nat) :
    (∀ s, scope.lookup name (some (line, column)) = some s →
        ∃ inner level outer, scope = inner ++ level :: outer
          ∧ (∀ l ∈ inner, bindings name line column l = [])
          ∧ Latest (bindings name line column level) s)
      ∧ (scope.lookup name (some (line, column)) = none
        ↔ ∀ level ∈ scope, bindings name line column level = [])
      ∧ ∀ (m : MemberDecl) (d : TypeDecl),
        (∀ s, (m.scope d).lookup name (some (line, column)) = some s →
          s.name = name ∧ s.startsBy line column)
        ∧ (bindings name line column m.ownSymbols ≠ [] →
          ∃ s, (m.scope d).lookup name (some (line, column)) = some s
            ∧ Latest (bindings name line column m.ownSymbols) s)
        ∧ (bindings name line column m.ownSymbols = [] →
          (m.scope d).lookup name (some (line, column))
            = d.scope.lookup name (some (line, column))) := by
  refine ⟨fun s hs => ?_, ⟨fun hnone => ?_, fun hall => ?_⟩, fun m d =>
    ⟨fun s hs => ?_, lookup_of_ne_nil, lookup_of_nil⟩⟩
  · obtain ⟨hnone, -⟩ | ⟨s', inner, level, outer, hsome, hscope, hinner, hlatest⟩ :=
      scope.lookup_cases name line column
    · exact absurd (hnone ▸ hs) nofun
    · obtain rfl : s' = s := Option.some.inj (hsome.symm.trans hs)
      exact ⟨inner, level, outer, hscope, hinner, hlatest⟩
  · obtain ⟨-, hall⟩ | ⟨s, _, _, _, hsome, -⟩ := scope.lookup_cases name line column
    · exact hall
    · exact absurd (hnone ▸ hsome) nofun
  · obtain ⟨hnone, -⟩ | ⟨s, inner, level, outer, -, hscope, -, hlatest⟩ :=
      scope.lookup_cases name line column
    · exact hnone
    · exact absurd hlatest.mem (hall level (by simp [hscope]) ▸ not_mem_nil)
  · obtain ⟨hnone, -⟩ | ⟨s', _, level, _, hsome, -, -, hlatest⟩ :=
      (m.scope d).lookup_cases name line column
    · exact absurd (hnone ▸ hs) nofun
    · obtain rfl : s' = s := Option.some.inj (hsome.symm.trans hs)
      simpa using (mem_filter.1 hlatest.mem).2

end SourceBundle

/-
What a question looks at. To look a path up, the places on its way are
looked at; to look below a directory, also what stands there with the
right end of its name, unless it is build output. What a write changes
out of the sight of a question does not change the answer
(`FileQuestion.same_of_unseen`).
-/
import SourceBundle.Proofs.Files.Writing

namespace SourceBundle

open List

-- ===== ways

namespace Path

/-- Where one part leads from a place. -/
def step (place : List String) (part : String) : List String :=
  if part = ".." then place.dropLast else place ++ [part]

/-- The places that parts lead through, the last one last. -/
def wayFrom (place : List String) : List String → List (List String)
  | [] => [place]
  | part :: parts => place :: wayFrom (step place part) parts

/-- The place that parts lead to. -/
def endFrom (place : List String) (parts : List String) : List String :=
  parts.foldl step place

/-- The place that a path starts from. -/
def start (p : Path) (working : List String) : List String :=
  if p.isAbsolute then [] else working

theorem endFrom_mem_wayFrom (place parts : List String) :
    endFrom place parts ∈ wayFrom place parts := by
  induction parts generalizing place with
  | nil => exact mem_singleton_self _
  | cons part parts ih => exact mem_cons_of_mem _ (ih _)

end Path

namespace FileTree

variable {t t' : FileTree}

theorem follow_eq_endFrom {place parts r : List String} (hr : t.follow place parts = .ok r) :
    r = Path.endFrom place parts := by
  induction parts generalizing place with
  | nil =>
    cases hr
    rfl
  | cons part parts ih =>
    rw [follow] at hr
    rw [Path.endFrom, foldl_cons, Path.step]
    split at hr
    · cases hr
    · cases hr
    · by_cases hup : part = ".."
      · rw [if_pos hup] at hr ⊢
        exact ih hr
      · rw [if_neg hup] at hr ⊢
        split at hr
        · cases hr
        · exact ih hr

/-- A way is the same where the places on it are. -/
theorem follow_congr {place parts : List String}
    (h : ∀ q ∈ Path.wayFrom place parts, t'.entryAt q = t.entryAt q) :
    t'.follow place parts = t.follow place parts := by
  induction parts generalizing place with
  | nil => rfl
  | cons part parts ih =>
    obtain ⟨hplace, hrest⟩ := forall_mem_cons.1 h
    rw [Path.step] at hrest
    rw [follow, follow, hplace]
    split
    · rfl
    · rfl
    · by_cases hup : part = ".."
      · rw [if_pos hup] at hrest
        rw [if_pos hup, if_pos hup, ih hrest]
      · rw [if_neg hup] at hrest
        rw [if_neg hup, if_neg hup, ih hrest]

theorem placeOf_eq_endFrom {p : Path} {place : List String} (h : t.placeOf p = .ok place) :
    place = Path.endFrom (p.start t.working) p.parts := by
  unfold placeOf at h
  split at h
  · cases h
  split at h
  · cases h
  exact follow_eq_endFrom h

section

variable {p : Path} (hworking : t'.working = t.working)
  (hway : ∀ q ∈ Path.wayFrom (p.start t.working) p.parts, t'.entryAt q = t.entryAt q)

include hworking hway

theorem placeOf_congr : t'.placeOf p = t.placeOf p := by
  have hfollow : t'.follow (p.start t.working) p.parts = t.follow (p.start t.working) p.parts :=
    follow_congr hway
  unfold placeOf
  rw [hworking]
  by_cases hzero : p.hasZero = true
  · rw [if_pos hzero, if_pos hzero]
  · rw [if_neg hzero, if_neg hzero]
    by_cases hlong : maxPath < p.text.utf8ByteSize
    · rw [if_pos hlong, if_pos hlong]
    · rw [if_neg hlong, if_neg hlong]
      exact hfollow

theorem find_congr : t'.find p = t.find p := by
  unfold find
  rw [placeOf_congr hworking hway]
  cases hplace : t.placeOf p with
  | error e => rfl
  | ok place =>
    have hend := placeOf_eq_endFrom hplace
    dsimp only [Bind.bind, Except.bind]
    rw [hway place (hend ▸ Path.endFrom_mem_wayFrom _ _)]

end

-- ===== below

/-- What stands below a place with a property. -/
def listedUnder (place : List String) (keep : List String → Entry → Bool)
    (x : List String × Entry) : Option (List String × Entry) :=
  if (place.isPrefixOf x.1 && place.length < x.1.length)
      && keep (x.1.drop place.length) x.2 then
    some (x.1.drop place.length, x.2)
  else none

theorem filter_under (t : FileTree) (place : List String) (keep : List String → Entry → Bool) :
    (t.under place).filter (fun x => keep x.1 x.2)
      = t.entries.filterMap (listedUnder place keep) := by
  unfold under
  rw [filter_filterMap]
  congr 1
  funext x
  obtain ⟨parts, e⟩ := x
  unfold listedUnder
  dsimp only
  by_cases hunder : (place.isPrefixOf parts && place.length < parts.length) = true
  · rw [if_pos hunder, hunder, Bool.true_and]
    by_cases hkeep : keep (parts.drop place.length) e = true
    · rw [if_pos hkeep]
      simp [Option.filter, hkeep]
    · rw [if_neg hkeep]
      simp [Option.filter, hkeep]
  · rw [if_neg hunder, if_neg (by simp [hunder])]
    rfl

/-- What is listed below a directory is settled by those entries that have the end of the name and
are no build output, and by the directories that are too far away. -/
theorem below_congr {d : Path} {ending : String} (hplace : t'.placeOf d = t.placeOf d)
    (hkeep : ∀ keep : List String → Entry → Bool,
      (∀ parts e, keep parts e = true → isTooFar d parts = true
        ∨ (parts.getLastD "").endsWith ending = true ∧ Project.isOutput parts = false) →
      t'.entries.filterMap (listedUnder (Path.endFrom (d.start t.working) d.parts) keep)
        = t.entries.filterMap (listedUnder (Path.endFrom (d.start t.working) d.parts) keep)) :
    (t'.below d ending).map Project.listed = (t.below d ending).map Project.listed := by
  unfold below
  rw [hplace]
  cases hd : t.placeOf d with
  | error e => rfl
  | ok place =>
    rw [← placeOf_eq_endFrom hd] at hkeep
    have hfar : (t'.under place).find? (fun x => x.2.kind = .directory && isTooFar d x.1)
        = (t.under place).find? (fun x => x.2.kind = .directory && isTooFar d x.1) := by
      rw [← head?_filter, ← head?_filter,
        filter_under t' place fun parts e => e.kind = .directory && isTooFar d parts,
        filter_under t place fun parts e => e.kind = .directory && isTooFar d parts,
        hkeep _ fun parts e h => .inl (Bool.and_eq_true_iff.1 h).2]
    have hlisted : ∀ s : FileTree, Project.listed (((s.under place).map (·.1)).filter
          fun parts => (parts.getLastD "").endsWith ending)
        = (((s.under place).filter fun x =>
          (x.1.getLastD "").endsWith ending && !Project.isOutput x.1).map (·.1)).mergeSort
            Path.partsLe := by
      intro s
      unfold Project.listed
      rw [filter_filter, filter_map]
      congr 3
      funext x
      exact Bool.and_comm ..
    have hsame := hkeep
      (fun parts _ => (parts.getLastD "").endsWith ending && !Project.isOutput parts)
      fun parts e h => .inr (by simpa using h)
    dsimp only
    rw [hfar]
    cases (t.under place).find? fun x => x.2.kind = .directory && isTooFar d x.1 with
    | some x => rfl
    | none =>
      refine congrArg Except.ok ?_
      rw [hlisted t', hlisted t,
        filter_under t' place fun parts _ =>
          (parts.getLastD "").endsWith ending && !Project.isOutput parts,
        filter_under t place fun parts _ =>
          (parts.getLastD "").endsWith ending && !Project.isOutput parts, hsame]

end FileTree

-- ===== sight

/-- Whether a question that is asked in a working directory looks at a place. -/
def FileQuestion.sees (working : List String) (q : FileQuestion) (place : List String) : Bool :=
  match q with
  | kind p | read p => (Path.wayFrom (p.start working) p.parts).contains place
  | below d ending =>
    let around := Path.endFrom (d.start working) d.parts
    let rest := place.drop around.length
    (Path.wayFrom (d.start working) d.parts).contains place
      || around.isPrefixOf place && around.length < place.length
        && (FileTree.isTooFar d rest
          || (rest.getLastD "").endsWith ending && !Project.isOutput rest)

namespace FileTree

variable {t t' : FileTree} {path : Path} {text : String} {place : List String}

/-- The places that a write changes: the one that it is about, and where it makes a directory. -/
def Touches (t : FileTree) (target : List String) (t' : FileTree) (place : List String) : Prop :=
  place = target ∨ t.entryAt place = none ∧ t'.entryAt place = some .directory

namespace Writes

theorem entryAt_of_untouched (h : t.Writes path text place t') {p : List String}
    (hp : ¬t.Touches place t' p) : t'.entryAt p = t.entryAt p := by
  obtain ⟨hne, hnew⟩ := not_or.1 hp
  rcases h.entryAt_other hne with heq | hopened
  · exact heq
  · exact absurd hopened hnew

theorem working (h : t.Writes path text place t') : t'.working = t.working := by
  obtain ⟨t₁, staged, hopens, -, -, rfl⟩ := h.exists_between
  exact hopens.extends.working

/-- What is picked from the entries is the same if nothing that was touched is picked. -/
theorem filterMap_entries {γ : Type} (h : t.Writes path text place t')
    {pick : List String × Entry → Option γ}
    (hpick : ∀ p e, t.Touches place t' p → pick (p, e) = none) :
    t'.entries.filterMap pick = t.entries.filterMap pick := by
  have hother := fun p (hp : p ≠ place) => h.entryAt_other hp
  have hplace := h.ne_nil
  obtain ⟨t₁, staged, ⟨made, hmade, rfl⟩, -, -, rfl⟩ := h.exists_between
  have htarget : ∀ e, pick (place, e) = none := fun e => hpick place e (.inl rfl)
  have hdropped : ∀ l : List (List String × Entry),
      (l.filter (·.1 ≠ place)).filterMap pick = l.filterMap pick := by
    intro l
    induction l with
    | nil => rfl
    | cons x l ih =>
      obtain ⟨p, e⟩ := x
      by_cases hp : p = place
      · rw [filter_cons_of_neg (by simp [hp]), ih, hp, filterMap_cons_none (htarget e)]
      · rw [filter_cons_of_pos (by simp [hp]), filterMap_cons, filterMap_cons, ih]
  have hnew : (made.map fun p => (p, Entry.directory)).filterMap pick = [] := by
    refine filterMap_eq_nil_iff.2 fun x hx => ?_
    obtain ⟨p, hp, rfl⟩ := mem_map.1 hx
    refine hpick p _ ?_
    by_cases hne : p = place
    · exact .inl hne
    · refine .inr ⟨hmade p hp, ?_⟩
      rcases hother p hne with heq | hopened
      · rw [entryAt_set _ _ hplace, if_neg hne, hmade p hp,
          entryAt_eq_lookup _ (ne_nil_of_free (hmade p hp)), lookup_eq_none_iff] at heq
        have hself := heq (p, .directory) (mem_append_right _ hx)
        simp at hself
      · exact hopened.2
  rw [set, filterMap_append, hdropped, filterMap_append, hnew, append_nil,
    filterMap_cons_none (htarget _), filterMap_nil, append_nil]

/-- A question is answered as before if nothing that was touched is in its sight. -/
theorem same_of_unseen (h : t.Writes path text place t') (q : FileQuestion)
    (hunseen : ∀ p, t.Touches place t' p → q.sees t.working p = false) : q.Same t t' := by
  have hway : ∀ p : Path,
      (∀ place, (Path.wayFrom (p.start t.working) p.parts).contains place = true →
        q.sees t.working place = true) → ∀ place ∈ Path.wayFrom (p.start t.working) p.parts,
      t'.entryAt place = t.entryAt place := by
    intro p hsees place hplace
    refine h.entryAt_of_untouched fun htouched => ?_
    have hseen := hsees place (contains_iff_mem.2 hplace)
    rw [hunseen place htouched] at hseen
    cases hseen
  cases q with
  | kind p =>
    show (t'.find p).map _ = (t.find p).map _
    rw [find_congr h.working (hway p fun place hplace => hplace)]
  | read p =>
    show t'.read p = t.read p
    unfold FileTree.read
    rw [find_congr h.working (hway p fun place hplace => hplace)]
  | below d ending =>
    refine below_congr (placeOf_congr h.working (hway d fun place hplace => ?_))
      fun keep hkeep => ?_
    · exact Bool.or_eq_true_iff.2 (.inl hplace)
    · refine h.filterMap_entries fun p e htouched => ?_
      have hunseen := hunseen p htouched
      unfold FileQuestion.sees at hunseen
      obtain ⟨-, hunseen⟩ := Bool.or_eq_false_iff.1 hunseen
      unfold listedUnder
      dsimp only at hunseen ⊢
      rw [if_neg]
      intro hlisted
      obtain ⟨hunder, hkept⟩ := Bool.and_eq_true_iff.1 hlisted
      rw [hunder, Bool.true_and, Bool.or_eq_false_iff] at hunseen
      rcases hkeep _ e hkept with hfar | ⟨hends, houtput⟩
      · rw [hfar] at hunseen
        cases hunseen.1
      · rw [hends, houtput] at hunseen
        cases hunseen.2

end Writes

end FileTree

end SourceBundle

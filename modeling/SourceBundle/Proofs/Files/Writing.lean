/-
Writing to a file system in memory. What a write can do is said once
for each step: directories are made only where there was nothing
(`Opens`), and a file is put in its place as a whole or the file system
is as it was before (`placeFile_cases`). The staged file stands where
there was nothing, so to take it away again undoes it.

A write that went well can be made again: the directories are there,
the staged file finds the same place, and the file system does not
change at all.
-/
import SourceBundle.Bundle.Write
import SourceBundle.Proofs.Files.Questions

namespace SourceBundle

open List

-- ===== entries

namespace FileTree

variable {t t' t'' : FileTree} {place : List String} {e : Entry}

theorem lookup_filter_ne (l : List (List String × Entry)) (k p : List String) :
    (l.filter (·.1 ≠ k)).lookup p = if p = k then none else l.lookup p := by
  induction l with
  | nil => simp
  | cons x l ih =>
    obtain ⟨a, e⟩ := x
    by_cases hak : a = k
    · rw [filter_cons_of_neg (by simp [hak]), ih]
      by_cases hpk : p = k
      · rw [if_pos hpk, if_pos hpk]
      · rw [if_neg hpk, if_neg hpk, lookup_cons, beq_false_of_ne (hak ▸ hpk)]
    · rw [filter_cons_of_pos (by simp [hak]), lookup_cons, lookup_cons, ih]
      by_cases hpa : p = a
      · rw [beq_iff_eq.2 hpa, if_neg (hpa ▸ hak : ¬p = k), if_neg (hpa ▸ hak : ¬p = k)]
      · rw [beq_false_of_ne hpa]

theorem entryAt_eq_lookup (t : FileTree) (hplace : place ≠ []) :
    t.entryAt place = t.entries.lookup place := by
  unfold entryAt
  rw [if_neg (by simp [hplace])]

theorem entryAt_set (t : FileTree) (e : Entry) (hplace : place ≠ []) (p : List String) :
    (t.set place e).entryAt p = if p = place then some e else t.entryAt p := by
  by_cases hp : p = []
  · rw [hp, if_neg (Ne.symm hplace)]
    rfl
  · rw [entryAt_eq_lookup _ hp, entryAt_eq_lookup _ hp, set, lookup_append,
      lookup_filter_ne]
    by_cases heq : p = place
    · simp [heq]
    · simp [heq, lookup_cons, beq_false_of_ne heq]

theorem ne_nil_of_free (hfree : t.entryAt place = none) : place ≠ [] := by
  rintro rfl
  cases hfree

theorem filter_of_free (hfree : t.entryAt place = none) :
    t.entries.filter (·.1 ≠ place) = t.entries := by
  rw [entryAt_eq_lookup t (ne_nil_of_free hfree), lookup_eq_none_iff] at hfree
  refine filter_eq_self.2 fun x hx => ?_
  exact decide_eq_true (Ne.symm (bne_iff_ne.1 (hfree x hx)))

theorem set_of_free (e : Entry) (hfree : t.entryAt place = none) :
    t.set place e = { t with entries := t.entries ++ [(place, e)] } := by
  rw [set, filter_of_free hfree]

theorem erase_set_of_free (e : Entry) (hfree : t.entryAt place = none) :
    (t.set place e).erase place = t := by
  rw [set_of_free e hfree, erase, filter_append, filter_of_free hfree]
  simp

theorem set_set (t : FileTree) (place : List String) (e e' : Entry) :
    (t.set place e).set place e' = t.set place e' := by
  simp [set, filter_append, filter_filter]

-- ===== extensions

/-- The directories of a file system are directories of another one, which is seen from the same
directory. -/
structure Extends (t t' : FileTree) : Prop where
  working : t'.working = t.working
  directory : ∀ place, t.entryAt place = some .directory → t'.entryAt place = some .directory

theorem Extends.follow (h : t.Extends t') {parts : List String} {r : List String}
    (hr : t.follow place parts = .ok r) : t'.follow place parts = .ok r := by
  induction parts generalizing place with
  | nil => exact hr
  | cons part parts ih =>
    rw [FileTree.follow] at hr ⊢
    -- the way leads through directories only
    have hentry : t.entryAt place = some .directory := by
      cases hentry : t.entryAt place with
      | none =>
        rw [hentry] at hr
        cases hr
      | some e =>
        cases e with
        | directory => rfl
        | file content =>
          rw [hentry] at hr
          cases hr
    rw [hentry] at hr
    rw [h.directory place hentry]
    dsimp only at hr ⊢
    by_cases hup : part = ".."
    · rw [if_pos hup] at hr ⊢
      exact ih hr
    · rw [if_neg hup] at hr ⊢
      by_cases hlong : maxName < part.utf8ByteSize
      · rw [if_pos hlong] at hr
        cases hr
      · rw [if_neg hlong] at hr ⊢
        exact ih hr

theorem Extends.placeOf (h : t.Extends t') {p : Path} (hp : t.placeOf p = .ok place) :
    t'.placeOf p = .ok place := by
  unfold FileTree.placeOf at hp ⊢
  by_cases hzero : p.hasZero = true
  · rw [if_pos hzero] at hp
    cases hp
  · rw [if_neg hzero] at hp ⊢
    by_cases hlong : maxPath < p.text.utf8ByteSize
    · rw [if_pos hlong] at hp
      cases hp
    · rw [if_neg hlong] at hp ⊢
      rw [h.working]
      exact h.follow hp

theorem find_eq_ok_iff {p : Path} :
    t.find p = .ok e ↔ ∃ place, t.placeOf p = .ok place ∧ t.entryAt place = some e := by
  unfold find
  cases hplace : t.placeOf p with
  | error err => simp [Bind.bind, Except.bind]
  | ok place =>
    dsimp only [Bind.bind, Except.bind]
    cases hentry : t.entryAt place with
    | none => simp [hentry]
    | some e' => simp [hentry]

theorem Extends.find_directory (h : t.Extends t') {p : Path} (hp : t.find p = .ok .directory) :
    t'.find p = .ok .directory := by
  obtain ⟨place, hplace, hentry⟩ := find_eq_ok_iff.1 hp
  exact find_eq_ok_iff.2 ⟨place, h.placeOf hplace, h.directory place hentry⟩

theorem extends_set (hentry : t.entryAt place ≠ some .directory) (e : Entry) :
    t.Extends (t.set place e) where
  working := rfl
  directory p hp := by
    have hplace : place ≠ [] := by
      rintro rfl
      exact hentry rfl
    have hne : p ≠ place := by
      rintro rfl
      exact hentry hp
    rw [entryAt_set t e hplace, if_neg hne, hp]

/-- The file systems differ in new directories only. -/
def Opens (t t' : FileTree) : Prop :=
  ∃ made : List (List String), (∀ place ∈ made, t.entryAt place = none)
    ∧ t' = { t with entries := t.entries ++ made.map (·, .directory) }

theorem Opens.refl (t : FileTree) : t.Opens t :=
  ⟨[], forall_mem_nil _, by simp⟩

theorem Opens.entryAt (h : t.Opens t') (place : List String) :
    t'.entryAt place = t.entryAt place
      ∨ t.entryAt place = none ∧ t'.entryAt place = some .directory := by
  obtain ⟨made, -, rfl⟩ := h
  by_cases hplace : place = []
  · exact .inl (by rw [hplace]; rfl)
  rw [entryAt_eq_lookup _ hplace, entryAt_eq_lookup _ hplace, lookup_append]
  cases t.entries.lookup place with
  | some e => exact .inl rfl
  | none =>
    rw [Option.none_or]
    induction made with
    | nil => exact .inl rfl
    | cons d made ih =>
      rw [map_cons, lookup_cons]
      cases place == d with
      | true => exact .inr ⟨rfl, rfl⟩
      | false => exact ih

theorem Opens.extends (h : t.Opens t') : t.Extends t' where
  working := by
    obtain ⟨made, -, rfl⟩ := h
    rfl
  directory place hplace := by
    rcases h.entryAt place with heq | ⟨hnone, -⟩
    · rw [heq, hplace]
    · rw [hnone] at hplace
      cases hplace

theorem Opens.trans (h : t.Opens t') (h' : t'.Opens t'') : t.Opens t'' := by
  have hback : ∀ place, t'.entryAt place = none → t.entryAt place = none := by
    intro place hnone
    rcases h.entryAt place with heq | ⟨hfree, -⟩
    · rw [← heq, hnone]
    · exact hfree
  obtain ⟨made, hmade, rfl⟩ := h
  obtain ⟨made', hmade', rfl⟩ := h'
  refine ⟨made ++ made', fun place hplace => ?_, ?_⟩
  · rcases mem_append.1 hplace with hplace | hplace
    · exact hmade place hplace
    · exact hback place (hmade' place hplace)
  · simp [append_assoc]

theorem opens_set (hfree : t.entryAt place = none) : t.Opens (t.set place .directory) := by
  refine ⟨[place], fun p hp => ?_, set_of_free _ hfree⟩
  rw [mem_singleton.1 hp, hfree]

-- ===== directories

theorem makeDirectory_eq_ok {p : Path} (h : t.makeDirectory p = .ok t') :
    ∃ place, t.placeOf p = .ok place ∧ t.entryAt place = none ∧ t' = t.set place .directory := by
  unfold makeDirectory at h
  cases hplace : t.placeOf p with
  | error e =>
    rw [hplace] at h
    cases h
  | ok place =>
    rw [hplace] at h
    dsimp only [Bind.bind, Except.bind] at h
    cases hentry : t.entryAt place with
    | some e =>
      rw [hentry] at h
      cases h
    | none =>
      rw [hentry] at h
      refine ⟨place, rfl, hentry, ?_⟩
      dsimp only at h
      split at h
      · exact (Except.ok.inj h).symm
      · cases h
      · cases h

theorem makeDirectory_of_directory {p : Path} (h : t.find p = .ok .directory) :
    t.makeDirectory p = .error .alreadyExists := by
  obtain ⟨place, hplace, hentry⟩ := find_eq_ok_iff.1 h
  unfold makeDirectory
  rw [hplace]
  dsimp only [Bind.bind, Except.bind]
  rw [hentry]

end FileTree

open FileTree

theorem ends_isKind (kind : EntryKind) (p : Path) (t : FileTree) (log : List LogLine) :
    ∃ answer, (isKind kind p : OnTree _).Ends t log answer t log
      ∧ (answer = .ok true ↔ (t.find p).map Entry.kind = .ok kind) := by
  cases hfind : t.find p with
  | error e =>
    refine ⟨if e.isAbsence then .ok false else .error ⟨e, p, none⟩, ?_, ?_⟩
    · have hkind : (MonadFiles.kind p : OnTree _).Ends t log (.error e) t log :=
        congrArg (fun r : Except FileError Entry => ((r.map Entry.kind, t), log)) hfind
      exact hkind.bind (OnTree.ends_pure ..)
    · cases e.isAbsence with
      | true => simp [Except.map]
      | false => simp [Except.map]
  | ok e =>
    refine ⟨.ok (decide (e.kind = kind)), ?_, ?_⟩
    · have hkind : (MonadFiles.kind p : OnTree _).Ends t log (.ok e.kind) t log :=
        congrArg (fun r : Except FileError Entry => ((r.map Entry.kind, t), log)) hfind
      exact hkind.bind (OnTree.ends_pure ..)
    · simp [Except.map]

section changeTree

variable (f : FileTree → Except FileError FileTree) {t t' : FileTree}

theorem ends_changeTree_ok (h : f t = .ok t') (log : List LogLine) :
    OnTree.Ends (changeTree f) t log (.ok ()) t' log := by
  refine .bind (x := get) (a := t) rfl ?_
  rw [h]
  rfl

theorem ends_changeTree_error {e : FileError} (h : f t = .error e) (log : List LogLine) :
    OnTree.Ends (changeTree f) t log (.error e) t log := by
  refine .bind (x := get) (a := t) rfl ?_
  rw [h]
  rfl

end changeTree

theorem eq_true_of_ensured {p : Path} {e : FileError} {there : Except FileFault Bool}
    (h : ensured p e there = .ok ()) : there = .ok true := by
  unfold ensured at h
  split at h
  · cases h
  · rfl
  · cases h

/-- To make a directory unless there is one opens it at most. -/
theorem ends_ensureDirectory (p : Path) (t : FileTree) (log : List LogLine) :
    ∃ answer t', (ensureDirectory p : OnTree _).Ends t log answer t' log ∧ t.Opens t'
      ∧ (answer = .ok () → t'.find p = .ok .directory) := by
  cases hmake : t.makeDirectory p with
  | ok t' =>
    obtain ⟨place, hplace, hfree, rfl⟩ := makeDirectory_eq_ok hmake
    have hopens := opens_set hfree
    refine ⟨.ok (), _,
      (ends_changeTree_ok (·.makeDirectory p) hmake log).bind (OnTree.ends_pure ..), hopens,
      fun _ => find_eq_ok_iff.2 ⟨place, hopens.extends.placeOf hplace, ?_⟩⟩
    rw [entryAt_set t _ (ne_nil_of_free hfree), if_pos rfl]
  | error e =>
    obtain ⟨answer, hkind, htrue⟩ := ends_isKind .directory p t log
    refine ⟨ensured p e answer, t, ?_, .refl t, fun hok => ?_⟩
    · exact (ends_changeTree_error (·.makeDirectory p) hmake log).bind
        (hkind.bind (OnTree.ends_pure ..))
    · have htrue := htrue.1 (eq_true_of_ensured hok)
      cases hfind : t.find p with
      | error e => simp [hfind, Except.map] at htrue
      | ok entry =>
        cases entry with
        | directory => rfl
        | file content => simp [hfind, Except.map, Entry.kind] at htrue

theorem ends_ensureDirectory_of_directory {p : Path} {t : FileTree}
    (h : t.find p = .ok .directory) (log : List LogLine) :
    (ensureDirectory p : OnTree _).Ends t log (.ok ()) t log := by
  obtain ⟨answer, hkind, htrue⟩ := ends_isKind .directory p t log
  have hanswer : answer = .ok true := htrue.2 (by rw [h]; rfl)
  rw [hanswer] at hkind
  exact (ends_changeTree_error (·.makeDirectory p) (makeDirectory_of_directory h) log).bind
    (hkind.bind (OnTree.ends_pure ..))

/-- To make a directory and those around it opens some at most. -/
theorem ends_ensureDirectories (depth : Nat) (p : Path) (t : FileTree) (log : List LogLine) :
    ∃ answer t', (ensureDirectories depth p : OnTree _).Ends t log answer t' log ∧ t.Opens t'
      ∧ (answer = .ok () → t'.find p = .ok .directory) := by
  induction depth generalizing p t with
  | zero => exact ends_ensureDirectory p t log
  | succ depth ih =>
    obtain ⟨answer, t', hends, hopens, hfound⟩ := ends_ensureDirectory p t log
    cases answer with
    | ok _ => exact ⟨.ok (), t', hends.bind (OnTree.ends_pure ..), hopens, hfound⟩
    | error f =>
      by_cases hstop : (f.error ≠ .notFound || p.parts.isEmpty) = true
      · refine ⟨.error f, t', hends.bind ?_, hopens, nofun⟩
        dsimp only
        rw [if_pos hstop]
        exact OnTree.ends_pure ..
      obtain ⟨around, t₁, haround, hopens₁, -⟩ := ih p.parent t'
      cases around with
      | error f =>
        refine ⟨.error f, t₁, hends.bind ?_, hopens.trans hopens₁, nofun⟩
        dsimp only
        rw [if_neg hstop]
        exact haround.bind (OnTree.ends_pure ..)
      | ok _ =>
        obtain ⟨answer, t₂, hlast, hopens₂, hfound₂⟩ := ends_ensureDirectory p t₁ log
        refine ⟨answer, t₂, hends.bind ?_, (hopens.trans hopens₁).trans hopens₂, hfound₂⟩
        dsimp only
        rw [if_neg hstop]
        exact haround.bind hlast

theorem ends_ensureDirectories_of_directory (depth : Nat) {p : Path} {t : FileTree}
    (h : t.find p = .ok .directory) (log : List LogLine) :
    (ensureDirectories depth p : OnTree _).Ends t log (.ok ()) t log := by
  have hfirst := ends_ensureDirectory_of_directory h log
  cases depth with
  | zero => exact hfirst
  | succ depth => exact hfirst.bind (OnTree.ends_pure ..)

-- ===== staged files

namespace Path

/-- The parts do not go up. -/
def Descends (p : Path) : Prop :=
  ∀ part ∈ p.parts, part ≠ ".."

theorem descends_collapse {p : Path} (h : p.isAbsolute = true) : p.collapse.Descends := by
  have hstep : ∀ (parts acc : List String), (∀ x ∈ acc, x ≠ "..") →
      ∀ x ∈ parts.foldl (collapsePart true) acc, x ≠ ".." := by
    intro parts
    induction parts with
    | nil => exact fun acc hacc => hacc
    | cons part parts ih =>
      intro acc hacc
      refine ih _ ?_
      unfold collapsePart
      by_cases hup : part = ".."
      · rw [if_neg (by simp [hup])]
        cases acc with
        | nil => exact forall_mem_nil _
        | cons last more =>
          obtain ⟨hlast, hmore⟩ := forall_mem_cons.1 hacc
          dsimp only
          rw [if_neg hlast]
          exact hmore
      · rw [if_pos hup]
        exact forall_mem_cons.2 ⟨hup, hacc⟩
  intro part hpart
  unfold collapse at hpart
  rw [h, mem_reverse] at hpart
  exact hstep _ _ (forall_mem_nil _) part hpart

theorem collapse_of_descends {p : Path} (h : p.Descends) : p.collapse = p := by
  have hfold : ∀ (parts acc : List String), (∀ x ∈ parts, x ≠ "..") →
      parts.foldl (collapsePart p.isAbsolute) acc = parts.reverse ++ acc := by
    intro parts
    induction parts with
    | nil => exact fun acc _ => rfl
    | cons part parts ih =>
      intro acc hparts
      obtain ⟨hpart, hparts⟩ := forall_mem_cons.1 hparts
      have hstep : collapsePart p.isAbsolute acc part = part :: acc := if_pos hpart
      rw [foldl_cons, ih _ hparts, hstep, reverse_cons, append_assoc,
        singleton_append]
  rw [collapse, hfold _ _ h, append_nil, reverse_reverse]

end Path

namespace FileTree

variable {t t' : FileTree} {place : List String}

theorem isAbsolute_fullPath (t : FileTree) (p : Path) : (t.fullPath p).isAbsolute = true := by
  show ((Path.join ⟨.slash, t.working⟩ p).isAbsolute) = true
  unfold Path.join
  by_cases hp : p.isAbsolute = true
  · rw [if_pos hp, hp]
  · rw [if_neg hp]
    rfl

theorem fullPath_of_descends {p : Path} (t : FileTree) (habsolute : p.isAbsolute = true)
    (hdescends : p.Descends) : t.fullPath p = p := by
  rw [fullPath, Path.absolute, Path.join, if_pos habsolute, Path.collapse_of_descends hdescends]

/-- A way that does not go up ends where its parts say. -/
theorem follow_of_descends {parts r : List String} (hparts : ∀ part ∈ parts, part ≠ "..")
    (hr : t.follow place parts = .ok r) : r = place ++ parts := by
  induction parts generalizing place with
  | nil =>
    cases hr
    rw [append_nil]
  | cons part parts ih =>
    obtain ⟨hpart, hparts⟩ := forall_mem_cons.1 hparts
    rw [follow] at hr
    split at hr
    · cases hr
    · cases hr
    · rw [if_neg hpart] at hr
      split at hr
      · cases hr
      · rw [ih hparts hr, append_assoc, singleton_append]

theorem placeOf_of_descends {p : Path} (habsolute : p.isAbsolute = true)
    (hdescends : p.Descends) (h : t.placeOf p = .ok place) : place = p.parts := by
  unfold placeOf at h
  split at h
  · cases h
  split at h
  · cases h
  exact follow_of_descends hdescends (by simpa [habsolute] using h)

theorem stagedPath_eq (directory : Path) (name : String) (number : Nat) :
    stagedPath directory name number
      = ⟨directory.root, directory.parts ++ ["." ++ name ++ "." ++ stagedMark number ++ ".tmp"]⟩ :=
  rfl

theorem length_stagedName (name : String) (number : Nat) :
    name.length + 6 ≤ ("." ++ name ++ "." ++ stagedMark number ++ ".tmp").length := by
  have hdot : ".".length = 1 := by decide
  have htmp : ".tmp".length = 4 := by decide
  simp only [String.length_append, hdot, htmp]
  omega

theorem descends_stagedPath {directory : Path} (h : directory.Descends) (name : String)
    (number : Nat) : (stagedPath directory name number).Descends := by
  intro part hpart
  rw [stagedPath_eq] at hpart
  rcases mem_append.1 hpart with hpart | hpart
  · exact h part hpart
  · rw [mem_singleton.1 hpart]
    intro heq
    have hlength := length_stagedName name number
    have hup : "..".length = 2 := by decide
    rw [heq, hup] at hlength
    omega

theorem freePath?_eq_some {directory path : Path} {name : String} {tries number : Nat}
    (h : t.freePath? directory name tries number = some path) :
    (∃ k, path = stagedPath directory name k) ∧ t.entryAt path.parts = none := by
  induction tries generalizing number with
  | zero => cases h
  | succ tries ih =>
    rw [freePath?] at h
    split at h
    next hfree =>
      cases h
      exact ⟨⟨number, rfl⟩, Option.isNone_iff_eq_none.1 hfree⟩
    · exact ih h

/-- The first free path is the same if something else is set. -/
theorem freePath?_set {directory path : Path} {name : String} {tries number : Nat} {e : Entry}
    (hplace : place ≠ []) (hne : ∀ k, (stagedPath directory name k).parts ≠ place)
    (h : t.freePath? directory name tries number = some path) :
    (t.set place e).freePath? directory name tries number = some path := by
  induction tries generalizing number with
  | zero => cases h
  | succ tries ih =>
    rw [freePath?] at h ⊢
    rw [entryAt_set t e hplace, if_neg (hne number)]
    split at h
    next hfree =>
      rw [if_pos hfree]
      exact h
    next htaken =>
      rw [if_neg htaken]
      exact ih h

/-- A staged file stands where there was nothing, at a path of its own. -/
structure Staged (t : FileTree) (directory : Path) (name : String) (path : Path) : Prop where
  absolute : path.isAbsolute = true
  descends : path.Descends
  free : t.entryAt path.parts = none
  named : ∃ k, path = stagedPath (t.fullPath directory) name k

theorem stage_eq_ok {directory path : Path} {name : String} {content : List UInt8}
    (h : t.stage directory name content = .ok (path, t')) :
    t.Staged directory name path ∧ t' = t.set path.parts (.file content) := by
  unfold stage at h
  dsimp only at h
  split at h
  · cases h
  split at h
  · cases h
  next path' hfree =>
    obtain ⟨rfl, rfl⟩ := Prod.mk.inj (Except.ok.inj h)
    obtain ⟨⟨k, hk⟩, hnone⟩ := freePath?_eq_some hfree
    have habsolute := t.isAbsolute_fullPath directory
    have hdescends : (t.fullPath directory).Descends :=
      Path.descends_collapse (t.isAbsolute_fullPath directory)
    refine ⟨⟨?_, ?_, hnone, ⟨k, hk⟩⟩, rfl⟩
    · rw [hk]
      exact habsolute
    · rw [hk]
      exact descends_stagedPath hdescends name k

/-- A stage goes the same way if something else is set. -/
theorem stage_set {directory path : Path} {name : String} {content : List UInt8} {e : Entry}
    (hplace : place ≠ []) (hne : ∀ k, (stagedPath (t.fullPath directory) name k).parts ≠ place)
    (h : t.stage directory name content = .ok (path, t')) :
    (t.set place e).stage directory name content
      = .ok (path, (t.set place e).set path.parts (.file content)) := by
  have hfull : (t.set place e).fullPath directory = t.fullPath directory := rfl
  unfold stage at h ⊢
  rw [hfull]
  dsimp only at h ⊢
  split at h
  · cases h
  next hshort =>
    rw [if_neg hshort]
    split at h
    · cases h
    next path' hfree =>
      obtain ⟨rfl, -⟩ := Prod.mk.inj (Except.ok.inj h)
      rw [freePath?_set hplace hne hfree]

theorem read_eq_ok_iff {p : Path} {content : List UInt8} :
    t.read p = .ok content ↔ t.find p = .ok (.file content) := by
  unfold read
  cases hfind : t.find p with
  | error e => simp [Bind.bind, Except.bind]
  | ok e =>
    cases e with
    | file c => simp [Bind.bind, Except.bind]
    | directory => simp [Bind.bind, Except.bind]

theorem move_eq_ok_iff {source target : Path} :
    t.move source target = .ok t' ↔ ∃ content src place,
      t.placeOf source = .ok src ∧ t.entryAt src = some (.file content)
      ∧ t.placeOf target = .ok place ∧ t.entryAt place ≠ some .directory
      ∧ t' = (t.erase src).set place (.file content) := by
  unfold move
  constructor
  · intro h
    cases hread : t.read source with
    | error e =>
      rw [hread] at h
      cases h
    | ok content =>
      obtain ⟨src, hsrc, hentry⟩ := find_eq_ok_iff.1 (read_eq_ok_iff.1 hread)
      cases htarget : t.placeOf target with
      | error e =>
        rw [hread, htarget] at h
        cases h
      | ok place =>
        rw [hread, htarget] at h
        dsimp only [Bind.bind, Except.bind] at h
        refine ⟨content, src, place, hsrc, hentry, rfl, ?_, ?_⟩
        · intro hdirectory
          rw [hdirectory] at h
          cases h
        · split at h
          · cases h
          · rw [hsrc] at h
            exact (Except.ok.inj h).symm
  · rintro ⟨content, src, place, hsrc, hentry, htarget, hnot, rfl⟩
    have hread : t.read source = .ok content :=
      read_eq_ok_iff.2 (find_eq_ok_iff.2 ⟨src, hsrc, hentry⟩)
    rw [hread, htarget]
    dsimp only [Bind.bind, Except.bind]
    split
    next hdirectory => exact absurd hdirectory hnot
    · rw [hsrc]

/-- The file at a place is put there as a whole. -/
structure Puts (t : FileTree) (path : Path) (bytes : List UInt8) (staged : Path)
    (place : List String) : Prop where
  stage : t.stage path.parent path.name bytes = .ok (staged, t.set staged.parts (.file bytes))
  move : (t.set staged.parts (.file bytes)).move staged path = .ok (t.set place (.file bytes))
  placeOf : t.placeOf path = .ok place
  vacant : t.entryAt place ≠ some .directory

theorem Extends.trans {t'' : FileTree} (h : t.Extends t') (h' : t'.Extends t'') : t.Extends t'' :=
  ⟨h'.working.trans h.working, fun place hplace => h'.directory place (h.directory place hplace)⟩

theorem Staged.extends {directory path : Path} {name : String} (h : t.Staged directory name path)
    (e : Entry) : t.Extends (t.set path.parts e) :=
  extends_set (by rw [h.free]; nofun) e

/-- The staged file is no directory, so to set it makes none. -/
theorem Staged.extends_back {directory path : Path} {name : String}
    (h : t.Staged directory name path) (bytes : List UInt8) :
    (t.set path.parts (.file bytes)).Extends t where
  working := rfl
  directory p hp := by
    rw [entryAt_set t _ (ne_nil_of_free h.free)] at hp
    split at hp
    · cases hp
    · exact hp

/-- What moves from where it was staged goes to its place, and nothing else changes. -/
theorem Staged.puts {path staged : Path} {bytes : List UInt8}
    (hstaged : t.Staged path.parent path.name staged)
    (hstage : t.stage path.parent path.name bytes = .ok (staged, t.set staged.parts (.file bytes)))
    (hmove : (t.set staged.parts (.file bytes)).move staged path = .ok t') :
    ∃ place, t.Puts path bytes staged place ∧ t' = t.set place (.file bytes) := by
  obtain ⟨content, src, place, hsrc, hentry, htarget, hnot, heq⟩ := move_eq_ok_iff.1 hmove
  have hplace := placeOf_of_descends hstaged.absolute hstaged.descends hsrc
  rw [hplace, entryAt_set t _ (ne_nil_of_free hstaged.free), if_pos rfl] at hentry
  cases hentry
  rw [hplace, erase_set_of_free _ hstaged.free] at heq
  refine ⟨place, ⟨hstage, heq ▸ hmove, (hstaged.extends_back bytes).placeOf htarget, ?_⟩, heq⟩
  exact fun hdirectory => hnot ((hstaged.extends _).directory place hdirectory)

/-- A way whose last part does not go up ends below where the others end. -/
theorem follow_concat {parts r : List String} {last : String} (hlast : last ≠ "..")
    (hr : t.follow place (parts ++ [last]) = .ok r) : ∃ q, r = q ++ [last] := by
  induction parts generalizing place with
  | nil => exact ⟨place, follow_of_descends (by simpa using hlast) hr⟩
  | cons part parts ih =>
    rw [cons_append, follow] at hr
    split at hr
    · cases hr
    · cases hr
    · split at hr
      · exact ih hr
      · split at hr
        · cases hr
        · exact ih hr

theorem placeOf_concat {p : Path} (hparts : p.parts ≠ []) (hname : p.name ≠ "..")
    (h : t.placeOf p = .ok place) : ∃ q, place = q ++ [p.name] := by
  have hsplit : p.parts = p.parts.dropLast ++ [p.name] := by
    rw [Path.name, getLastD_eq_getLast?, getLast?_eq_some_getLast hparts,
      Option.getD_some, dropLast_concat_getLast]
  unfold placeOf at h
  split at h
  · cases h
  split at h
  · cases h
  rw [hsplit] at h
  exact follow_concat hname h

/-- What was put in its place can be put there again. -/
theorem Puts.again {path staged : Path} {bytes : List UInt8} (h : t.Puts path bytes staged place)
    (hparts : path.parts ≠ []) (hname : path.name ≠ "..") :
    (t.set place (.file bytes)).Puts path bytes staged place := by
  obtain ⟨hstaged, -⟩ := stage_eq_ok h.stage
  have hplace : place ≠ [] := by
    rintro rfl
    exact h.vacant rfl
  -- the staged file has a longer name than the file that it becomes
  have hne : ∀ k, (stagedPath (t.fullPath path.parent) path.name k).parts ≠ place := by
    intro k heq
    obtain ⟨q, rfl⟩ := placeOf_concat hparts hname h.placeOf
    rw [stagedPath_eq] at heq
    have hlast := (append_inj' heq rfl).2
    have hlength := length_stagedName path.name k
    rw [singleton_inj.1 hlast] at hlength
    omega
  have hstagedPlace : staged.parts ≠ place := by
    obtain ⟨k, rfl⟩ := hstaged.named
    exact hne k
  have hfree : (t.set place (.file bytes)).entryAt staged.parts = none := by
    rw [entryAt_set t _ hplace, if_neg hstagedPlace, hstaged.free]
  have hextends : t.Extends (t.set place (.file bytes)) := extends_set h.vacant _
  have hextends' : (t.set place (.file bytes)).Extends
      ((t.set place (.file bytes)).set staged.parts (.file bytes)) :=
    extends_set (by rw [hfree]; nofun) _
  obtain ⟨content, src, -, hsrc, -⟩ := move_eq_ok_iff.1 h.move
  have hsrcPlace := placeOf_of_descends hstaged.absolute hstaged.descends hsrc
  rw [hsrcPlace] at hsrc
  have hvacant : (t.set place (.file bytes)).entryAt place = some (.file bytes) := by
    rw [entryAt_set t _ hplace, if_pos rfl]
  refine ⟨stage_set hplace hne h.stage, move_eq_ok_iff.2 ?_, hextends.placeOf h.placeOf, ?_⟩
  · refine ⟨bytes, staged.parts, place, ?_, ?_, ?_, ?_, ?_⟩
    · exact ((hstaged.extends_back bytes).trans (hextends.trans hextends')).placeOf hsrc
    · rw [entryAt_set _ _ (ne_nil_of_free hfree), if_pos rfl]
    · exact (hextends.trans hextends').placeOf h.placeOf
    · rw [entryAt_set _ _ (ne_nil_of_free hfree), if_neg (Ne.symm hstagedPlace), hvacant]
      nofun
    · rw [erase_set_of_free _ hfree]
  · rw [hvacant]
    nofun

end FileTree

-- ===== files

theorem ends_stage_ok {directory path : Path} {name : String} {content : List UInt8}
    {t t' : FileTree} (h : t.stage directory name content = .ok (path, t')) (log : List LogLine) :
    (MonadFiles.stage directory name content : OnTree _).Ends t log (.ok path) t' log := by
  refine .bind (x := get) (a := t) rfl ?_
  rw [h]
  rfl

theorem ends_stage_error {directory : Path} {name : String} {content : List UInt8} {t : FileTree}
    {f : FileFault} (h : t.stage directory name content = .error f) (log : List LogLine) :
    (MonadFiles.stage directory name content : OnTree _).Ends t log (.error f) t log := by
  refine .bind (x := get) (a := t) rfl ?_
  rw [h]
  rfl

theorem FileTree.Puts.ends {t : FileTree} {path staged : Path} {bytes : List UInt8}
    {place : List String} (h : t.Puts path bytes staged place) (log : List LogLine) :
    (placeFile path bytes : OnTree _).Ends t log (.ok ()) (t.set place (.file bytes)) log :=
  (ends_stage_ok h.stage log).bind
    ((ends_changeTree_ok (·.move staged path) h.move log).bind (OnTree.ends_pure ..))

/-- A file is put in its place as a whole, or the file system is as it was. -/
theorem placeFile_cases (path : Path) (bytes : List UInt8) (t : FileTree) (log : List LogLine) :
    (∃ staged place, t.Puts path bytes staged place)
      ∨ ∃ f, (placeFile path bytes : OnTree _).Ends t log (.error f) t log := by
  cases hstage : t.stage path.parent path.name bytes with
  | error f => exact .inr ⟨f, (ends_stage_error hstage log).bind (OnTree.ends_pure ..)⟩
  | ok r =>
    obtain ⟨staged, t'⟩ := r
    obtain ⟨hstaged, rfl⟩ := stage_eq_ok hstage
    cases hmove : (t.set staged.parts (.file bytes)).move staged path with
    | ok t' =>
      obtain ⟨place, hputs, -⟩ := hstaged.puts hstage hmove
      exact .inl ⟨staged, place, hputs⟩
    | error e =>
      -- the staged file is taken away again
      have hremove : (MonadFiles.remove staged : OnTree _).Ends
          (t.set staged.parts (.file bytes)) log () t log := by
        show ((((), (t.set staged.parts (.file bytes)).erase
          ((t.set staged.parts (.file bytes)).fullPath staged).parts), log)
            : (Unit × FileTree) × List LogLine) = _
        rw [fullPath_of_descends _ hstaged.absolute hstaged.descends,
          erase_set_of_free _ hstaged.free]
      refine .inr ⟨⟨e, staged, some path⟩, ?_⟩
      exact (ends_stage_ok hstage log).bind ((ends_changeTree_error _ hmove log).bind
        (hremove.bind (OnTree.ends_pure ..)))

theorem ends_log (c : Context) (level : LogLevel) (message : String) (t : FileTree)
    (log : List LogLine) :
    (c.log level message : OnTree _).Ends t log () t ((c.admit? level message).toList ++ log) := by
  unfold Context.log
  cases c.admit? level message with
  | none => rfl
  | some line => rfl

-- ===== texts

/-- The file system after a text was written: with new directories around it, and the text in its
place. -/
structure FileTree.Writes (t : FileTree) (path : Path) (text : String) (place : List String)
    (t' : FileTree) : Prop where
  exists_between : ∃ t₁ staged, t.Opens t₁ ∧ t₁.find path.parent = .ok .directory
    ∧ t₁.Puts path (Text.encodeUtf8 text) staged place
    ∧ t' = t₁.set place (.file (Text.encodeUtf8 text))

/-- The line that is logged for a text that was written. -/
def wroteLines (c : Context) (path : Path) (text : String) : List LogLine :=
  (c.admit? .info s!"Wrote {(Text.encodeUtf8 text).length} byte(s) to {path.text}").toList

/-- A text is written as a whole, or directories are all that is new. -/
theorem writeText_cases (c : Context) (path : Path) (text : String) (t : FileTree)
    (log : List LogLine) :
    (∃ place t', t.Writes path text place t' ∧ (writeText c path text : OnTree _).Ends t log
        (.ok path) t' (wroteLines c path text ++ log))
      ∨ ∃ e t', t.Opens t' ∧ (writeText c path text : OnTree _).Ends t log (.error e) t' log := by
  obtain ⟨answer, t₁, hensure, hopens, hfound⟩ :=
    ends_ensureDirectories path.parts.length path.parent t log
  cases answer with
  | error f => exact .inr ⟨.ofFault path f, t₁, hopens, hensure.bind (OnTree.ends_pure ..)⟩
  | ok _ =>
    rcases placeFile_cases path (Text.encodeUtf8 text) t₁ log with
      ⟨staged, place, hputs⟩ | ⟨f, hend⟩
    · refine .inl ⟨place, _, ⟨t₁, staged, hopens, hfound rfl, hputs, rfl⟩, ?_⟩
      exact hensure.bind ((hputs.ends log).bind
        ((ends_log c .info _ _ _).bind (OnTree.ends_pure ..)))
    · exact .inr ⟨.ofFault path f, t₁, hopens, hensure.bind (hend.bind (OnTree.ends_pure ..))⟩

namespace FileTree.Writes

variable {t t' : FileTree} {path : Path} {text : String} {place : List String}

theorem placeOf (h : t.Writes path text place t') : t'.placeOf path = .ok place := by
  obtain ⟨t₁, staged, -, -, hputs, rfl⟩ := h.exists_between
  exact (extends_set hputs.vacant _).placeOf hputs.placeOf

theorem ne_nil (h : t.Writes path text place t') : place ≠ [] := by
  obtain ⟨t₁, staged, -, -, hputs, -⟩ := h.exists_between
  rintro rfl
  exact hputs.vacant rfl

theorem entryAt_place (h : t.Writes path text place t') :
    t'.entryAt place = some (.file (Text.encodeUtf8 text)) := by
  have hplace := h.ne_nil
  obtain ⟨t₁, staged, -, -, -, rfl⟩ := h.exists_between
  rw [entryAt_set _ _ hplace, if_pos rfl]

/-- Elsewhere there is what there was, or a new directory. -/
theorem entryAt_other (h : t.Writes path text place t') {p : List String} (hp : p ≠ place) :
    t'.entryAt p = t.entryAt p ∨ t.entryAt p = none ∧ t'.entryAt p = some .directory := by
  have hplace := h.ne_nil
  obtain ⟨t₁, staged, hopens, -, -, rfl⟩ := h.exists_between
  rw [entryAt_set _ _ hplace, if_neg hp]
  exact hopens.entryAt p

/-- A text that was written can be written again, and then nothing changes. -/
theorem again (h : t.Writes path text place t') (hparts : path.parts ≠ [])
    (hname : path.name ≠ "..") (c : Context) (log : List LogLine) :
    (writeText c path text : OnTree _).Ends t' log (.ok path) t'
      (wroteLines c path text ++ log) := by
  obtain ⟨t₁, staged, -, hfound, hputs, rfl⟩ := h.exists_between
  have hagain := (hputs.again hparts hname).ends log
  rw [set_set] at hagain
  have hfound := (extends_set hputs.vacant (.file (Text.encodeUtf8 text))).find_directory hfound
  exact (ends_ensureDirectories_of_directory path.parts.length hfound log).bind
    (hagain.bind ((ends_log c .info _ _ _).bind (OnTree.ends_pure ..)))

end FileTree.Writes

end SourceBundle

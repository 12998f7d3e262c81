/-
What dropping repetitions keeps: only elements that were there, one for
each key that was there, and no key twice.
-/
import SourceBundle.Text.Distinct
import Mathlib.Data.List.Nodup

namespace SourceBundle.Text

open List

variable {α β : Type} [BEq β] [LawfulBEq β] {f : α → β}

-- ===== seen before

theorem mem_of_mem_distinctFrom {seen : List β} {as : List α} {a : α}
    (ha : a ∈ distinctFrom f seen as) : a ∈ as ∧ f a ∉ seen := by
  induction as generalizing seen with
  | nil => cases ha
  | cons b as ih =>
    rw [distinctFrom] at ha
    split at ha
    · obtain ⟨hmem, hnew⟩ := ih ha
      exact ⟨mem_cons_of_mem b hmem, hnew⟩
    · next hb =>
      rcases mem_cons.1 ha with rfl | ha
      · exact ⟨mem_cons_self, fun h => hb (contains_iff_mem.2 h)⟩
      · obtain ⟨hmem, hnew⟩ := ih ha
        exact ⟨mem_cons_of_mem b hmem, fun h => hnew (mem_cons_of_mem _ h)⟩

theorem exists_mem_distinctFrom {seen : List β} {as : List α} {a : α} (ha : a ∈ as)
    (hnew : f a ∉ seen) : ∃ b ∈ distinctFrom f seen as, f b = f a := by
  induction as generalizing seen with
  | nil => cases ha
  | cons b as ih =>
    rw [distinctFrom]
    split
    · next hb =>
      rcases mem_cons.1 ha with rfl | ha
      · exact absurd (contains_iff_mem.1 hb) hnew
      · exact ih ha hnew
    · by_cases hab : f b = f a
      · exact ⟨b, mem_cons_self, hab⟩
      · have hne : a ≠ b := fun h => hab (by rw [h])
        have hnew' : f a ∉ f b :: seen := by
          intro h
          rcases mem_cons.1 h with h | h
          · exact hab h.symm
          · exact hnew h
        obtain ⟨d, hd, hkey⟩ := ih ((mem_cons.1 ha).resolve_left hne) hnew'
        exact ⟨d, mem_cons_of_mem b hd, hkey⟩

/-- What is kept is the first of its key. -/
theorem find?_of_mem_distinctFrom {seen : List β} {as : List α} {a : α}
    (ha : a ∈ distinctFrom f seen as) :
    as.find? (f · == f a) = some a := by
  have hnew := (mem_of_mem_distinctFrom ha).2
  induction as generalizing seen with
  | nil => cases ha
  | cons b as ih =>
    rw [distinctFrom] at ha
    split at ha
    · next hb =>
      have hne : f b ≠ f a := fun h => hnew (h ▸ contains_iff_mem.1 hb)
      rw [find?_cons_of_neg (by simpa using hne)]
      exact ih ha hnew
    · rcases mem_cons.1 ha with rfl | ha
      · exact find?_cons_of_pos (beq_self_eq_true _)
      · have hnew' := (mem_of_mem_distinctFrom ha).2
        have hne : f b ≠ f a := fun h => hnew' (h ▸ mem_cons_self)
        rw [find?_cons_of_neg (by simpa using hne)]
        exact ih ha hnew'

theorem nodup_map_distinctFrom (seen : List β) (as : List α) :
    ((distinctFrom f seen as).map f).Nodup := by
  induction as generalizing seen with
  | nil => exact nodup_nil
  | cons a as ih =>
    rw [distinctFrom]
    split
    · exact ih seen
    · rw [map_cons, nodup_cons]
      refine ⟨fun h => ?_, ih _⟩
      obtain ⟨b, hb, hkey⟩ := mem_map.1 h
      exact (mem_of_mem_distinctFrom hb).2 (hkey ▸ mem_cons_self)

-- ===== one per key

theorem mem_of_mem_distinctBy {as : List α} {a : α} (ha : a ∈ distinctBy f as) : a ∈ as :=
  (mem_of_mem_distinctFrom ha).1

theorem exists_mem_distinctBy {as : List α} {a : α} (ha : a ∈ as) :
    ∃ b ∈ distinctBy f as, f b = f a :=
  exists_mem_distinctFrom ha (not_mem_nil)

omit [LawfulBEq β] in
theorem map_distinctFrom (seen : List β) (as : List α) :
    (distinctFrom f seen as).map f = distinctFrom id seen (as.map f) := by
  induction as generalizing seen with
  | nil => rfl
  | cons a as ih =>
    rw [map_cons, distinctFrom, distinctFrom, id_eq]
    split
    · exact ih seen
    · exact congrArg (f a :: ·) (ih _)

omit [LawfulBEq β] in
/-- The keys of the elements that stay are the keys, each once. -/
theorem map_distinctBy (as : List α) : (distinctBy f as).map f = distinct (as.map f) :=
  map_distinctFrom [] as

omit [LawfulBEq β] in
theorem distinctFrom_map {g : α → α} (hg : ∀ a, f (g a) = f a) (seen : List β) (as : List α) :
    distinctFrom f seen (as.map g) = (distinctFrom f seen as).map g := by
  induction as generalizing seen with
  | nil => rfl
  | cons a as ih =>
    rw [map_cons, distinctFrom, distinctFrom, hg]
    split
    · exact ih seen
    · exact congrArg (g a :: ·) (ih _)

omit [LawfulBEq β] in
/-- Which elements stay is a matter of their keys. -/
theorem distinctBy_map {g : α → α} (hg : ∀ a, f (g a) = f a) (as : List α) :
    distinctBy f (as.map g) = (distinctBy f as).map g :=
  distinctFrom_map hg [] as

theorem nodup_map_distinctBy (as : List α) : ((distinctBy f as).map f).Nodup :=
  nodup_map_distinctFrom [] as

theorem nodup_distinct (as : List β) : (distinct as).Nodup := by
  have hnodup : ((distinctBy id as).map id).Nodup := nodup_map_distinctBy as
  rwa [map_id] at hnodup

/-- Dropping repetitions drops no element. -/
theorem mem_distinct_iff {as : List β} {a : β} : a ∈ distinct as ↔ a ∈ as := by
  constructor
  · exact mem_of_mem_distinctBy
  · intro ha
    obtain ⟨b, hb, hba⟩ := exists_mem_distinctBy (f := id) ha
    rw [← show b = a from hba]
    exact hb

end SourceBundle.Text

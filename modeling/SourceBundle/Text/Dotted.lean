/-
Dotted names: the name before the last dot and the one after it, and
names without a dot.
-/

namespace SourceBundle.Text

/-- A name cut at its last dot; without a dot the first part is empty. -/
def splitLast (name : String) : String × String :=
  let backwards := name.toList.reverse
  (.ofList ((backwards.dropWhile (· ≠ '.')).drop 1).reverse,
    .ofList (backwards.takeWhile (· ≠ '.')).reverse)

/-- A name behind another, or alone if that is empty. -/
def dotted (outer name : String) : String :=
  if outer.isEmpty then name else outer ++ "." ++ name

/-- A name that has no dot. -/
def Dotless (name : String) : Prop :=
  '.' ∉ name.toList

instance (name : String) : Decidable (Dotless name) :=
  inferInstanceAs (Decidable ('.' ∉ name.toList))

theorem dotless_ofList {cs : List Char} (hcs : '.' ∉ cs) : Dotless (.ofList cs) := by
  rw [Dotless, String.toList_ofList]
  exact hcs

theorem dotless_splitLast (name : String) : Dotless (splitLast name).2 := by
  refine dotless_ofList fun hdot => ?_
  have hne := List.all_eq_true.1 List.all_takeWhile _ (List.mem_reverse.1 hdot)
  exact of_decide_eq_true hne rfl

theorem dotted_of_isEmpty {outer : String} (houter : outer.isEmpty = true) (name : String) :
    dotted outer name = name :=
  if_pos houter

theorem not_dotless_dotted {outer : String} (houter : outer.isEmpty = false) (name : String) :
    ¬Dotless (dotted outer name) := by
  simp [Dotless, dotted, houter, String.toList_append]

/-- A name without a dot is what is cut off the end of a dotted name. -/
theorem splitLast_dotted {outer name : String} (houter : outer.isEmpty = false)
    (hname : Dotless name) : splitLast (dotted outer name) = (outer, name) := by
  have hbackwards : (dotted outer name).toList.reverse
      = name.toList.reverse ++ '.' :: outer.toList.reverse := by
    simp [dotted, houter, String.toList_append]
  have hpass : ∀ c ∈ name.toList.reverse, decide (c ≠ '.') = true := by
    intro c hc
    exact decide_eq_true fun hdot => hname (hdot ▸ List.mem_reverse.1 hc)
  unfold splitLast
  simp only
  rw [hbackwards, List.takeWhile_append_of_pos hpass, List.dropWhile_append_of_pos hpass]
  simp [String.ofList_toList]

/-- A dotted name tells its two parts. -/
theorem dotted_inj {outer outer' name name' : String} (hname : Dotless name)
    (hname' : Dotless name') (h : dotted outer name = dotted outer' name') :
    outer = outer' ∧ name = name' := by
  cases houter : outer.isEmpty <;> cases houter' : outer'.isEmpty
  · have hsplit := splitLast_dotted houter hname
    rw [h, splitLast_dotted houter' hname'] at hsplit
    exact ⟨congrArg Prod.fst hsplit.symm, congrArg Prod.snd hsplit.symm⟩
  · rw [dotted_of_isEmpty houter'] at h
    exact absurd (h ▸ hname') (not_dotless_dotted houter name)
  · rw [dotted_of_isEmpty houter] at h
    exact absurd (h ▸ hname) (not_dotless_dotted houter' name')
  · rw [dotted_of_isEmpty houter, dotted_of_isEmpty houter'] at h
    rw [String.isEmpty_iff] at houter houter'
    exact ⟨houter.trans houter'.symm, h⟩

end SourceBundle.Text

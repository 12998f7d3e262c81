/-
The words that tokens hold. An identifier is a name, whether it is
written with a mark in front or not, and the token of a predefined type
is the word for one (`tokensOf_worded`). Both come from the one place
where a lexeme is read from where a name starts.
-/
import SourceBundle.Proofs.Token.Spelling

namespace SourceBundle

open List Text

variable {c : Char} {cs : List Char} {l : Lexeme} {p : Pos} {fresh : Bool} {t : Token}
  {ts : List Token} {n : Nat} {x : String}

-- ===== kinds

/-- A word is of a kind of its own, the name of a predefined type, a keyword, or no reserved
word. -/
def wordKinds : List Kind :=
  branchWords.map (·.2) ++ [.predefinedType, .keyword, .ident]

theorem Kind.ofWord_mem (x : String) : Kind.ofWord x ∈ wordKinds := by
  rw [Kind.ofWord, wordKinds, mem_append]
  split
  next k hk =>
    obtain ⟨l, r, hl, -⟩ := lookup_eq_some_iff.1 hk
    rw [hl]
    simp
  next => split <;> [skip; split] <;> simp

theorem eq_new_of_ofWord (h : Kind.ofWord x = .newKw) : x = "new" := by
  rw [Kind.ofWord] at h
  split at h
  next k hk =>
    subst h
    have hall : ∀ r ∈ branchWords, r.2 = .newKw → r.1 = "new" := by decide
    obtain ⟨l, r, hl, -⟩ := lookup_eq_some_iff.1 hk
    exact hall (x, .newKw) (by rw [hl]; simp) rfl
  next => split at h <;> [skip; split at h] <;> cases h

theorem mem_predefinedTypes_of_ofWord (h : Kind.ofWord x = .predefinedType) :
    x ∈ predefinedTypes := by
  rw [Kind.ofWord] at h
  split at h
  next k hk =>
    subst h
    have hall : ∀ r ∈ branchWords, r.2 ≠ .predefinedType := by decide
    obtain ⟨l, r, hl, -⟩ := lookup_eq_some_iff.1 hk
    exact absurd rfl (hall (x, .predefinedType) (by rw [hl]; simp))
  next =>
    split at h
    next hmem => exact contains_iff_mem.1 hmem
    next => split at h <;> cases h

-- ===== names

theorem isName_take (hc : isNameStart c = true) :
    IsName ((c :: cs).take (nameLength (c :: cs))) := by
  have htake : (c :: cs).take (nameLength (c :: cs)) = c :: cs.takeWhile isNamePart := by
    rw [nameLength, Nat.add_comm, take_succ_cons, drop_one, tail_cons]
    exact congrArg (c :: ·) (prefix_iff_eq_take.1 (List.takeWhile_prefix _)).symm
  rw [htake]
  exact ⟨hc, fun d hd => all_eq_true.1 all_takeWhile d hd⟩

-- ===== tokens

/-- The characters of a word make a name. -/
def IsWord (x : String) : Prop :=
  IsName x.toList

/-- An identifier is a word with a property, and a predefined type one of those there are. -/
structure Token.Worded (word : String → Prop) (t : Token) : Prop where
  name : t.kind = .ident → word t.text
  predefined : t.kind = .predefinedType → t.text ∈ predefinedTypes

theorem tokenOf_worded (h : tokenOf p cs = .ok (t, n)) : t.Worded IsWord := by
  obtain ⟨l, hl, hn, -, hkind, htext, -⟩ := tokenAt_eq_ok h
  constructor
  · intro hident
    rw [htext, IsWord, String.toList_ofList]
    rw [hident] at hkind
    rcases lexeme_word hl (.inl hkind.symm) with ⟨c, rest, rfl, hstart, rfl⟩
      | ⟨d, rest, rfl, hstart, rfl⟩
    · cases hn
      exact isName_take hstart
    · cases hn
      rw [Lexeme.hidden, Nat.add_comm, take_succ_cons, drop_one, tail_cons]
      exact isName_take hstart
  · intro hpredefined
    rw [hpredefined] at hkind
    rcases lexeme_word hl (.inr hkind.symm) with ⟨c, rest, rfl, -, rfl⟩ | ⟨d, rest, rfl, -, rfl⟩
    · cases hn
      rw [htext]
      exact mem_predefinedTypes_of_ofWord hkind.symm
    · cases hkind

/-- The tokens of a text hold words. -/
theorem tokensOf_worded (h : tokensOf p fresh cs = .ok ts) : ∀ t ∈ ts, t.Worded IsWord := by
  induction hlength : cs.length using Nat.strongRecOn generalizing p fresh cs ts with
  | ind m ih =>
  subst hlength
  rcases tokensOf_eq_ok h with ⟨gap, -, -, rfl⟩ | ⟨gap, t, n, rest, -, hcs, htoken, hrest, rfl⟩
  · intro t ht
    rw [mem_singleton.1 ht]
    exact ⟨nofun, nofun⟩
  · have hle := tokenAt_le hcs htoken
    rw [length_drop] at hle
    intro x hx
    rcases mem_cons.1 hx with rfl | hx
    · exact tokenOf_worded htoken
    · refine ih _ ?_ hrest rfl x hx
      rw [length_drop]
      omega

end SourceBundle

/-
Parsing comes to an end on whatever the lexer accepts: at the end token
with a source file, or at a token with a code of the grammar
(`sourceFile_total`). Two faults of the grammar are never met. The end of
the file is read where nothing else is left, and a using directive is
read only where its word was seen; nor is a literal read from a token
that stands for none.

The loops of the parser are those of items, members, declarations and
statements. Each round takes a token, so that what is left to read is
the measure they end by.
-/
import SourceBundle.Proofs.Parse.Files
import SourceBundle.Proofs.Token.Tokens

namespace SourceBundle

open Parse

variable {source : List Char} {s u : ParseState} {tokens : List Token} {n : Nat}

-- ===== codes

/-- What a parse can stop at has a code, and not that of the end of a file or the word `using`. -/
theorem ParseFault.code_of_isPossible {fault : ParseFault} (h : fault.isPossible = true) :
    ∃ code, fault.code = some code ∧ code ≠ "PAR-0001" ∧ code ≠ "PAR-0010" := by
  cases fault with
  | expected what =>
    refine ⟨what.code, rfl, ?_⟩
    revert h
    cases what <;> decide
  | openDelegate => exact ⟨_, rfl, by decide⟩
  | unbalanced => exact ⟨_, rfl, by decide⟩
  | strayCloser => exact ⟨_, rfl, by decide⟩
  | noLiteral => cases h

-- ===== ends

/-- Nothing but the end is left where the end is seen. -/
theorem ParseState.Closed.rest_of_eof (hs : s.Closed) (h : (s.ahead 0).kind = .eof) :
    s.rest = [s.eof] ∧ s.eof.kind = .eof := by
  obtain ⟨x, l, hx⟩ := hs.cons
  rw [ParseState.ahead_zero hx] at h
  have hrest := hs.rest
  rw [hx, Token.closed_cons_eof h] at hrest
  have heof := hs.eof
  rw [hx, hrest] at heof ⊢
  cases Option.some.inj heof
  exact ⟨rfl, h⟩

/-- Reading a file takes every token before the end, or stops at what a parse can stop at. -/
theorem sourceFile_goes (source : List Char) (hs : s.Closed) :
    (∃ file u, sourceFile source s = .ok (file, u) ∧ Goes 0 s (.ok (file, u)) ∧ u.rest = [u.eof]
        ∧ u.eof.kind = .eof)
    ∨ ∃ e, sourceFile source s = .error e ∧ e.fault.isPossible = true := by
  have hbound := s.weight_add_two_le_bound
  have hgo := ((namespacesSim (Pairing.same_texts source) s.bound).body false true).goes hs
    trivial hbound
  cases hrun : namespaceBodyWithin source s.bound false true s with
  | ok x =>
    obtain ⟨body, u⟩ := x
    rw [hrun] at hgo
    have hend := namespaceBodyWithin_atEnd hs hbound hrun
    obtain ⟨file, hfile, -⟩ := sourceFile_ok hrun hend
    exact .inl ⟨file, u, hfile, hgo, (hgo.closed hs).rest_of_eof hend⟩
  | error e =>
    rw [hrun] at hgo
    refine .inr ⟨e, ?_, hgo⟩
    unfold sourceFile
    rw [bind_ok (p := here) rfl, bind_ok (p := get) rfl, bind_error hrun]

/-- Where only the end is left, the tokens before it have been taken. -/
theorem Goes.taken {α : Type} {a : α} {j : Nat} (hgo : Goes j (.ofTokens tokens n) (.ok (a, u)))
    (hu : u.rest = [u.eof]) : tokens = tokens.dropLast ++ [u.eof]
      ∧ u.last = tokens.dropLast.getLast? := by
  obtain ⟨k, -, hk, hrest, hlast, -⟩ := hgo
  have hk : k < tokens.length := hk
  rw [ParseState.rest_drop, hu] at hrest
  have hrest : [u.eof] = tokens.drop k := hrest
  have hlength : tokens.length = k + 1 := by
    have := congrArg List.length hrest
    rw [List.length_drop, List.length_singleton] at this
    omega
  have htake : tokens.dropLast = tokens.take k := by
    rw [List.dropLast_eq_take, hlength, Nat.add_sub_cancel]
  refine ⟨?_, ?_⟩
  · rw [htake, hrest, List.take_append_drop]
  · rw [hlast, htake]
    cases k with
    | zero => rfl
    | succ k =>
      rw [ParseState.last_drop_succ _ (Nat.lt_of_succ_lt hk), List.getLast?_take,
        if_neg (Nat.succ_ne_zero k), Nat.add_sub_cancel,
        List.getElem?_eq_getElem (Nat.lt_of_succ_lt hk)]
      rfl

-- ===== the parse

/-- Whatever the lexer accepts is parsed to the end or stops with a code of the grammar that is
neither that of the end of a file nor that of the word `using`; and each round of a loop of the
parser, at whatever tokens with their end, takes a token or stops with such a code. -/
theorem sourceFile_total (htokens : tokenizeChars source = .ok tokens) (first : Nat) :
    ((∃ file u taken, sourceFile (stripMark source) (.ofTokens tokens first) = .ok (file, u)
        ∧ tokens = taken ++ [u.eof] ∧ u.eof.kind = .eof ∧ u.rest = [u.eof]
        ∧ u.last = taken.getLast?)
      ∨ ∃ e code, sourceFile (stripMark source) (.ofTokens tokens first) = .error e
        ∧ e.fault.code = some code ∧ code ≠ "PAR-0001" ∧ code ≠ "PAR-0010")
    ∧ (ParseState.ofTokens tokens first).Closed
    ∧ ∀ s : ParseState, s.Closed →
      (∀ bound, 16 * s.weight + 2 ≤ bound → (s.ahead 0).kind ≠ .eof → Goes 1 s (itemWithin bound s))
      ∧ (∀ typeName, Goes 1 s (member typeName s))
      ∧ (∀ bound, 16 * s.weight + 1 ≤ bound →
        Goes 1 s (typeDeclarationWithin (stripMark source) bound s))
      ∧ ((s.ahead 0).kind ≠ .eof → startsTypeDeclaration s.rest = false →
        Goes 1 s (skipStatement s)) := by
  rw [tokenizeChars_eq] at htokens
  have hclosed : (ParseState.ofTokens tokens first).Closed :=
    closed_ofTokens (s := .ofTokens tokens first) (tokensOf_closed htokens)
  refine ⟨?_, hclosed, fun s hs => ⟨?_, ?_, ?_, ?_⟩⟩
  · rcases sourceFile_goes (stripMark source) hclosed with
      ⟨file, u, hrun, hgo, hrest, heof⟩ | ⟨e, hrun, hpossible⟩
    · obtain ⟨htaken, hlast⟩ := hgo.taken hrest
      exact .inl ⟨file, u, _, hrun, htaken, heof, hrest, hlast⟩
    · obtain ⟨code, hcode⟩ := ParseFault.code_of_isPossible hpossible
      exact .inr ⟨e, code, hrun, hcode⟩
  · intro bound hbound heof
    exact (bodySim .same bound).item.goes hs heof hbound
  · intro typeName
    exact (sim_member (M := .same) (k := 0)).goes hs (fun _ _ => Nat.zero_le _) (Nat.le_refl _)
  · intro bound hbound
    exact ((declarationSim (Pairing.same_texts _) bound).declaration 0).goes hs
      (fun _ _ => Nat.zero_le _) hbound
  · intro heof hstarts
    exact (sim_skipStatement (M := .same)).goes hs ⟨heof, hstarts⟩ (Nat.le_refl _)

/-- An expression body with a hole in it and no semicolon after it. -/
theorem sourceFile_total_unfinished : ∃ tokens,
    tokenizeChars "class A \x7b int F() => $\"\x7bG<int>(1)\x7d\" \x7d".toList = .ok tokens
    ∧ ((∃ file u taken, sourceFile "class A \x7b int F() => $\"\x7bG<int>(1)\x7d\" \x7d".toList
          (.ofTokens tokens) = .ok (file, u)
        ∧ tokens = taken ++ [u.eof] ∧ u.eof.kind = .eof ∧ u.rest = [u.eof]
        ∧ u.last = taken.getLast?)
      ∨ ∃ e code, sourceFile "class A \x7b int F() => $\"\x7bG<int>(1)\x7d\" \x7d".toList
          (.ofTokens tokens) = .error e
        ∧ e.fault.code = some code ∧ code ≠ "PAR-0001" ∧ code ≠ "PAR-0010") := by
  have htokens : tokenizeChars "class A \x7b int F() => $\"\x7bG<int>(1)\x7d\" \x7d".toList
      = .ok _ := rfl
  exact ⟨_, htokens, (sourceFile_total htokens 0).1⟩

end SourceBundle

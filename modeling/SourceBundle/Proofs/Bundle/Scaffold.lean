/-
The program of the scaffold is read as a class `Program`, whatever word
the name of the root is but `new`. Among the words, those that start a
chain are read with the call after them, and those that do not are
passed over; only `new` asks for a type, which a dot is not. What does
not depend on the word is evaluated (`Consumes`).
-/
import Mathlib
import SourceBundle.Bundle.Render
import SourceBundle.Proofs.Parse.Entries

namespace SourceBundle

open List Parse Text

variable {u : List Sign} {e g : Sign} {n : Nat} {x : String}

-- ===== evaluation

/-- The signs of a call without arguments, from the dot on. -/
def callSigns : List Sign :=
  [(.dot, "."), (.ident, "Solve"), (.lparen, "("), (.rparen, ")")]

/-- The signs from the end of the call on. -/
def printSigns : List Sign :=
  [(.semi, ";"), (.ident, "Console"), (.dot, "."), (.ident, "WriteLine"), (.lparen, "("),
   (.ident, "result"), (.rparen, ")"), (.semi, ";")]

/-- The signs of a block around others. -/
def blockSigns (v : List Sign) : List Sign :=
  (.lbrace, "\x7b") :: (v ++ [(.rbrace, "\x7d")])

/-- The signs of the method of the program, which is given words, up to its body. -/
def methodFront : List Sign :=
  [(.staticKw, "static"), (.predefinedType, "void"), (.ident, "Main"), (.lparen, "("),
   (.predefinedType, "string"), (.lbracket, "["), (.rbracket, "]"), (.ident, "args"),
   (.rparen, ")")]

/-- What does not depend on the word, as it is read. -/
structure ScaffoldReads (n : Nat) : Prop where
  chain head start : Consumes (chainWithin (n + 4) head start) callSigns printSigns fun _ => true
  print : Consumes (itemsWithin (n + 14) [.rbrace]) printSigns [(.rbrace, "\x7d")] fun _ => true
  call : Consumes (itemsWithin (n + 14) [.rbrace]) (callSigns ++ printSigns) [(.rbrace, "\x7d")]
    fun _ => true
  loop x : Consumes (itemWithin (n + 13)) [(.foreachKw, x)] callSigns fun _ => true
  declared : Consumes declaredName? [] [(.ident, "result"), (.eq, "=")] (·.any fun d => !d.2)
  var : Consumes (itemWithin (n + 14)) [(.ident, "var")] [(.ident, "result")]
    (·.any (·.asType?.isSome))
  type : Consumes typeRef [(.predefinedType, "void")] [(.ident, "Main")] fun _ => true
  name word : Consumes (memberName word) [] [(.lparen, "(")] Option.isSome
  params : Consumes (parameterList .rparen) (methodFront.drop 3) [] fun _ => true
  constraints : Consumes skipConstraints [] [(.lbrace, "\x7b")] fun _ => true
  sections : Consumes skipSections [] [(.staticKw, "static")] fun _ => true
  modifiers : Consumes Parse.modifiers [(.staticKw, "static")] [(.predefinedType, "void")]
    fun _ => true
  constructor word : Consumes (startsConstructor word) [] [(.predefinedType, "void")] (! ·)
  bodyEnd source word : Consumes (typeBodyWithin source (n + 1) word) [] [(.rbrace, "\x7d")]
    fun _ => true
  opening : Consumes typeOpening [(.classKw, "class"), (.ident, "Program")] [(.lbrace, "\x7b")]
    (·.any fun h => h.keyword = .classType ∧ h.name = "Program")
  method f hv us : startsTypeDeclaration (signedTokens f (methodFront.take 2) hv ++ us) = false
  program f hv us : startsTypeDeclaration
    (signedTokens f [(.classKw, "class"), (.ident, "Program")] hv ++ us) = true

theorem scaffoldReads (n : Nat) : ScaffoldReads n := by
  constructor
  case method | program =>
    intros
    cbv
  all_goals
    intros
    intro _ _ _ _
    cbv

-- ===== words

/-- The kinds of words that are the head of a chain before a dot. -/
def headKinds : List Kind :=
  [.ident, .predefinedType, .thisKw, .baseKw, .trueKw, .falseKw, .nullKw, .typeofKw, .sizeofKw,
   .defaultKw]

/-- The kinds that neither start an item nor end a block. -/
def passedKind (k : Kind) : Bool :=
  !([.eof, .lparen, .lbrace, .lbracket, .foreachKw].contains k) && !startsChain k

/-- A word other than `new` is the head of a chain or is passed over. -/
theorem headKinds_or_passed (hx : x ≠ "new") : Kind.ofWord x ∈ headKinds
    ∨ Kind.ofWord x = .foreachKw ∨ passedKind (Kind.ofWord x) = true := by
  have hall : ∀ k ∈ wordKinds, k ≠ .newKw →
      k ∈ headKinds ∨ k = .foreachKw ∨ passedKind k = true := by decide
  exact hall _ (Kind.ofWord_mem x) fun h => hx (eq_new_of_ofWord h)

theorem takes_headWord (hg : g.1 ∈ headKinds) :
    Takes (headWithin (n + 1)) [g] ((.dot, ".") :: u) fun _ => True := by
  have hend : ∀ k ∈ headKinds, k ≠ .eof := by decide
  have hmark : ∀ (start : Span) (make : Mark → Expr),
      Takes (markFrom start >>= fun m => pure (make m)) [] ((.dot, ".") :: u) fun _ => True :=
    fun start make => .andThen (takes_markFrom start) fun _ _ => .pure trivial
  rw [headWithin]
  refine .andThen takes_here fun start _ => ?_
  refine .bind [_] (takes_advance (hend g.1 hg)) fun tok htok => ?_
  simp only [headKinds, mem_cons, not_mem_nil, or_false] at hg
  rw [Token.kind_of_sign htok]
  rcases hg with hg | hg | hg | hg | hg | hg | hg | hg | hg | hg <;> rw [hg]
  · refine .andThen (leaves_qualifiedName (by decide)) fun _ _ => ?_
    exact .andThen (leaves_whenNext (by decide)) fun _ _ => hmark start _
  iterate 6 exact hmark start _
  all_goals
    refine .andThen (Q := fun _ => True) ?_ fun _ _ => hmark start _
    refine .andThen (takes_check .lparen) fun b hb => ?_
    rw [hb, if_neg (by simp)]
    exact .pure trivial

/-- A token that is left out. -/
theorem passes_item (hg : passedKind g.1 = true) :
    Takes (itemWithin (n + 1)) [g] u fun _ => True := by
  simp only [passedKind, contains_cons, contains_nil, Bool.or_false, Bool.and_eq_true,
    Bool.not_eq_true', Bool.or_eq_false_iff, beq_eq_false_iff_ne] at hg
  obtain ⟨⟨heof, hparen, hbrace, hbracket, hforeach⟩, hchain⟩ := hg
  rw [itemWithin]
  refine .andThen takes_here fun start _ => ?_
  refine .andThen takes_peek fun tok htok => ?_
  rw [Token.kind_of_sign htok, if_neg hparen, if_neg hbrace, if_neg hbracket, if_neg hforeach,
    if_neg (by rw [hchain]; simp)]
  exact .bind [_] (takes_advance heof) fun _ _ => .pure trivial

-- ===== statements

/-- The call of a word that is the head of a chain. -/
theorem takes_headCall (hg : g.1 ∈ headKinds) :
    Takes (itemWithin (n + 5)) (g :: callSigns) (printSigns ++ u) fun _ => True := by
  have hkinds : ∀ k ∈ headKinds, k ≠ .lparen ∧ k ≠ .lbrace ∧ k ≠ .lbracket ∧ k ≠ .foreachKw
      ∧ startsChain k = true := by decide
  obtain ⟨hparen, hbrace, hbracket, hforeach, hstarts⟩ := hkinds g.1 hg
  rw [itemWithin]
  refine .andThen takes_here fun start _ => ?_
  refine .andThen takes_peek fun tok htok => ?_
  rw [Token.kind_of_sign htok, if_neg hparen, if_neg hbrace, if_neg hbracket, if_neg hforeach,
    if_pos hstarts]
  refine .bind [_] (takes_headWord hg) fun head _ => ?_
  exact .finish (((scaffoldReads n).chain head start).takes fun _ _ => trivial)
    fun _ _ => .pure trivial

/-- The first item of the initializer, and the items after the declaration: the whole call is the
first item if the word is the head of a chain, and else the word alone. -/
theorem takes_initializer (hx : x ≠ "new") :
    ∃ v w, callSigns ++ printSigns = v ++ w
      ∧ Takes (itemWithin (n + 13)) (wordSign x :: v) (w ++ (.rbrace, "\x7d") :: u) (fun _ => True)
      ∧ Takes (itemsWithin (n + 14) [.rbrace]) w ((.rbrace, "\x7d") :: u) fun _ => True := by
  obtain hhead | hother := headKinds_or_passed hx
  · exact ⟨callSigns, printSigns, rfl, takes_headCall hhead,
      (scaffoldReads n).print.takes fun _ _ => trivial⟩
  · refine ⟨[], callSigns ++ printSigns, rfl, ?_, (scaffoldReads n).call.takes fun _ _ => trivial⟩
    obtain hforeach | hpassed := hother
    · rw [wordSign, hforeach]
      exact ((scaffoldReads n).loop x).takes fun _ _ => trivial
    · exact passes_item hpassed

/-- The declaration of a local from its name on, after an expression that is a type. -/
theorem takes_declaredLocal {v : List Sign} {head : Expr} {type : TypeRef}
    (hhead : head.asType? = some type)
    (hitem : Takes (itemWithin n) (wordSign x :: v) u fun _ => True) :
    Takes (localWithin (n + 1) head) ((.ident, "result") :: (.eq, "=") :: wordSign x :: v) u
      fun _ => True := by
  have hkinds : ∀ k ∈ wordKinds, (k.isCloser || k = .semi || k = .comma || k = .eof) = false := by
    decide
  rw [localWithin]
  refine .andThen ((scaffoldReads n).declared.takes fun _ => (Option.any_eq_true ..).1) ?_
  rintro _ ⟨⟨tok, _ | _⟩, rfl, hnullable⟩
  · rw [hhead]
    refine .bind [_] (takes_skip (v := [_])) fun _ _ => ?_
    refine .andThen (Q := fun _ => True) (.of_aside fun s => ⟨_, _, rfl, rfl, rfl, rfl⟩)
      fun i _ => ?_
    refine .bind [_] (takes_accept rfl (by decide)) fun b hb => ?_
    rw [hb, if_neg (by decide)]
    refine .andThen takes_peek fun tok htok => ?_
    rw [Token.kind_of_sign htok, if_neg (by rw [hkinds (wordSign x).1 (Kind.ofWord_mem x)]; simp)]
    refine .finish hitem fun init _ => ?_
    exact .andThen (takes_modify (fun _ => rfl) (fun _ => rfl) fun _ => rfl)
      fun _ _ => .pure trivial
  · cases hnullable

/-- The signs of the body of the program, for the root of a name. -/
def statementSigns (x : String) : List Sign :=
  [(.ident, "var"), (.ident, "result"), (.eq, "=")] ++ wordSign x :: (callSigns ++ printSigns)

theorem takes_statements (hx : x ≠ "new") :
    Takes (itemsWithin (n + 15) [.rbrace]) (statementSigns x) ((.rbrace, "\x7d") :: u)
      fun _ => True := by
  obtain ⟨v, w, hsigns, hinit, hrest⟩ := takes_initializer (n := n) (u := u) hx
  have hsigns' : statementSigns x
      = [(.ident, "var")] ++ ((.ident, "result") :: (.eq, "=") :: wordSign x :: v ++ w) := by
    rw [statementSigns, hsigns]
    simp
  rw [hsigns', itemsWithin]
  refine .andThen takes_peek fun tok htok => ?_
  rw [Token.kind_of_sign htok, if_neg (by decide)]
  refine .andThen (Q := fun _ => True) (.of_aside fun s => ⟨_, s, rfl, rfl, rfl, rfl⟩)
    fun declared _ => ?_
  refine .bind [_] ((scaffoldReads n).var.takes fun _ => (Option.any_eq_true ..).1) ?_
  rintro _ ⟨head, rfl, hhead⟩
  obtain ⟨type, htype⟩ := Option.isSome_iff_exists.1 hhead
  refine .andThen (takes_check .arrow) fun b hb => ?_
  rw [hb, if_neg (by decide)]
  refine .bind _ (takes_declaredLocal htype hinit) fun init _ => ?_
  exact .finish hrest fun _ _ => .pure trivial

-- ===== the method

theorem takes_memberBody (hx : x ≠ "new") :
    Takes memberBody (blockSigns (statementSigns x)) u fun _ => True := by
  refine .andThen (takes_check .lbrace) fun b hb => ?_
  rw [hb, if_pos (by decide)]
  refine .finish (Q := fun _ => True) ?_ fun _ _ => .pure trivial
  refine .bounded (f := blockWithin) fun n hn => ?_
  obtain ⟨n, rfl⟩ : ∃ m, n = m + 16 := ⟨n - 16, by omega⟩
  rw [blockWithin]
  refine .andThen takes_here fun start _ => ?_
  refine .bind [_] (takes_expect _ rfl (by decide)) fun _ _ => ?_
  have hitems : Takes (itemsWithin (n + 15) [.rbrace]) (statementSigns x)
      ([(.rbrace, "\x7d")] ++ u) fun _ => True := takes_statements hx
  refine .bind _ hitems fun _ _ => ?_
  refine .bind [_] (takes_expect _ rfl (by decide)) fun _ _ => ?_
  exact .andThen (takes_markFrom start) fun _ _ => .pure trivial

/-- The signs of the method of the program. -/
def methodSigns (x : String) : List Sign :=
  methodFront ++ blockSigns (statementSigns x)

theorem takes_typedMember (hx : x ≠ "new") (start : Span) (modifiers : List String) :
    Takes (typedMember start modifiers) (methodFront.tail ++ blockSigns (statementSigns x)) u
      fun _ => True := by
  refine .andThen (leaves_accept (by decide) (by decide)) fun isEvent _ => ?_
  refine .bind [_] ((scaffoldReads 0).type.takes fun _ _ => trivial) fun type _ => ?_
  refine .andThen (leaves_accept (by decide) (by decide)) fun b hb => ?_
  rw [hb, if_neg (by decide)]
  refine .andThen (leaves_accept (by decide) (by decide)) fun b hb => ?_
  rw [hb, if_neg (by decide)]
  refine .bind [_] (takes_expect _ rfl (by decide)) fun first _ => ?_
  refine .andThen (((scaffoldReads 0).name _).takes fun _ h => Option.isSome_iff_exists.1 h) ?_
  rintro _ ⟨⟨name, typeParams⟩, rfl⟩
  refine .andThen (takes_check .lparen) fun b hb => ?_
  rw [hb, if_pos (by decide)]
  refine .bind [_, _, _, _, _, _] ((scaffoldReads 0).params.takes fun _ _ => trivial)
    fun params _ => ?_
  refine .andThen ((scaffoldReads 0).constraints.takes fun _ _ => trivial) fun _ _ => ?_
  refine .finish (takes_memberBody hx) fun body _ => ?_
  exact .andThen (takes_spanFrom start) fun _ _ => .pure trivial

/-- What is read with its locals is read from the same tokens. -/
theorem Takes.withLocals {α : Type} {p : Parse α} {v : List Sign} {Q : α → Prop}
    (h : Takes p v u Q) : Takes (Parse.withLocals p) v u fun r => Q r.1 := by
  have hget : ∀ w, Takes (get : Parse ParseState) [] w fun _ => True :=
    fun w => .of_aside fun s => ⟨s, s, rfl, rfl, rfl, rfl⟩
  refine .andThen (hget _) fun s _ => ?_
  refine .andThen (takes_modify (fun _ => rfl) (fun _ => rfl) fun _ => rfl) fun _ _ => ?_
  refine .finish h fun a ha => ?_
  refine .andThen (hget _) fun s _ => ?_
  refine .andThen (takes_modify (fun _ => rfl) (fun _ => rfl) fun _ => rfl) fun _ _ => ?_
  exact .pure ha

theorem Takes.apart {α : Type} {p : Parse α} {v : List Sign} {Q : α → Prop} (h : Takes p v u Q) :
    Takes (Parse.apart p) v u Q :=
  .finish h.withLocals fun _ hr => .pure hr

theorem takes_member (hx : x ≠ "new") (typeName : String) :
    Takes (member typeName) (methodSigns x) u fun _ => True := by
  have hbare : Takes (bareMember typeName) (methodSigns x) u fun _ => True := by
    refine .andThen ((scaffoldReads 0).sections.takes fun _ _ => trivial) fun _ _ => ?_
    refine .andThen takes_here fun start _ => ?_
    refine .bind [_] ((scaffoldReads 0).modifiers.takes fun _ _ => trivial) fun modifiers _ => ?_
    refine .andThen (leaves_accept (by decide) (by decide)) fun b hb => ?_
    rw [hb, if_neg (by decide)]
    refine .andThen (takes_check .implicitKw) fun b hb => ?_
    refine .andThen (takes_check .explicitKw) fun b' hb' => ?_
    rw [hb, hb', if_neg (by decide)]
    refine .andThen (((scaffoldReads 0).constructor typeName).takes fun _ h => h) fun b hb => ?_
    rw [if_neg (by simpa using hb)]
    exact takes_typedMember hx start modifiers
  exact .finish hbare.withLocals fun _ _ => .pure trivial

-- ===== the class

/-- The signs of the program. -/
def programSigns (x : String) : List Sign :=
  (.classKw, "class") :: (.ident, "Program") :: blockSigns (methodSigns x)

/-- The members of the program. -/
theorem takes_typeBody (hx : x ≠ "new") (source : List Char) (name : String) :
    Takes (typeBodyWithin source (n + 2) name) (methodSigns x) ((.rbrace, "\x7d") :: u)
      fun _ => True := by
  rw [typeBodyWithin]
  refine .andThen (takes_check .rbrace) fun b hb => ?_
  refine .andThen takes_atEnd fun b' hb' => ?_
  rw [hb, hb', if_neg (by decide)]
  refine .andThen (leaves_accept (by decide) (by decide)) fun b hb => ?_
  rw [hb, if_neg (by decide)]
  refine .look fun s hs => ?_
  have hstarts : startsTypeDeclaration s.rest = false := by
    obtain ⟨f, hv, us, hrest⟩ := exists_signedTokens (v := methodFront.take 2) hs
    rw [hrest]
    exact (scaffoldReads n).method f hv us
  rw [hstarts, if_neg (by decide)]
  refine .finish (takes_member hx name) fun first _ => ?_
  exact .andThen (((scaffoldReads n).bodyEnd source name).takes fun _ _ => trivial)
    fun _ _ => .pure trivial

/-- What follows the header of the program. -/
theorem takes_typeMembers (hx : x ≠ "new") (source : List Char) (name : String)
    (he : e.1 ≠ .semi) :
    Takes (typeMembers .classType (typeBodyWithin source (n + 2) name)) (blockSigns (methodSigns x))
      (e :: u) fun _ => True := by
  have hbody : Takes (typeBodyWithin source (n + 2) name) (methodSigns x)
      ([(.rbrace, "\x7d")] ++ e :: u) fun _ => True := takes_typeBody hx source name
  refine .bind [_] (takes_accept rfl (by decide)) fun b hb => ?_
  rw [hb, if_pos rfl]
  refine .finish (Q := fun _ => True) ?_ fun body _ => ?_
  · refine .bind _ hbody fun body _ => ?_
    exact .bind [_] (takes_expect _ rfl (by decide)) fun _ _ => .pure trivial
  · exact .andThen (leaves_accept he (by decide)) fun _ _ => .pure trivial

/-- The program is read as a class of this name. -/
theorem takes_program (hx : x ≠ "new") (source : List Char) (he : e.1 ≠ .semi) :
    Takes (typeDeclaration source) (programSigns x) (e :: u) fun d? =>
      ∃ d, d? = some d ∧ d.keyword = .classType ∧ d.name = "Program" := by
  refine .bounded (f := typeDeclarationWithin source) fun n hn => ?_
  obtain ⟨n, rfl⟩ : ∃ m, n = m + 3 := ⟨n - 3, by omega⟩
  rw [typeDeclarationWithin]
  refine .look fun s _ => ?_
  refine Takes.apart (.bind [_, _]
    ((scaffoldReads 0).opening.takes fun _ => (Option.any_eq_true ..).1) ?_)
  rintro _ ⟨header, rfl, hheader⟩
  obtain ⟨hkeyword, hname⟩ := of_decide_eq_true hheader
  refine .finish (Q := fun d => d.keyword = .classType ∧ d.name = "Program") ?_
    fun d hd => .pure ⟨d, rfl, hd⟩
  refine .finish (Q := fun _ => True) ?_ fun body _ => ?_
  · rw [hkeyword]
    exact takes_typeMembers hx source header.name he
  · refine .andThen (takes_spanFrom _) fun span _ => ?_
    exact .look fun s _ => .pure ⟨hkeyword, hname⟩

-- ===== its text

/-- The characters of lines, each after the end of another. -/
def afterLines (lines : List String) : List Char :=
  lines.flatMap fun line => '\n' :: line.toList

theorem afterLines_cons (line : String) (lines : List String) :
    afterLines (line :: lines) = ['\n'] ++ (line.toList ++ afterLines lines) :=
  rfl

/-- The program up to the name of the root. -/
def programFront : List Char :=
  afterLines ["", "    class Program", "    \x7b", "        static void Main(string[] args)",
    "        \x7b", "            var result ="]

/-- The program from the entry method to the end of its body. -/
def programBack : List Char :=
  "Solve();".toList ++ afterLines ["            Console.WriteLine(result);", "        \x7d"]

/-- The text of the program, from the line before it on. -/
def programChars (x : String) : List Char :=
  programFront ++ ([' '] ++ x.toList ++ (['.'] ++ (programBack ++ ("\n    ".toList ++ ['\x7d']))))

theorem piece_program (hx : IsName x.toList) :
    Piece (programChars x) (programSigns x) (programFront <+: ·) fun _ => True := by
  have hfront : Piece programFront ([(.classKw, "class"), (.ident, "Program"), (.lbrace, "\x7b")]
      ++ methodFront ++ [(.lbrace, "\x7b"), (.ident, "var"), (.ident, "result"), (.eq, "=")])
      _ _ := .fixed (by decide) (by decide) (by decide) (by decide)
  have hback : Piece programBack (callSigns.tail ++ printSigns ++ [(.rbrace, "\x7d")])
      _ _ := .fixed (by decide) (by decide) (by decide) (by decide)
  have hbrace := (Piece.stop '\x7d' .rbrace (by decide) rfl).gap (g := "\n    ".toList)
    (forall_mem_of_all (by decide)) (by decide) (fun _ h => h ▸ by decide) (cons_ne_nil _ _)
  have hrest := hback.append hbrace fun _ h => .of_front (c := '\n') (by decide) h
  have hdot := (Piece.joining '.' .dot (by decide) rfl).append hrest fun _ h =>
    .of_front (c := 'S') (by decide) h
  have hword := ((Piece.word hx).spaced (fun _ => endsGap_of_isNameStart) nofun).append hdot
    fun _ h => h.of_eq (by decide)
  exact hfront.append hword fun _ h => h.of_eq (by decide)

theorem startsTypeDeclaration_program {vs zs : List Token}
    (h : vs.map Token.sign = programSigns x) : startsTypeDeclaration (vs ++ zs) = true := by
  have hsigns : (vs ++ zs).map Token.sign = [(.classKw, "class"), (.ident, "Program")]
      ++ (blockSigns (methodSigns x) ++ zs.map Token.sign) := by
    rw [map_append, h]
    rfl
  obtain ⟨f, hv, us, hrest⟩ := exists_signedTokens hsigns
  rw [hrest]
  exact (scaffoldReads 0).program f hv us

/-- The class of the scaffold. -/
def IsProgram (d : TypeDecl) : Prop :=
  d.keyword = .classType ∧ d.name = "Program"

/-- The text of the program is read as the class. -/
theorem entries_program (hx : IsName x.toList) (hnew : x ≠ "new") :
    Entries (programChars x) [IsProgram] [] :=
  entries_class (fun _ _ => startsTypeDeclaration_program)
    (fun source _ _ he => takes_program hnew source he) (cons_ne_nil _ _) (piece_program hx)

theorem toList_indentedUsing (space : String) :
    ("    using " ++ space ++ ";").toList = "    ".toList ++ (usingLine space).toList := by
  have hindent : "    using " = "    " ++ "using " := by decide
  rw [hindent, String.append_assoc, String.append_assoc, usingLine, String.append_assoc]
  exact String.toList_append

theorem toList_appendAll (a b c d e : String) : (a ++ b ++ c ++ d ++ e).toList
    = a.toList ++ (b.toList ++ (c.toList ++ (d.toList ++ e.toList))) := by
  simp only [String.toList_append, append_assoc]

/-- The first lines of a namespace. -/
theorem afterLines_opening (space : String) (lines : List String) :
    afterLines ("" :: ("namespace " ++ space) :: "\x7b" :: lines)
      = blockOpening space ++ afterLines lines := by
  have hname : ("namespace " ++ space).toList = "namespace".toList ++ ([' '] ++ space.toList) := by
    have hword : "namespace ".toList = "namespace".toList ++ [' '] := by decide
    rw [← append_assoc, ← hword]
    exact String.toList_append
  have hword : "\n\nnamespace".toList = ['\n'] ++ (['\n'] ++ "namespace".toList) := by
    decide
  have hline : "\n".toList = ['\n'] := by decide
  have hopen : "\x7b".toList = ['\x7b'] := by decide
  have hempty : "".toList = [] := by decide
  -- not by its equation, which takes long to make for a definition of this kind
  delta blockOpening
  simp only [afterLines_cons, hname, hword, hline, hopen, hempty, append_assoc, nil_append]

/-- The last line of a namespace. -/
theorem afterLines_closing : afterLines ["\x7d"] = blockClosing := by
  decide

/-- The scaffold is a namespace with a using of the root's and the program. -/
theorem afterLines_scaffold {c : Context} (root : TypeUnit) (hentry : c.entryMethod = "Solve") :
    afterLines ("" :: scaffold c root) = blockOpening c.scaffoldNamespace
      ++ ("\n    ".toList ++ (usingLine root.space).toList ++ programChars root.name
        ++ blockClosing) := by
  have hcall : ("            var result = " ++ root.name ++ "." ++ c.entryMethod ++ "();").toList
      = "            var result =".toList
        ++ ([' '] ++ (root.name.toList ++ (['.'] ++ "Solve();".toList))) := by
    have hword : "            var result = ".toList
        = "            var result =".toList ++ [' '] := by decide
    have hmethod : ['.'] ++ "Solve();".toList = ".".toList ++ ("Solve".toList ++ "();".toList) := by
      decide
    rw [hentry, hmethod]
    refine (toList_appendAll ..).trans ?_
    exact (congrArg (· ++ _) hword).trans (append_assoc ..)
  have hindent : "\n    ".toList = ['\n'] ++ "    ".toList := by decide
  have hbrace : "    \x7d".toList = "    ".toList ++ ['\x7d'] := by decide
  have hempty : "".toList = [] := by decide
  have hnil : afterLines [] = [] := rfl
  rw [scaffold, afterLines_opening, ← afterLines_closing]
  delta programChars programBack programFront
  simp only [afterLines_cons, hnil, toList_indentedUsing, hcall, hindent, hbrace, hempty,
    append_assoc, append_nil, nil_append]

/-- The scaffold is read as a namespace with the program in it. -/
theorem entries_scaffold {c : Context} {root : TypeUnit} (hentry : c.entryMethod = "Solve")
    (hspace : IsSpaceName c.scaffoldNamespace) (husing : ({ name := root.space } : Import).Legible)
    (hname : IsName root.name.toList) (hnew : root.name ≠ "new") :
    Entries (afterLines ("" :: scaffold c root)) []
      [IsBlock c.scaffoldNamespace [IsProgram] []] := by
  have hline : Entries ("\n    ".toList ++ (usingLine root.space).toList) [] [] :=
    husing.entries (forall_mem_of_all (by decide)) (by decide)
  rw [afterLines_scaffold root hentry]
  exact (hline.append (entries_program hname hnew)).block hspace

end SourceBundle

/-
Solution files are read back. An entry is read up to the quote behind
its path, wherever lines end inside it; what is left of it takes up the
rest of a line, and the line that closes it starts no entry. So a file
of entries lists just these (`entries_written`).
-/
import SourceBundle.Files.Solution

namespace SourceBundle

open List Text

namespace Text

variable {α : Type} {m : Matcher α} {cs line rest : List Char} {word : List Char} {s : String}

/-- The matcher at the starts of lines alone. -/
def atLineStart (m : Matcher α) : Bool → Matcher α :=
  fun lineStart => if lineStart then m else fun _ => none

-- ===== single pieces

theorem after?_append (word cs : List Char) : after? word (word ++ cs) = some cs := by
  simp [after?]

theorem after?_eq_none (h : ¬word <+: cs) : after? word cs = none := by
  simp [after?, h]

/-- A word without a character stands before its first occurrence. -/
theorem prefix_of_append_cons {c : Char} (h : word <+: cs ++ c :: rest) (hc : c ∉ word) :
    word <+: cs := by
  have hcs : cs ++ [c] <+: cs ++ c :: rest := ⟨rest, append_cons cs c rest ▸ rfl⟩
  obtain hword | hword := prefix_or_prefix_of_prefix h hcs
  · obtain rfl | hword := prefix_concat_iff.1 hword
    · exact absurd (mem_append_right cs (mem_singleton_self c)) hc
    · exact hword
  · exact absurd (hword.mem (mem_append_right cs (mem_singleton_self c))) hc

theorem upToQuote?_append (h : '"' ∉ s.toList) (cs : List Char) :
    upToQuote? (s.toList ++ '"' :: cs) = some (s, cs) := by
  have hne : ∀ c ∈ s.toList, (decide (c ≠ '"')) = true := fun c hc =>
    decide_eq_true fun heq => h (heq ▸ hc)
  rw [upToQuote?, dropWhile_append_of_pos hne, takeWhile_append_of_pos hne]
  simp

-- ===== lines

theorem matchesFrom_none {m : Bool → Matcher α} {lineStart : Bool} {c : Char}
    (h : m lineStart (c :: cs) = none) :
    matchesFrom m 0 lineStart (c :: cs) = matchesFrom m 0 (c = '\n') cs := by
  simp only [matchesFrom.eq_def m 0 lineStart, h]

theorem matchesFrom_some {m : Bool → Matcher α} {lineStart : Bool} {c : Char} {a : α}
    (h : m lineStart (c :: cs) = some (a, rest)) : matchesFrom m 0 lineStart (c :: cs)
      = a :: matchesFrom m (cs.length - rest.length) (c = '\n') cs := by
  simp only [matchesFrom.eq_def m 0 lineStart, h]

theorem matchesFrom_skip {m : Bool → Matcher α} (front rest : List Char) (lineStart : Bool) :
    matchesFrom m (front.length + 1) lineStart (front ++ '"' :: rest)
      = matchesFrom m 0 false rest := by
  induction front generalizing lineStart with
  | nil => rfl
  | cons c front ih => exact ih (decide (c = '\n'))

/-- A match up to a quote is given, and the search goes on behind it. -/
theorem matchesFrom_match {front : List Char} {a : α}
    (h : m (front ++ '"' :: rest) = some (a, rest)) :
    matchesFrom (atLineStart m) 0 true (front ++ '"' :: rest)
      = a :: matchesFrom (atLineStart m) 0 false rest := by
  cases front with
  | nil => exact (matchesFrom_some h).trans (by rw [Nat.sub_self]; rfl)
  | cons c front =>
    have hskip : (front ++ '"' :: rest).length - rest.length = front.length + 1 := by
      rw [length_append, length_cons]
      omega
    rw [cons_append] at h ⊢
    exact (matchesFrom_some h).trans (by rw [hskip, matchesFrom_skip])

theorem matchesFrom_inside (h : '\n' ∉ line) (rest : List Char) :
    matchesFrom (atLineStart m) 0 false (line ++ '\n' :: rest)
      = matchesFrom (atLineStart m) 0 true rest := by
  induction line with
  | nil => rfl
  | cons c line ih =>
    have hc : decide (c = '\n') = false := decide_eq_false (ne_of_not_mem_cons h).symm
    rw [cons_append, matchesFrom_none rfl, hc, ih (not_mem_of_not_mem_cons h)]

/-- A line that does not start a match is passed over. -/
theorem matchesFrom_line (h : '\n' ∉ line) (hm : m (line ++ '\n' :: rest) = none) :
    matchesFrom (atLineStart m) 0 true (line ++ '\n' :: rest)
      = matchesFrom (atLineStart m) 0 true rest := by
  cases line with
  | nil => exact matchesFrom_none hm
  | cons c line =>
    have hc : decide (c = '\n') = false := decide_eq_false (ne_of_not_mem_cons h).symm
    rw [cons_append, matchesFrom_none hm, hc, matchesFrom_inside (not_mem_of_not_mem_cons h)]

end Text

namespace Solution

/-- An entry as it is written, with the identifiers of its kind and of the project. -/
structure Listing where
  kind : String
  name : String
  path : String
  id : String

namespace Listing

/-- The entry can be told from what stands around it: there is no quote in what is read of it,
and no line end behind that. -/
structure Clean (e : Listing) : Prop where
  kind : '"' ∉ e.kind.toList
  name : '"' ∉ e.name.toList
  path : '"' ∉ e.path.toList
  id : '\n' ∉ e.id.toList

/-- The texts between the pieces of an entry, and the end of its line with the line behind it. -/
def opening : String := "Project(\""

def naming : String := "\") = \""

def listing : String := "\", \""

def closing : String := "\"\nEndProject\n"

/-- The line of an entry and the line that closes it. -/
def text (e : Listing) : String :=
  opening ++ e.kind ++ naming ++ e.name ++ listing ++ e.path ++ listing ++ e.id ++ closing

/-- The entry up to the quote behind its path. -/
def front (e : Listing) : List Char :=
  opening.toList ++ (e.kind.toList ++ (naming.toList ++ (e.name.toList ++ (listing.toList
    ++ e.path.toList))))

/-- The rest of the line. -/
def rear (e : Listing) : List Char :=
  ',' :: ' ' :: '"' :: (e.id.toList ++ ['"'])

theorem toList_text (e : Listing) (rest : List Char) : e.text.toList ++ rest
    = e.front ++ '"' :: (e.rear ++ '\n' :: ("EndProject".toList ++ '\n' :: rest)) := by
  have hlisting (cs : List Char) :
      listing.toList ++ cs = '"' :: ',' :: ' ' :: '"' :: cs := rfl
  have hclosing : closing.toList ++ rest
      = '"' :: '\n' :: ("EndProject".toList ++ '\n' :: rest) := rfl
  rw [front, rear, text]
  generalize "EndProject".toList = close at *
  simp only [String.toList_append, append_assoc, cons_append, nil_append, hclosing, hlisting]

variable {e : Listing}

theorem entry_front (h : e.Clean) (rest : List Char) :
    entry (e.front ++ '"' :: rest) = some ((e.name, e.path), rest) := by
  have hequals (cs : List Char) : afterBlanks (' ' :: '=' :: cs) = '=' :: cs := rfl
  have hcomma (cs : List Char) : afterBlanks (',' :: cs) = ',' :: cs := rfl
  have hquote (cs : List Char) : afterBlanks (' ' :: '"' :: cs) = '"' :: cs := rfl
  have hone (c : Char) (cs : List Char) : after? [c] (c :: cs) = some cs := after?_append [c] cs
  have hnaming (cs : List Char) :
      naming.toList ++ cs = '"' :: ')' :: ' ' :: '=' :: ' ' :: '"' :: cs := rfl
  have hlisting (cs : List Char) : listing.toList ++ cs = '"' :: ',' :: ' ' :: '"' :: cs := rfl
  rw [front, append_assoc, entry]
  show (after? opening.toList _).bind _ = _
  rw [after?_append]
  simp only [append_assoc, cons_append, hnaming, hlisting, upToQuote?_append, h.kind, h.name,
    h.path, hequals, hcomma, hquote, hone, not_false_eq_true, Option.bind_eq_bind,
    Option.bind_some]
  rfl

/-- An entry is read, and the search goes on behind the line that closes it. -/
theorem matchesFrom_text (h : e.Clean) (rest : List Char) :
    matchesFrom (atLineStart entry) 0 true (e.text.toList ++ rest)
      = (e.name, e.path) :: matchesFrom (atLineStart entry) 0 true rest := by
  have hrear : '\n' ∉ e.rear := by simp [rear, h.id]
  rw [toList_text, matchesFrom_match (entry_front h _), matchesFrom_inside hrear,
    matchesFrom_line (by decide) rfl]

end Listing

/-- A header line and entries. -/
def written (header : String) (es : List Listing) : String :=
  header ++ "\n" ++ String.join (es.map Listing.text)

theorem matchesFrom_texts (es : List Listing) (h : ∀ e ∈ es, e.Clean) :
    matchesFrom (atLineStart entry) 0 true ((es.map Listing.text).flatMap String.toList)
      = es.map fun e => (e.name, e.path) := by
  induction es with
  | nil => rfl
  | cons e es ih =>
    obtain ⟨he, hes⟩ := forall_mem_cons.1 h
    rw [map_cons, flatMap_cons, Listing.matchesFrom_text he, ih hes]
    rfl

/-- The entries that are written below a header line are read back, in order. Their names and paths
may have line ends and what looks like the start of an entry. -/
theorem entries_written (header : String) (es : List Listing) (hline : '\n' ∉ header.toList)
    (hheader : ¬"Project(\"".toList <+: header.toList) (h : ∀ e ∈ es, e.Clean) :
    entries (written header es) = es.map fun e => (e.name, e.path) := by
  have hchars : (written header es).toList
      = header.toList ++ '\n' :: (es.map Listing.text).flatMap String.toList := by
    rw [written, String.toList_append, String.toList_append, String.toList_join, append_assoc]
    rfl
  have hentry (rest : List Char) : entry (header.toList ++ '\n' :: rest) = none := by
    have hword : '\n' ∉ "Project(\"".toList := by decide
    rw [entry, after?_eq_none fun hpre => hheader (prefix_of_append_cons hpre hword)]
    rfl
  show matchesFrom (atLineStart entry) 0 true _ = _
  rw [hchars, matchesFrom_line hline (hentry _), matchesFrom_texts es h]

theorem entries_written_lookalike :
    entries (written "Microsoft Visual Studio Solution File, Format Version 12.00"
        [⟨"{F}", "a\nProject(", "\nProject(a) = b", "{1}"⟩, ⟨"", "", "c.csproj", "\""⟩])
      = [("a\nProject(", "\nProject(a) = b"), ("", "c.csproj")] :=
  entries_written _ _ (by decide) (by decide) (forall_mem_cons.2
    ⟨⟨by decide, by decide, by decide, by decide⟩,
      forall_mem_singleton.2 ⟨by decide, by decide, by decide, by decide⟩⟩)

end Solution

end SourceBundle

import Mathlib.Data.List.TakeWhile
import Mathlib.Tactic.Common
import NoteScript.Proofs.Characters
import NoteScript.Text.Edit

/-!
# Words of a text

The words of a text are its longest runs without white space. Two texts in a row keep their words if
white space stands between them (`words_append`); otherwise the last word of the one and the first word of
the other are one word (`words_glue`). Indenting the lines of a text does not change its words
(`words_indent`).
-/

namespace NoteScript.Text

variable {cs : List Char} {a b blank s : String}

/-- A word, unless it is empty. -/
def wordOf (word : List Char) : List String := if word.isEmpty then [] else [String.ofList word]

/-- The words of the characters, where `word` has the characters of the current word. -/
def wordsFrom (word : List Char) : List Char → List String
  | [] => wordOf word
  | c :: cs => if isSpace c then wordOf word ++ wordsFrom [] cs else wordsFrom (word ++ [c]) cs

/-- The words of a text. -/
def words (s : String) : List String := wordsFrom [] s.toList

/-- Does a text start with something other than white space? -/
def startsSolid (s : String) : Bool := s.toList.head?.any (!isSpace ·)

/-- Does a text end with something other than white space? -/
def endsSolid (s : String) : Bool := s.toList.getLast?.any (!isSpace ·)

/-- Two lists of words with the last word of the one and the first word of the other as one word. -/
def glue (first second : List String) : List String :=
  first.dropLast ++ (first.getLast?.getD "" ++ second.head?.getD "") :: second.tail

theorem length_glue {first second : List String} (h : first ≠ []) (h' : second ≠ []) :
    (glue first second).length + 1 = first.length + second.length := by
  have pos := List.length_pos_iff.mpr h
  have pos' := List.length_pos_iff.mpr h'
  simp only [glue, List.length_append, List.length_dropLast, List.length_cons, List.length_tail]
  omega

/-! ### Runs -/

theorem wordsFrom_run {run : List Char} (solid : ∀ c ∈ run, isSpace c = false) (word cs : List Char) :
    wordsFrom word (run ++ cs) = wordsFrom (word ++ run) cs := by
  induction run generalizing word with
  | nil => simp
  | cons c run ih =>
    have rest := ih fun d hd => solid d (List.mem_cons_of_mem c hd)
    simp [wordsFrom, solid c List.mem_cons_self, rest]

/-- A word ends in front of white space and at the end of the text. -/
theorem wordsFrom_space (h : cs.head?.all isSpace = true) (word : List Char) :
    wordsFrom word cs = wordOf word ++ wordsFrom [] cs := by
  rcases cs with _ | ⟨c, cs⟩
  · simp [wordsFrom, wordOf]
  · have space : isSpace c = true := by simpa using h
    simp [wordsFrom, space, wordOf]

theorem wordsFrom_append_space {ds : List Char} (h : ds.head?.all isSpace = true) (word : List Char) :
    wordsFrom word (cs ++ ds) = wordsFrom word cs ++ wordsFrom [] ds := by
  induction cs generalizing word with
  | nil => exact wordsFrom_space h word
  | cons c cs ih =>
    rw [List.cons_append, wordsFrom, wordsFrom]
    split_ifs
    · rw [ih, List.append_assoc]
    · exact ih _

theorem wordsFrom_space_append {ds : List Char} (h : cs.getLast?.any isSpace = true) (word : List Char) :
    wordsFrom word (cs ++ ds) = wordsFrom word cs ++ wordsFrom [] ds := by
  induction cs generalizing word with
  | nil => cases h
  | cons c cs ih =>
    rcases cs with _ | ⟨d, cs⟩
    · have space : isSpace c = true := by simpa using h
      simp [wordsFrom, space, wordOf]
    · rw [List.cons_append, wordsFrom, wordsFrom]
      rw [List.getLast?_cons_cons] at h
      split_ifs
      · rw [ih h, List.append_assoc]
      · exact ih h _

theorem wordsFrom_blank {blanks : List Char} (blank : blanks.all isSpace = true) (cs : List Char) :
    wordsFrom [] (blanks ++ cs) = wordsFrom [] cs := by
  induction blanks with
  | nil => rfl
  | cons c blanks ih =>
    simp only [List.all_cons, Bool.and_eq_true] at blank
    simp [wordsFrom, blank.1, wordOf, ih blank.2]

/-! ### Texts in a row -/

/-- White space between two texts keeps their words apart. -/
theorem words_append (h : a.toList.getLast?.any isSpace = true ∨ b.toList.head?.all isSpace = true) :
    words (a ++ b) = words a ++ words b := by
  rw [words, String.toList_append]
  rcases h with h | h
  · exact wordsFrom_space_append h []
  · exact wordsFrom_append_space h []

theorem words_blank_append (h : isBlank blank = true) (s : String) : words (blank ++ s) = words s := by
  rw [words, String.toList_append, wordsFrom_blank h, words]

/-- A text of white space between two texts keeps their words apart. -/
theorem words_append_blank (h : isBlank blank = true) (nonempty : blank ≠ "") : words (a ++ blank ++ b) = words a ++ words b := by
  rw [String.append_assoc, words_append (.inr ?_), words_blank_append h]
  have all : ∀ c ∈ blank.toList, isSpace c = true := List.all_eq_true.mp h
  rcases chars : blank.toList with _ | ⟨c, cs⟩
  · exact absurd (String.toList_eq_nil_iff.mp chars) nonempty
  · simpa [chars] using all c (by simp [chars])

theorem words_blank (a b : String) : words (a ++ " " ++ b) = words a ++ words b := words_append_blank (by decide) (by decide)

/-- What starts with something other than white space starts with a run of it. -/
theorem exists_run (h : cs.head?.any (!isSpace ·) = true) :
    ∃ run rest, cs = run ++ rest ∧ run ≠ [] ∧ (∀ c ∈ run, isSpace c = false) ∧ rest.head?.all isSpace = true := by
  refine ⟨cs.takeWhile (!isSpace ·), cs.dropWhile (!isSpace ·), List.takeWhile_append_dropWhile.symm, ?_, ?_, ?_⟩
  · rcases cs with _ | ⟨c, cs⟩
    · cases h
    · have solid : isSpace c = false := by simpa using h
      simp [solid]
  · intro c hc
    simpa using List.mem_takeWhile_imp hc
  · have ends := List.head?_dropWhile_not (!isSpace ·) cs
    rcases rest : cs.dropWhile (!isSpace ·) with _ | ⟨c, cs'⟩
    · rfl
    · rw [rest] at ends
      simpa using ends

theorem exists_run_end (h : cs.getLast?.any (!isSpace ·) = true) :
    ∃ front run, cs = front ++ run ∧ run ≠ [] ∧ (∀ c ∈ run, isSpace c = false) ∧ front.getLast?.all isSpace = true := by
  rw [← List.head?_reverse] at h
  obtain ⟨run, rest, split, nonempty, solid, ends⟩ := exists_run h
  refine ⟨rest.reverse, run.reverse, ?_, by simpa using nonempty, by simpa using solid, by simpa using ends⟩
  rw [← List.reverse_append, ← split, List.reverse_reverse]

/-- Without white space between them, two texts share a word. -/
theorem words_glue (ha : endsSolid a = true) (hb : startsSolid b = true) : words (a ++ b) = glue (words a) (words b) := by
  obtain ⟨front, run, split, nonempty, solid, space⟩ := exists_run_end ha
  obtain ⟨run', rest, split', nonempty', solid', space'⟩ := exists_run hb
  have behind (cs : List Char) : wordsFrom [] (front ++ cs) = wordsFrom [] front ++ wordsFrom [] cs := by
    rcases last : front.getLast? with _ | c
    · rw [List.getLast?_eq_none_iff.mp last]
      simp [wordsFrom, wordOf]
    · exact wordsFrom_space_append (by simpa [last] using space) []
  have word {cs : List Char} (h : cs ≠ []) : wordOf cs = [String.ofList cs] := by simp [wordOf, h]
  have first : words a = wordsFrom [] front ++ [String.ofList run] := by
    rw [words, split, behind, ← List.append_nil run, wordsFrom_run solid, List.nil_append, List.append_nil,
      wordsFrom, word nonempty]
  have second : words b = String.ofList run' :: wordsFrom [] rest := by
    rw [words, split', wordsFrom_run solid', List.nil_append, wordsFrom_space space', word nonempty']
    rfl
  have both : words (a ++ b) = wordsFrom [] front ++ String.ofList (run ++ run') :: wordsFrom [] rest := by
    rw [words, String.toList_append, split, split', List.append_assoc, behind, wordsFrom_run solid,
      wordsFrom_run solid', List.nil_append, wordsFrom_space space', word (by simp [nonempty])]
    rfl
  rw [first, second, both]
  simp [glue, String.ofList_append]

/-- A text without white space is one word. -/
theorem words_of_solid (nonempty : s ≠ "") (solid : ∀ c ∈ s.toList, isSpace c = false) : words s = [s] := by
  have chars : s.toList ≠ [] := fun h => nonempty (String.toList_eq_nil_iff.mp h)
  rw [words, ← List.append_nil s.toList, wordsFrom_run solid, List.nil_append, wordsFrom]
  simp [wordOf, chars]

theorem words_of_isBlank (blank : isBlank s = true) : words s = [] := by
  rw [words, ← List.append_nil s.toList, wordsFrom_blank blank]
  simp [wordsFrom, wordOf]

theorem words_ne_nil (h : startsSolid s = true) : words s ≠ [] := by
  obtain ⟨run, rest, split, nonempty, solid, space⟩ := exists_run h
  rw [words, split, wordsFrom_run solid, List.nil_append, wordsFrom_space space]
  simp [wordOf, nonempty]

/-! ### Indented lines -/

theorem replaceFrom_newline (new cs : List Char) :
    replaceFrom ['\n'] new 0 cs = cs.flatMap fun c => if c = '\n' then new else [c] := by
  induction cs with
  | nil => rfl
  | cons c cs ih =>
    by_cases newline : c = '\n'
    · subst newline
      simp [replaceFrom, ih]
    · have other : '\n' ≠ c := fun same => newline same.symm
      simp [replaceFrom, other, newline, ih]

/-- White space behind the line feeds of a text changes none of its words. -/
theorem words_indent {indent : String} (blank : isBlank indent = true) (s : String) :
    words (replace "\n" ("\n" ++ indent) s) = words s := by
  have all (cs word : List Char) : wordsFrom word (cs.flatMap fun c =>
      if c = '\n' then '\n' :: indent.toList else [c]) = wordsFrom word cs := by
    induction cs generalizing word with
    | nil => rfl
    | cons c cs ih =>
      by_cases newline : c = '\n'
      · subst newline
        have space : isSpace '\n' = true := by decide
        simp [wordsFrom, space, wordsFrom_blank blank, ih]
      · simp [wordsFrom, newline, ih]
  have chars : (replace "\n" ("\n" ++ indent) s).toList =
      s.toList.flatMap fun c => if c = '\n' then '\n' :: indent.toList else [c] := by
    simp [replace, replaceFrom_newline]
  rw [words, chars, all, words]

/-! ### Solid texts -/

theorem startsSolid_append (h : startsSolid a = true) (b : String) : startsSolid (a ++ b) = true := by
  rw [startsSolid] at h ⊢
  rcases chars : a.toList with _ | ⟨c, cs⟩
  · simp [chars] at h
  · simpa [chars] using h

theorem endsSolid_append (a : String) (h : endsSolid b = true) : endsSolid (a ++ b) = true := by
  rw [endsSolid] at h ⊢
  rcases last : b.toList.getLast? with _ | c
  · simp [last] at h
  · simpa [last, List.getLast?_append] using h

theorem startsSolid_of_solid (nonempty : s ≠ "") (solid : ∀ c ∈ s.toList, isSpace c = false) : startsSolid s = true := by
  rw [startsSolid]
  rcases chars : s.toList with _ | ⟨c, cs⟩
  · exact absurd (String.toList_eq_nil_iff.mp chars) nonempty
  · simpa [chars] using solid c (by simp [chars])

theorem endsSolid_of_solid (nonempty : s ≠ "") (solid : ∀ c ∈ s.toList, isSpace c = false) : endsSolid s = true := by
  rw [endsSolid]
  rcases last : s.toList.getLast? with _ | c
  · exact absurd (String.toList_eq_nil_iff.mp (List.getLast?_eq_none_iff.mp last)) nonempty
  · simpa using solid c (List.mem_of_getLast? last)

/-- White space around a solid text is all that is stripped off. -/
theorem strip_between {blank' : String} (isBlank : isBlank blank = true) (starts : startsSolid s = true)
    (ends : endsSolid s = true) (isBlank' : Text.isBlank blank' = true) : strip (blank ++ s ++ blank') = s := by
  have front : trimStart (blank ++ s ++ blank').toList = s.toList ++ blank'.toList := by
    rw [trimStart, String.toList_append, String.toList_append, List.append_assoc,
      List.dropWhile_append_of_pos (List.all_eq_true.mp isBlank)]
    rw [startsSolid] at starts
    rcases chars : s.toList with _ | ⟨c, cs⟩
    · simp [chars] at starts
    · rw [List.cons_append, List.dropWhile_cons_of_neg (by simpa [chars] using starts)]
  have back : trimEnd (s.toList ++ blank'.toList) = s.toList := by
    rw [endsSolid, ← List.head?_reverse] at ends
    rw [trimEnd, List.reverse_append, List.dropWhile_append_of_pos (by simpa using List.all_eq_true.mp isBlank')]
    rcases chars : s.toList.reverse with _ | ⟨c, cs⟩
    · simp [chars] at ends
    · rw [List.dropWhile_cons_of_neg (by simpa [chars] using ends), ← chars, List.reverse_reverse]
  rw [strip, trim, front, back, String.ofList_toList]

theorem strip_of_solid (starts : startsSolid s = true) (ends : endsSolid s = true) : strip s = s := by
  have nothing : isBlank "" = true := by decide
  simpa using strip_between nothing starts ends nothing

theorem mem_of_mem_strip {c : Char} (h : c ∈ (strip s).toList) : c ∈ s.toList := by
  rw [strip, String.toList_ofList, trim, trimEnd, trimStart, List.mem_reverse] at h
  exact (List.dropWhile_sublist _).mem (List.mem_reverse.mp ((List.dropWhile_sublist _).mem h))

end NoteScript.Text

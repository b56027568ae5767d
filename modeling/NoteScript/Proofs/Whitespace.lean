import Mathlib.Data.List.Infix
import NoteScript.Polish.Pass

/-!
# Tidy white space

The last pass drops blanks at line ends, long runs of line feeds and the white space around a text, one after the other. What
one step leaves is not spoilt by the next: a run of line feeds is shortened at its start, and taking off the ends of a text
brings no two characters together.

* `Neat`: the normal form, said of the places where characters stand next to each other.
* `neat_tidyWhitespace`, `Neat.tidyWhitespace_eq`: the pass reaches it, and leaves it as it is.
* `whitespace_normalizes`: so a second run changes nothing, and nothing but white space is ever lost.
-/

namespace NoteScript

namespace Polish

open Text

variable {c : Char} {cs : List Char}

/-- A text with tidy white space. -/
structure Neat (cs : List Char) : Prop where
  blanks : ∀ c, isTabOrBlank c = true → ¬ [c, '\n'] <:+: cs
  feeds : ¬ ['\n', '\n', '\n'] <:+: cs
  starts : cs.head?.all (!isSpace ·) = true
  ends : cs.getLast?.all (!isSpace ·) = true

theorem isSpace_of_isTabOrBlank (h : isTabOrBlank c = true) : isSpace c = true := by
  simp only [isTabOrBlank, Bool.or_eq_true, beq_iff_eq] at h
  rcases h with rfl | rfl <;> decide

theorem pair_prefix_cons {a b : Char} : [a, b] <+: c :: cs ↔ a = c ∧ cs.head? = some b := by
  cases cs <;> simp [List.cons_prefix_cons, eq_comm]

/-! ### Blanks at line ends -/

theorem dropTrailingBlanks_cons (c : Char) (cs : List Char) : dropTrailingBlanks (c :: cs) =
    if isTabOrBlank c && (dropTrailingBlanks cs).head? == some '\n' then dropTrailingBlanks cs
    else c :: dropTrailingBlanks cs := rfl

theorem blanks_dropTrailingBlanks (blank : isTabOrBlank c = true) (cs : List Char) : ¬ [c, '\n'] <:+: dropTrailingBlanks cs := by
  induction cs with
  | nil => simp [dropTrailingBlanks]
  | cons d cs ih =>
    rw [dropTrailingBlanks_cons]
    split
    · exact ih
    · rename_i kept
      rw [List.infix_cons_iff, pair_prefix_cons]
      rintro (⟨rfl, feed⟩ | inside)
      · exact kept (by simp [blank, feed])
      · exact ih inside

theorem dropTrailingBlanks_eq (blanks : ∀ c, isTabOrBlank c = true → ¬ [c, '\n'] <:+: cs) : dropTrailingBlanks cs = cs := by
  induction cs with
  | nil => rfl
  | cons c cs ih =>
    rw [dropTrailingBlanks_cons, ih fun d blank inside => blanks d blank (inside.trans (List.suffix_cons c cs).isInfix), if_neg]
    intro dropped
    simp only [Bool.and_eq_true, beq_iff_eq] at dropped
    exact blanks c dropped.1 (pair_prefix_cons.mpr ⟨rfl, dropped.2⟩).isInfix

theorem filter_dropTrailingBlanks (cs : List Char) : (dropTrailingBlanks cs).filter (!isSpace ·) = cs.filter (!isSpace ·) := by
  induction cs with
  | nil => rfl
  | cons c cs ih =>
    rw [dropTrailingBlanks_cons]
    split
    · rename_i dropped
      rw [ih, List.filter_cons_of_neg (by simp [isSpace_of_isTabOrBlank (Bool.and_eq_true_iff.mp dropped).1])]
    · rw [List.filter_cons, List.filter_cons, ih]

/-! ### Runs of line feeds -/

theorem collapseEmptyLines_cons (c : Char) (cs : List Char) : collapseEmptyLines (c :: cs) =
    if c == '\n' && ['\n', '\n'].isPrefixOf (collapseEmptyLines cs) then collapseEmptyLines cs
    else c :: collapseEmptyLines cs := rfl

theorem dropped_iff : (c == '\n' && ['\n', '\n'].isPrefixOf cs) = true ↔ ['\n', '\n', '\n'] <+: c :: cs := by
  rw [List.cons_prefix_cons, Bool.and_eq_true, beq_iff_eq, List.isPrefixOf_iff_prefix, eq_comm]

theorem feeds_collapseEmptyLines (cs : List Char) : ¬ ['\n', '\n', '\n'] <:+: collapseEmptyLines cs := by
  induction cs with
  | nil => simp [collapseEmptyLines]
  | cons c cs ih =>
    rw [collapseEmptyLines_cons]
    split
    · exact ih
    · rename_i kept
      rw [List.infix_cons_iff]
      exact fun found => found.elim (fun first => kept (dropped_iff.mpr first)) ih

theorem collapseEmptyLines_eq (feeds : ¬ ['\n', '\n', '\n'] <:+: cs) : collapseEmptyLines cs = cs := by
  induction cs with
  | nil => rfl
  | cons c cs ih =>
    rw [collapseEmptyLines_cons, ih fun inside => feeds (inside.trans (List.suffix_cons c cs).isInfix), if_neg]
    exact fun dropped => feeds (dropped_iff.mp dropped).isInfix

theorem filter_collapseEmptyLines (cs : List Char) : (collapseEmptyLines cs).filter (!isSpace ·) = cs.filter (!isSpace ·) := by
  induction cs with
  | nil => rfl
  | cons c cs ih =>
    rw [collapseEmptyLines_cons]
    split
    · rename_i dropped
      simp only [Bool.and_eq_true, beq_iff_eq] at dropped
      rw [ih, dropped.1, List.filter_cons_of_neg (by decide)]
    · rw [List.filter_cons, List.filter_cons, ih]

/-- A line feed is only dropped in front of another one. -/
theorem head?_collapseEmptyLines (cs : List Char) : (collapseEmptyLines cs).head? = cs.head? := by
  cases cs with
  | nil => rfl
  | cons c cs =>
    rw [collapseEmptyLines_cons]
    split
    · rename_i dropped
      obtain ⟨rfl, more, shape⟩ := List.cons_prefix_cons.mp (dropped_iff.mp dropped)
      rw [← shape]
      rfl
    · rfl

theorem blanks_collapseEmptyLines (h : ¬ [c, '\n'] <:+: cs) : ¬ [c, '\n'] <:+: collapseEmptyLines cs := by
  induction cs with
  | nil => exact h
  | cons d cs ih =>
    rw [List.infix_cons_iff, not_or] at h
    rw [collapseEmptyLines_cons]
    split
    · exact ih h.2
    · rw [List.infix_cons_iff, pair_prefix_cons, head?_collapseEmptyLines, ← pair_prefix_cons]
      exact fun found => found.elim h.1 (ih h.2)

/-! ### The ends of a text -/

theorem trim_isPrefix (cs : List Char) : trim cs <+: trimStart cs :=
  List.reverse_suffix.mp (by simpa [trim, trimEnd] using List.dropWhile_suffix _)

theorem trim_isInfix (cs : List Char) : trim cs <:+: cs := (trim_isPrefix cs).isInfix.trans (List.dropWhile_suffix _).isInfix

theorem starts_trimStart (cs : List Char) : (trimStart cs).head?.all (!isSpace ·) = true := by
  have first := List.head?_dropWhile_not isSpace cs
  rw [trimStart]
  cases head : (cs.dropWhile isSpace).head? with
  | none => rfl
  | some c => simpa [head] using first

theorem ends_trimEnd (cs : List Char) : (trimEnd cs).getLast?.all (!isSpace ·) = true := by
  rw [trimEnd, List.getLast?_reverse]
  exact starts_trimStart cs.reverse

/-- Taking white space off the end leaves the start as it is. -/
theorem starts_trim (cs : List Char) : (trim cs).head?.all (!isSpace ·) = true := by
  have start := starts_trimStart cs
  obtain ⟨rest, shape⟩ := trim_isPrefix cs
  cases taken : trim cs with
  | nil => rfl
  | cons c taken' =>
    rw [← shape, taken] at start
    exact start

theorem trim_eq (starts : cs.head?.all (!isSpace ·) = true) (ends : cs.getLast?.all (!isSpace ·) = true) : trim cs = cs := by
  have keeps : ∀ ds : List Char, ds.head?.all (!isSpace ·) = true → ds.dropWhile isSpace = ds := by
    intro ds solid
    cases ds with
    | nil => rfl
    | cons d ds => exact List.dropWhile_cons_of_neg (by simpa using solid)
  rw [trim, trimStart, keeps cs starts, trimEnd, keeps _ (by rwa [List.head?_reverse]), List.reverse_reverse]

theorem filter_trim (cs : List Char) : (trim cs).filter (!isSpace ·) = cs.filter (!isSpace ·) := by
  have front : ∀ ds : List Char, (ds.dropWhile isSpace).filter (!isSpace ·) = ds.filter (!isSpace ·) := by
    intro ds
    induction ds with
    | nil => rfl
    | cons d ds ih =>
      rw [List.dropWhile_cons]
      split
      · rename_i space
        rw [ih, List.filter_cons_of_neg (by simp [space])]
      · rfl
  rw [trim, trimEnd, trimStart, List.filter_reverse, front, List.filter_reverse, front, List.reverse_reverse]

/-! ### The pass -/

theorem neat_tidyWhitespace (cs : List Char) : Neat (tidyWhitespace cs) where
  blanks _ blank inside := blanks_collapseEmptyLines (blanks_dropTrailingBlanks blank cs) (inside.trans (trim_isInfix _))
  feeds inside := feeds_collapseEmptyLines _ (inside.trans (trim_isInfix _))
  starts := starts_trim _
  ends := ends_trimEnd _

theorem Neat.tidyWhitespace_eq (h : Neat cs) : tidyWhitespace cs = cs := by
  rw [tidyWhitespace, dropTrailingBlanks_eq h.blanks, collapseEmptyLines_eq h.feeds, trim_eq h.starts h.ends]

theorem filter_tidyWhitespace (cs : List Char) : (tidyWhitespace cs).filter (!isSpace ·) = cs.filter (!isSpace ·) := by
  rw [tidyWhitespace, filter_trim, filter_collapseEmptyLines, filter_dropTrailingBlanks]

end Polish

/-- Behind the last pass the white space of a text is tidy, a second run changes nothing, and the characters that are no white
space are those of the text, in their order. -/
theorem whitespace_normalizes (code : String) :
    Pass.whitespace.run (Pass.whitespace.run code) = Pass.whitespace.run code ∧
      Polish.Neat (Pass.whitespace.run code).toList ∧
      (Pass.whitespace.run code).toList.filter (!Text.isSpace ·) = code.toList.filter (!Text.isSpace ·) := by
  have chars : (Pass.whitespace.run code).toList = Polish.tidyWhitespace code.toList := String.toList_ofList
  have neat := Polish.neat_tidyWhitespace code.toList
  refine ⟨?_, by rwa [chars], by rw [chars, Polish.filter_tidyWhitespace]⟩
  rw [Pass.run, chars, Pass.runOn, neat.tidyWhitespace_eq]
  rfl

end NoteScript

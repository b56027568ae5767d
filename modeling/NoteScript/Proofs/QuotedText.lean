import NoteScript.Proofs.Frame
import NoteScript.Proofs.StringValues

/-!
# Quoted text

A text between double quotes has three readers: Lua, which takes its escapes back, and the passes, which look for its end and
then for what they change elsewhere. Both go by pieces of one or two characters, and these are the ones that are written.

* `value_quoteChar`, `QuotedBody.quoteChar`: what is written for a character is one piece for either reader.
* `cuts_front`: without a quote or a comment in it, a text in front of a string changes nothing about it.
* `quote_reads_back`: a quoted text has the value that was quoted, and is kept by the passes behind any such text.
-/

namespace NoteScript

open Literal Polish

/-- What is written for a character stands for it in Lua. -/
theorem Literal.value_quoteChar (c : Char) (rest : List Char) :
    lua.value (quoteChar c ++ rest) = (lua.value rest).map (String.utf8EncodeChar c ++ ·) := by
  unfold quoteChar
  split
  · exact lua.value_escape ['\\'] rfl
  · exact lua.value_escape ['"'] rfl
  · exact lua.value_escape ['n'] rfl
  · exact lua.value_escape ['r'] rfl
  · exact lua.value_escape ['t'] rfl
  · exact lua.value_plain (by assumption) (if_neg (by simp_all)) rest

namespace Polish

theorem QuotedBody.quoteChar {rest : List Char} (h : QuotedBody rest) (c : Char) : QuotedBody (Literal.quoteChar c ++ rest) := by
  unfold Literal.quoteChar
  split
  case h_6 => exact .char (by simp_all) h
  all_goals exact .escape _ h

/-- A minus opens no comment without a second one. -/
theorem spanAt_minus {rest : List Char} (single : rest.head? ≠ some '-') (before : Option Char) : spanAt before ('-' :: rest) = 0 := by
  unfold spanAt
  split <;> simp_all

/-- A text without quotes and comments in front of a string. -/
theorem cuts_front {front string : List Char} {l : Layout} (quotes : '"' ∉ front) (comments : ¬ ['-', '-'] <:+: front)
    (opens : string.head? = some '"') (h : ∀ before, Cuts before string l) (before : Option Char) :
    Cuts before (front ++ string) (l.push front) := by
  induction front generalizing before with
  | nil => exact h before
  | cons c front ih =>
    obtain ⟨other, later⟩ := List.ne_and_not_mem_of_not_mem_cons quotes
    obtain ⟨first, further⟩ := not_or.mp (mt List.infix_cons_iff.mpr comments)
    have free : spanAt before (c :: (front ++ string)) = 0 := by
      by_cases minus : c = '-'
      · subst minus
        refine spanAt_minus ?_ before
        rintro second
        cases front <;> simp_all
      · exact spanAt_eq_zero (by simp [spanStarts, other.symm, minus]) _
    exact .char (spanAt_eq_zero_iff.mp free) (ih later further (some c))

end Polish

open Polish Literal

/-- A text that is quoted has itself as its value in Lua. Behind a text without quotes and comments it is the only string, from
its first character to its last one, and the passes for compound assignments and for indices leave it as it is. -/
theorem quote_reads_back (t : String) : stringBytes? (quote t) = some (t.toList.flatMap String.utf8EncodeChar) ∧
      ∀ front : String, '"' ∉ front.toList → ¬ ['-', '-'] <:+: front.toList →
        layout (front ++ quote t).toList = ⟨front.toList, [((quote t).toList, [])]⟩ ∧
          mark (front ++ quote t).toList = bare front.toList ++ guarded (quote t).toList ∧
          (∃ new, Pass.compound.run (front ++ quote t) = new ++ quote t) ∧
          ∃ new, Pass.indices.run (front ++ quote t) = new ++ quote t := by
  have value : lua.value (t.toList.flatMap quoteChar) = some (t.toList.flatMap String.utf8EncodeChar) := by
    induction t.toList with
    | nil => rfl
    | cons c cs ih => rw [List.flatMap_cons, value_quoteChar, ih, List.flatMap_cons, Option.map_some]
  have inside : QuotedBody (t.toList.flatMap quoteChar) := by
    induction t.toList with
    | nil => exact .nil
    | cons c cs ih => exact ih.quoteChar c
  refine ⟨by rw [quote, stringBytes?_quoted, value], fun front quotes comments => ?_⟩
  have chars : (quote t).toList = '"' :: (t.toList.flatMap quoteChar ++ ['"']) := String.toList_ofList
  have alone : ∀ before, Cuts before (quote t).toList (Layout.add (quote t).toList ⟨[], []⟩) := by
    intro before
    rw [chars]
    exact .span (List.append_nil _).symm (.string inside) .nil
  have cuts := cuts_front quotes comments (by rw [chars]; rfl) alone none
  rw [← String.toList_append] at cuts
  have same : layout (front ++ quote t).toList = ⟨front.toList, [((quote t).toList, [])]⟩ := by
    rw [(cuts_layout _).eq cuts]
    simp [Layout.push, Layout.add]
  have marked : mark (front ++ quote t).toList = bare front.toList ++ guarded (quote t).toList := by
    rw [mark_eq, same]
    simp [Layout.glyphs, bare]
  refine ⟨same, marked, ?_, ?_⟩
  · have keeps := keeps_replaceIn harmless_compoundHit? (front ++ quote t).toList
    rw [marked, ← List.append_nil (guarded _)] at keeps
    obtain ⟨new, out, written, behind⟩ := keeps.exists_bare
    obtain ⟨out, rfl, ⟨⟩⟩ := behind.exists_guarded
    refine ⟨String.ofList new, ?_⟩
    rw [Pass.run, Pass.runOn, written]
    simp
  · have first : ∀ g ∈ (guarded (quote t).toList ++ []).head?, g.char ∈ spanStarts := by
      rw [chars]
      rintro g ⟨⟩
      decide
    obtain ⟨new, -, written⟩ := exists_shifts front.toList (indexHit?_append first) none
    rw [replaceHits_index_span, List.append_nil, ← marked] at written
    refine ⟨String.ofList new, ?_⟩
    rw [Pass.run, Pass.runOn, replaceIn, written]
    simp [replaceHits]

/-- A quote behind a backslash, in front of a minus and an index that the passes would change. -/
theorem quote_reads_back_escapes : '"' ∉ "n -= ".toList ∧ ¬ ['-', '-'] <:+: "n -= ".toList ∧
    (quote "\\\" - a[0]").toList = "\"\\\\\\\" - a[0]\"".toList ∧
      ∃ new, Pass.indices.run ("n -= " ++ quote "\\\" - a[0]") = new ++ quote "\\\" - a[0]" := by
  have quotes : '"' ∉ "n -= ".toList := by decide
  have comments : ¬ ['-', '-'] <:+: "n -= ".toList := by decide
  exact ⟨quotes, comments, by decide, ((quote_reads_back _).2 _ quotes comments).2.2.2⟩

end NoteScript

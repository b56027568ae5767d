import Mathlib.Data.List.Basic
import NoteScript.Token.Scan

/-!
# Cutting loses nothing

`tokenize` gives back every text it is given. What makes it so is that each class of tokens has an
extent which is neither zero nor longer than the text at hand:

* `first_size_pos`, `first_size_le`: the token that a text starts with takes one character at least and
  no more than there are, whatever is malformed or never closed.
* `scanFrom_cut`: the tokens are cut one behind the other, each with the kind and the extent that
  `first` gives at its place.
* `tokenize_lossless`: one closing token, at the end; no other token is empty; the texts in a row are
  the source.
-/

namespace NoteScript.Token

/-! ### Extents stay within the text -/

theorem run_le (p : Char → Bool) (cs : List Char) : run p cs ≤ cs.length := (List.takeWhile_sublist p).length_le

/-- A run that starts with a character of its class takes that character. -/
theorem run_pos {p : Char → Bool} {c : Char} (rest : List Char) (h : p c = true) : 0 < run p (c :: rest) := by
  simp [run, h]

theorem blockCommentExtent_le (cs : List Char) : blockCommentExtent cs ≤ cs.length := by
  fun_induction blockCommentExtent cs with
  | case1 | case2 => simp
  | case3 c rest _ ih =>
    simp only [List.length_cons]
    omega

theorem stringExtent_le (quote : Char) (cs : List Char) : stringExtent quote cs ≤ cs.length := by
  fun_induction stringExtent quote cs <;> simp only [List.length_cons, List.length_nil] at * <;> omega

theorem regexBodyExtent_le (inClass : Bool) (cs : List Char) : regexBodyExtent inClass cs ≤ cs.length := by
  fun_induction regexBodyExtent inClass cs <;> simp only [List.length_cons, List.length_nil] at * <;>
    omega

theorem regexExtent_le (cs : List Char) : regexExtent cs ≤ cs.length := by
  have body := regexBodyExtent_le false cs
  have flags := run_le isRegexFlag (cs.drop (regexBodyExtent false cs))
  rw [List.length_drop] at flags
  unfold regexExtent
  dsimp only
  omega

/-! ### Numbers -/

theorem fractionExtent_le (cs : List Char) : fractionExtent cs ≤ cs.length := by
  unfold fractionExtent
  split
  · rename_i rest
    have digits := run_le Char.isDigit rest
    simp only [List.length_cons]
    omega
  · exact Nat.zero_le _

theorem exponentDigitsExtent_le (cs : List Char) : exponentDigitsExtent cs ≤ cs.length := by
  unfold exponentDigitsExtent
  split
  · rename_i c rest
    have digits := run_le Char.isDigit rest
    split
    · simp only [List.length_cons]
      omega
    · exact run_le _ _
  · exact Nat.zero_le _

theorem exponentExtent_le (cs : List Char) : exponentExtent cs ≤ cs.length := by
  unfold exponentExtent
  split
  · rename_i c rest
    have digits := exponentDigitsExtent_le rest
    split
    · simp only [List.length_cons]
      omega
    · exact Nat.zero_le _
  · exact Nat.zero_le _

theorem decimalExtent_le (cs : List Char) : decimalExtent cs ≤ cs.length := by
  have whole := run_le Char.isDigit cs
  have fraction := fractionExtent_le (cs.drop (run Char.isDigit cs))
  have exponent := exponentExtent_le
    (cs.drop (run Char.isDigit cs + fractionExtent (cs.drop (run Char.isDigit cs))))
  rw [List.length_drop] at fraction exponent
  unfold decimalExtent
  dsimp only
  omega

theorem numberExtent_le (cs : List Char) : numberExtent cs ≤ cs.length := by
  unfold numberExtent
  split
  · rename_i rest
    have digits := run_le isHexDigit rest
    simp only [List.length_cons]
    omega
  · rename_i rest
    have digits := run_le isHexDigit rest
    simp only [List.length_cons]
    omega
  · exact decimalExtent_le cs

/-- What starts with a digit, or with a point in front of one, is a number of one character at least. -/
theorem numberExtent_pos {c : Char} {rest : List Char} (h : (c.isDigit || (c == '.' && rest.head?.any Char.isDigit)) = true) :
    0 < numberExtent (c :: rest) := by
  unfold numberExtent
  split
  · omega
  · omega
  · unfold decimalExtent
    by_cases digit : c.isDigit = true
    · have whole := run_pos rest digit
      dsimp only
      omega
    · -- no digit in front of the point, so the fraction takes the point
      have point : c = '.' := by
        simp only [digit, Bool.false_or, Bool.and_eq_true, beq_iff_eq] at h
        exact h.1
      subst point
      have whole : run Char.isDigit ('.' :: rest) = 0 := by simp [run]
      simp only [whole, List.drop_zero, fractionExtent]
      omega

/-! ### Templates and symbols -/

theorem templateBody_le (depth : Nat) (held cs : List Char) : (templateBody depth held cs).2 ≤ cs.length := by
  fun_induction templateBody depth held cs <;> simp_all only [List.length_cons, List.length_nil] <;> omega

theorem longOperators_pos {op : List Char} (h : op ∈ longOperators) : 0 < op.length := by
  revert op
  decide

theorem symbol_size_pos (c : Char) (rest : List Char) : 0 < (symbol c rest).2 := by
  unfold symbol
  split
  · rename_i op found
    exact longOperators_pos (List.mem_of_find?_eq_some found)
  · split_ifs <;> exact Nat.one_pos

theorem symbol_size_le (c : Char) (rest : List Char) : (symbol c rest).2 ≤ rest.length + 1 := by
  unfold symbol
  split
  · rename_i op found
    have isPrefix := List.find?_some found
    rw [List.isPrefixOf_iff_prefix] at isPrefix
    simpa using isPrefix.length_le
  · split_ifs <;> simp

/-- A symbol neither closes the token list nor is a comment. -/
theorem symbol_kind_notMem (c : Char) (rest : List Char) : (symbol c rest).1 ∉ [.endOfText, .comment] := by
  unfold symbol
  split
  · simp
  · split_ifs <;> simp

/-! ### The token that a text starts with -/

/-- What a text can start with, and what is known of it then. -/
theorem first_induction {P : Kind × Nat → Prop} (divides : Bool) (c : Char) (rest : List Char) (newline : P (.newline, 1))
    (space : isInlineSpace c = true → P (.space, run isInlineSpace (c :: rest)))
    (line : c = '/' → rest.head? = some '/' → P (.comment, run (· != '\n') (c :: rest)))
    (block : c = '/' → rest.head? = some '*' → P (.comment, 2 + blockCommentExtent rest.tail))
    (template : c = backtick → P (.template (templateBody 0 [] rest).1, 1 + (templateBody 0 [] rest).2))
    (string : P (.string, 1 + stringExtent c rest)) (regex : P (.regex, 1 + regexExtent rest))
    (number : (c.isDigit || (c == '.' && rest.head?.any Char.isDigit)) = true → P (.number, numberExtent (c :: rest)))
    (name : startsName c = true → P (.identifier, run continuesName (c :: rest))) (symbol : P (symbol c rest)) :
    P (first divides c rest) := by
  unfold first
  refine iteInduction (fun _ => newline) fun _ => iteInduction space fun _ => iteInduction (fun slashes => ?_) fun _ =>
    iteInduction (fun opens => ?_) fun _ => iteInduction (fun marked => template (eq_of_beq marked)) fun _ =>
    iteInduction (fun _ => string) fun _ =>
    iteInduction (fun _ => regex) fun _ => iteInduction number fun _ => iteInduction name fun _ => symbol
  · obtain ⟨slash, further⟩ := Bool.and_eq_true_iff.mp slashes
    exact line (eq_of_beq slash) (eq_of_beq further)
  · obtain ⟨slash, further⟩ := Bool.and_eq_true_iff.mp opens
    exact block (eq_of_beq slash) (eq_of_beq further)

theorem first_size_pos (divides : Bool) (c : Char) (rest : List Char) : 0 < (first divides c rest).2 := by
  apply first_induction divides c rest (P := fun found => 0 < found.2)
  case newline => exact Nat.one_pos
  case space => exact run_pos rest
  case line =>
    rintro rfl -
    exact run_pos rest (by decide)
  case block => exact fun _ _ => Nat.add_pos_left Nat.two_pos _
  case template => exact fun _ => Nat.add_pos_left Nat.one_pos _
  case string => exact Nat.add_pos_left Nat.one_pos _
  case regex => exact Nat.add_pos_left Nat.one_pos _
  case number => exact numberExtent_pos
  case name =>
    intro name
    apply run_pos rest
    simp only [startsName, Bool.or_eq_true] at name
    simp only [continuesName, Text.isAlphanumeric, Bool.or_eq_true]
    tauto
  case symbol => exact symbol_size_pos c rest

theorem first_size_le (divides : Bool) (c : Char) (rest : List Char) : (first divides c rest).2 ≤ rest.length + 1 := by
  apply first_induction divides c rest (P := fun found => found.2 ≤ rest.length + 1)
  case newline => exact Nat.le_add_left _ _
  case space => exact fun _ => run_le isInlineSpace (c :: rest)
  case line => exact fun _ _ => run_le (· != '\n') (c :: rest)
  case block =>
    intro _ star
    -- the opening mark has a second character, so the tail is one shorter
    have inside := blockCommentExtent_le rest.tail
    have : 0 < rest.length := List.length_pos_of_mem (List.mem_of_mem_head? star)
    rw [List.length_tail] at inside
    dsimp only
    omega
  case template =>
    intro _
    have inside := templateBody_le 0 [] rest
    dsimp only
    omega
  case string =>
    have inside := stringExtent_le c rest
    dsimp only
    omega
  case regex =>
    have inside := regexExtent_le rest
    dsimp only
    omega
  case number => exact fun _ => numberExtent_le (c :: rest)
  case name => exact fun _ => run_le continuesName (c :: rest)
  case symbol => exact symbol_size_le c rest

theorem first_kind_ne (divides : Bool) (c : Char) (rest : List Char) : (first divides c rest).1 ≠ .endOfText := by
  apply first_induction divides c rest (P := fun found => found.1 ≠ .endOfText) <;> try simp
  exact fun ends => symbol_kind_notMem c rest (by simp [ends])

/-! ### Cutting -/

/-- `Cut divides cs ts`: the tokens `ts` cut the characters `cs` without a gap, each with the kind and
the extent that `first` gives at its place, where `divides` says whether a slash divides there. -/
inductive Cut : Bool → List Char → List Token → Prop where
  | done {divides : Bool} : Cut divides [] []
  | token {divides : Bool} {c : Char} {rest after : List Char} {t : Token} {ts : List Token} :
      t.kind = (first divides c rest).1 → t.text.length = (first divides c rest).2 →
      t.text.toList ++ after = c :: rest →
      Cut (if t.isTrivia then divides else t.endsOperand) after ts → Cut divides (c :: rest) (t :: ts)

theorem scanFrom_cut (divides : Bool) (cs : List Char) : Cut divides cs (scanFrom divides cs) := by
  fun_induction scanFrom divides cs with
  | case1 => exact .done
  | case2 divides c rest kind size found token ih =>
    have positive := first_size_pos divides c rest
    have within := first_size_le divides c rest
    rw [found] at positive within
    dsimp only at positive within
    refine .token ?_ ?_ ?_ ih
    · rw [found]
    · rw [found]
      simp only [token, String.length_ofList, List.length_cons, List.length_take]
      omega
    · simp [token]

namespace Cut

variable {divides : Bool} {cs : List Char} {ts : List Token}

/-- A cut keeps every character. -/
theorem join_eq (h : Cut divides cs ts) : (ts.flatMap fun t => t.text.toList) = cs := by
  induction h with
  | done => rfl
  | token _ _ split _ ih => rw [List.flatMap_cons, ih, split]

/-- Every token of a cut has a text, and none closes the token list. -/
theorem mem_nonempty (h : Cut divides cs ts) : ∀ t ∈ ts, t.isEof = false ∧ t.text ≠ "" := by
  induction h with
  | done => simp
  | @token divides c rest after t ts kind size _ _ ih =>
    intro u hu
    rcases List.mem_cons.mp hu with rfl | later
    · refine ⟨?_, ?_⟩
      · simpa [isEof, kind] using first_kind_ne divides c rest
      · rintro empty
        have positive := first_size_pos divides c rest
        rw [← size, empty] at positive
        exact absurd positive (by decide)
    · exact ih u later

end Cut

/-- Cutting is total and loses nothing: the token list of any text has one closing token, which is its
last, all other tokens have a text of their own, cut at the extents of their classes, and the texts in a
row are the source. -/
theorem tokenize_lossless (source : String) :
    ∃ ts, tokenize source = ts ++ [eof] ∧ (∀ t ∈ ts, t.isEof = false ∧ t.text ≠ "") ∧
      sourceText (tokenize source) = source ∧ Cut false source.toList ts := by
  have cut := scanFrom_cut false source.toList
  refine ⟨scan source, rfl, cut.mem_nonempty, ?_, cut⟩
  have joined := cut.join_eq
  apply String.toList_inj.mp
  rw [sourceText, String.toList_join, List.flatMap_map, tokenize, List.flatMap_append]
  simpa [eof, scan] using joined

end NoteScript.Token

import NoteScript.Proofs.Lossless
import NoteScript.Proofs.Spelling

/-!
# Numbers and strings are cut as they were spelled

The literals that a token of their own kind is cut for, with all their forms: a number may be hexadecimal or have a fraction
and an exponent, and in a string a backslash takes the next character with it.

* `isNumberText`, `isStringText`: the texts that are one number and one string.
* `ReadBack.number`, `ReadBack.string`: such texts are cut back in front of other tokens.
-/

namespace NoteScript.Token

open Text

/-! ### Numbers -/

/-- A character that can go on with a number. -/
def continuesNumber (c : Char) : Bool := isHexDigit c || ['.', '+', '-', 'x', 'X'].contains c

section Number

variable {d : Char} {rest : List Char}

theorem run_append_cons {p : Char → Bool} (outside : p d = false) (cs : List Char) : run p (cs ++ d :: rest) = run p cs := by
  rw [run, takeWhile_append_of_head? fun c hc => by cases hc; exact outside, run]

section

variable (outside : continuesNumber d = false)
include outside

theorem isDigit_of_continuesNumber : isHexDigit d = false ∧ d.isDigit = false := by
  rw [continuesNumber, Bool.or_eq_false_iff] at outside
  refine ⟨outside.1, ?_⟩
  rw [isHexDigit, Bool.or_eq_false_iff, Bool.or_eq_false_iff] at outside
  exact outside.1.1.1

theorem ne_of_continuesNumber {c : Char} (inside : continuesNumber c = true) : d ≠ c := by
  rintro rfl
  simp [inside] at outside

theorem fractionExtent_append (cs : List Char) : fractionExtent (cs ++ d :: rest) = fractionExtent cs := by
  have digit := (isDigit_of_continuesNumber outside).2
  have point := ne_of_continuesNumber outside (by decide : continuesNumber '.' = true)
  cases cs with
  | nil => exact fractionExtent_eq_zero (by simpa using point)
  | cons c cs =>
    by_cases begins : c = '.'
    · subst begins
      exact congrArg (1 + ·) (run_append_cons digit cs)
    · have nothing : ∀ cs, fractionExtent (c :: cs) = 0 := fun _ => fractionExtent_eq_zero (by simpa using begins)
      rw [List.cons_append, nothing, nothing]

theorem exponentDigitsExtent_append (cs : List Char) : exponentDigitsExtent (cs ++ d :: rest) = exponentDigitsExtent cs := by
  have digit := (isDigit_of_continuesNumber outside).2
  have plus := ne_of_continuesNumber outside (by decide : continuesNumber '+' = true)
  have minus := ne_of_continuesNumber outside (by decide : continuesNumber '-' = true)
  cases cs with
  | nil => simp [exponentDigitsExtent, plus, minus, run, digit]
  | cons c cs =>
    rw [List.cons_append, exponentDigitsExtent, exponentDigitsExtent, run_append_cons digit, ← List.cons_append,
      run_append_cons digit]

theorem exponentExtent_append (cs : List Char) : exponentExtent (cs ++ d :: rest) = exponentExtent cs := by
  have small := ne_of_continuesNumber outside (by decide : continuesNumber 'e' = true)
  have large := ne_of_continuesNumber outside (by decide : continuesNumber 'E' = true)
  cases cs with
  | nil => simp [exponentExtent, small, large]
  | cons c cs => rw [List.cons_append, exponentExtent, exponentExtent, exponentDigitsExtent_append outside]

theorem decimalExtent_append (cs : List Char) : decimalExtent (cs ++ d :: rest) = decimalExtent cs := by
  have digit := (isDigit_of_continuesNumber outside).2
  have whole := run_le Char.isDigit cs
  have fraction := fractionExtent_le (cs.drop (run Char.isDigit cs))
  rw [List.length_drop] at fraction
  simp only [decimalExtent, run_append_cons digit, List.drop_append_of_le_length whole, fractionExtent_append outside]
  rw [List.drop_append_of_le_length (by omega), exponentExtent_append outside]

/-- A number ends in front of a character that cannot go on with it. -/
theorem numberExtent_append (cs : List Char) : numberExtent (cs ++ d :: rest) = numberExtent cs := by
  have hex := (isDigit_of_continuesNumber outside).1
  fun_cases numberExtent cs with
  | case1 cs | case2 cs => exact congrArg (2 + ·) (run_append_cons hex cs)
  | case3 cs noSmall noLarge =>
    have notHex : ∀ mark, continuesNumber mark = true → (∀ tail, cs = '0' :: mark :: tail → False) →
        ∀ tail, cs ++ d :: rest ≠ '0' :: mark :: tail := by
      intro mark inside decimal tail same
      rcases cs with _ | ⟨c, _ | ⟨c', cs⟩⟩
      · exact ne_of_continuesNumber outside (by decide : continuesNumber '0' = true) (List.cons.inj same).1
      · exact ne_of_continuesNumber outside inside (List.cons.inj (List.cons.inj same).2).1
      · obtain ⟨rfl, further⟩ := List.cons.inj same
        obtain ⟨rfl, -⟩ := List.cons.inj further
        exact decimal cs rfl
    rw [← decimalExtent_append outside]
    unfold numberExtent
    split
    · rename_i same
      exact absurd same (notHex 'x' (by decide) noSmall _)
    · rename_i same
      exact absurd same (notHex 'X' (by decide) noLarge _)
    · rfl

end

end Number

/-- A text that is one number, decimal or hexadecimal. -/
def isNumberText (s : String) : Bool := match s.toList with
  | [] => false
  | c :: cs => (c.isDigit || (c == '.' && cs.head?.any Char.isDigit)) && numberExtent (c :: cs) == cs.length + 1

theorem isSpace_of_continuesNumber {c : Char} (h : continuesNumber c = true) : isSpace c = false := by
  have all : ∀ c ∈ spaceCodes.map Char.ofNat, continuesNumber c = false := by decide +kernel
  rw [Bool.eq_false_iff]
  intro space
  simp [all c (mem_of_isSpace space)] at h

theorem exists_of_isNumberText {s : String} (isNumber : isNumberText s = true) : ∃ c cs, s.toList = c :: cs ∧
    (c.isDigit || (c == '.' && cs.head?.any Char.isDigit)) = true ∧ numberExtent (c :: cs) = cs.length + 1 := by
  rw [isNumberText] at isNumber
  split at isNumber
  · cases isNumber
  · rename_i c cs chars
    rw [Bool.and_eq_true, beq_iff_eq] at isNumber
    exact ⟨c, cs, chars, isNumber⟩

theorem head_of_isNumberText {s : String} (isNumber : isNumberText s = true) :
    ∃ c, s.toList.head? = some c ∧ continuesNumber c = true := by
  obtain ⟨c, cs, chars, starts, -⟩ := exists_of_isNumberText isNumber
  refine ⟨c, by rw [chars, List.head?_cons], ?_⟩
  rw [Bool.or_eq_true, Bool.and_eq_true, beq_iff_eq] at starts
  rcases starts with digit | ⟨rfl, -⟩
  · simp [continuesNumber, isHexDigit, digit]
  · decide

/-- A number ends in a character of numbers: any other one at its end would not belong to it. -/
theorem last_of_isNumberText {s : String} (isNumber : isNumberText s = true) :
    ∃ c, s.toList.getLast? = some c ∧ continuesNumber c = true := by
  obtain ⟨c, cs, chars, -, extent⟩ := exists_of_isNumberText isNumber
  obtain ⟨front, last, split⟩ : ∃ front last, c :: cs = front ++ [last] := by
    rcases List.eq_nil_or_concat (c :: cs) with impossible | ⟨front, last, split⟩
    · cases impossible
    · exact ⟨front, last, split.trans List.concat_eq_append⟩
  refine ⟨last, by rw [chars, split, List.getLast?_concat], ?_⟩
  by_contra outside
  rw [Bool.not_eq_true] at outside
  -- without its last character the text is as long a number
  have size := congrArg List.length split
  have within := numberExtent_le front
  rw [split, numberExtent_append outside] at extent
  simp only [List.length_cons, List.length_append, List.length_nil] at size
  omega

/-! ### Strings -/

/-- Does the rest of a text close a string at its very end? -/
def closesString (quote : Char) : List Char → Bool
  | [] => false
  | c :: rest =>
    if c == quote then rest.isEmpty
    else if c == '\\' then
      match rest with
      | [] => false
      | _ :: rest' => closesString quote rest'
    else closesString quote rest

/-- A text that is one string between quotes of either kind. -/
def isStringText (s : String) : Bool := match s.toList with
  | [] => false
  | quote :: cs => ['\'', '"'].contains quote && closesString quote cs

theorem exists_of_isStringText {s : String} (isString : isStringText s = true) : ∃ quote cs, s.toList = quote :: cs ∧
    quote ∈ ['\'', '"'] ∧ closesString quote cs = true := by
  rw [isStringText] at isString
  split at isString
  · cases isString
  · rename_i quote cs chars
    rw [Bool.and_eq_true, List.contains_iff_mem] at isString
    exact ⟨quote, cs, chars, isString⟩

theorem stringExtent_append {quote : Char} {cs : List Char} (closes : closesString quote cs = true) (rest : List Char) :
    stringExtent quote (cs ++ rest) = cs.length := by
  fun_induction closesString quote cs with
  | case1 | case3 c other escapes => cases closes
  | case2 c cs ends =>
    obtain rfl : cs = [] := by simpa using closes
    rw [List.singleton_append]
    unfold stringExtent
    rw [if_pos ends]
    rfl
  | case4 c other escapes d cs ih =>
    rw [List.cons_append, List.cons_append, stringExtent, if_neg other, if_pos escapes, ih closes, List.length_cons,
      List.length_cons]
    omega
  | case5 c cs other plain ih =>
    rw [List.cons_append]
    unfold stringExtent
    rw [if_neg other, if_neg plain, ih closes, List.length_cons, Nat.add_comm]

/-! ### Cutting them back -/

theorem first_eq_number {divides : Bool} {c : Char} {rest : List Char}
    (starts : (c.isDigit || (c == '.' && rest.head?.any Char.isDigit)) = true) :
    first divides c rest = (.number, numberExtent (c :: rest)) := by
  have marks : ∀ c ∈ digits ++ ['.'], (c == '\n') = false ∧ isInlineSpace c = false ∧ (c == '/') = false ∧
      (c == backtick) = false ∧ (c == '\'') = false ∧ (c == '"') = false := by decide
  have known : c ∈ digits ++ ['.'] := by
    rw [Bool.or_eq_true, Bool.and_eq_true, beq_iff_eq] at starts
    rcases starts with digit | ⟨rfl, -⟩
    · exact List.mem_append_left ['.'] (mem_of_isDigit digit)
    · decide
  obtain ⟨newline, space, slash, back, single, double⟩ := marks c known
  simp only [first, newline, space, slash, back, single, double, starts, Bool.false_and, Bool.or_self, Bool.false_eq_true,
    if_false, if_true]

theorem ReadBack.number {text : String} {rest : List Token} (isNumber : isNumberText text = true) (h : ReadBack rest)
    (ends : (rest.flatMap fun t => t.text.toList).head?.any (!continuesNumber ·) = true) :
    ReadBack (⟨.number, text⟩ :: rest) := by
  obtain ⟨c, cs, chars, starts, extent⟩ := exists_of_isNumberText isNumber
  refine h.cons chars fun divides => ?_
  generalize rest.flatMap (fun t => t.text.toList) = tail at ends
  rcases tail with _ | ⟨d, tail⟩
  · cases ends
  · have starts' : (c.isDigit || (c == '.' && (cs ++ d :: tail).head?.any Char.isDigit)) = true := by
      cases cs with
      | nil =>
        have digit : c.isDigit = true := by simpa using starts
        rw [digit, Bool.true_or]
      | cons => exact starts
    rw [first_eq_number starts', ← List.cons_append, numberExtent_append (by simpa using ends), extent]

theorem ReadBack.string {text : String} {rest : List Token} (isString : isStringText text = true) (h : ReadBack rest) :
    ReadBack (⟨.string, text⟩ :: rest) := by
  obtain ⟨quote, cs, chars, known, closes⟩ := exists_of_isStringText isString
  refine h.cons chars fun divides => ?_
  rw [← stringExtent_append closes (rest.flatMap fun t => t.text.toList), Nat.add_comm]
  rcases List.mem_pair.mp known with rfl | rfl <;> rfl

end NoteScript.Token

import Mathlib.Tactic.Common
import NoteScript.Token.Extent

/-!
# Classes of characters

How the classes that tokens are cut by and the white space of the written text lie to each other. White
space and digits are finitely many characters, so each fact about them is checked one by one; the tables
of letters are never opened otherwise.
-/

namespace NoteScript.Text

variable {c : Char}

/-- What holds of the characters of a list is checked on the list, not on all characters. -/
instance decidableForallMem (p : Char → Prop) [DecidablePred p] (cs : List Char) : Decidable (∀ c ∈ cs, p c) :=
  List.decidableBAll p cs

/-- A reader that is told how many characters to pass over goes on behind them. -/
theorem skip_eq_drop {α β : Type} {f : Nat → List α → β} (skip : Nat) (cs : List α)
    (ended : ∀ skip, f skip [] = f 0 []) (passed : ∀ skip c cs, f (skip + 1) (c :: cs) = f skip cs) : f skip cs = f 0 (cs.drop skip) := by
  induction cs generalizing skip with
  | nil => rw [List.drop_nil, ended]
  | cons c cs ih =>
    cases skip with
    | zero => rfl
    | succ skip => rw [passed, List.drop_succ_cons, ih]

/-- All white space, by code point. -/
def spaceCodes : List Nat := [0x9, 0xa, 0xb, 0xc, 0xd, 0x1c, 0x1d, 0x1e, 0x1f, 0x20, 0x85, 0xa0, 0x1680, 0x2000, 0x2001, 0x2002,
   0x2003, 0x2004, 0x2005, 0x2006, 0x2007, 0x2008, 0x2009, 0x200a, 0x2028, 0x2029, 0x202f, 0x205f, 0x3000]

theorem mem_of_isSpace (h : isSpace c = true) : c ∈ spaceCodes.map Char.ofNat := by
  have all : ∀ r ∈ spaceRanges, ∀ k < r.2 + 1 - r.1, r.1 + k ∈ spaceCodes := by decide
  obtain ⟨r, mem, inside⟩ := List.any_eq_true.mp h
  simp only [Range.contains, Bool.and_eq_true, decide_eq_true_eq] at inside
  have code := all r mem (c.toNat - r.1) (by omega)
  rw [Nat.add_sub_cancel' inside.1] at code
  exact List.mem_map.mpr ⟨_, code, Char.ofNat_toNat c⟩

def digits : List Char := ['0', '1', '2', '3', '4', '5', '6', '7', '8', '9']

theorem mem_of_isDigit (h : c.isDigit = true) : c ∈ digits := by
  have all : ∀ k < 10, Char.ofNat (48 + k) ∈ digits := by decide
  have value : c.toNat = c.val.toNat := rfl
  have zero : '0'.val.toNat = 48 := rfl
  have nine : '9'.val.toNat = 57 := rfl
  simp only [Char.isDigit, Bool.and_eq_true, decide_eq_true_eq, ge_iff_le, UInt32.le_iff_toNat_le] at h
  have listed := all (c.toNat - 48) (by omega)
  rw [Nat.add_sub_cancel' (by omega), Char.ofNat_toNat] at listed
  exact listed

theorem isWord_of_isDigit (h : c.isDigit = true) : isWord c = true := by
  have all : ∀ c ∈ digits, isWord c = true := by decide
  exact all c (mem_of_isDigit h)

/-- The decimal digits of all scripts are among the numerals. -/
theorem isWord_of_isDecimal (h : isDecimal c = true) : isWord c = true := by
  have tables : ∀ r ∈ decimalRanges, ∃ r' ∈ numeralRanges, r'.1 ≤ r.1 ∧ r.2 ≤ r'.2 := by decide +kernel
  have numeral : isNumeral c = true := by
    rw [isDecimal, digitValue?] at h
    rw [isNumeral]
    split at h
    · rename_i ascii
      rw [if_pos ascii]
      cases digit : c.isDigit with
      | true => rfl
      | false => simp [digit] at h
    · rename_i ascii
      rw [Option.isSome_map, List.find?_isSome] at h
      obtain ⟨r, mem, inside⟩ := h
      obtain ⟨r', mem', low, high⟩ := tables r mem
      simp only [Range.contains, Bool.and_eq_true, decide_eq_true_eq] at inside
      have wider : r'.contains c = true := by
        simp only [Range.contains, Bool.and_eq_true, decide_eq_true_eq]
        omega
      rw [if_neg ascii]
      exact List.any_eq_true.mpr ⟨r', mem', wider⟩
  rw [isWord, isAlphanumeric, numeral, Bool.or_true, Bool.true_or]

/-! ### Decimal values -/

theorem digitValue?_of_isDigit (digit : c.isDigit = true) : digitValue? c = some (c.toNat - '0'.toNat) := by
  have small : c.toNat < 128 := by
    simp only [Char.isDigit, Bool.and_eq_true, decide_eq_true_eq] at digit
    have bound : c.val.toNat ≤ 57 := digit.2
    exact Nat.lt_of_le_of_lt bound (by decide)
  rw [digitValue?, if_pos small, if_pos digit]
  rfl

theorem isDecimal_of_isDigit (digit : c.isDigit = true) : isDecimal c = true := by
  rw [isDecimal, digitValue?_of_isDigit digit]
  rfl

/-- Digits are read as usual. -/
theorem decimalValue_eq {digits : List Char} (all : ∀ d ∈ digits, d.isDigit = true) :
    decimalValue digits = Nat.ofDigitChars 10 digits 0 := by
  have from' : ∀ n, digits.foldl (fun n c => 10 * n + (digitValue? c).getD 0) n = Nat.ofDigitChars 10 digits n := by
    induction digits with
    | nil => exact fun _ => rfl
    | cons d digits ih =>
      intro n
      obtain ⟨first, later⟩ := List.forall_mem_cons.mp all
      rw [List.foldl_cons, digitValue?_of_isDigit first, ih later]
      rfl
  exact from' 0

end NoteScript.Text

namespace NoteScript.Token

open Text

variable {c : Char}

/-! ### Names -/

/-- No name has white space in it. -/
theorem isSpace_of_continuesName (h : continuesName c = true) : isSpace c = false := by
  have all : ∀ c ∈ spaceCodes.map Char.ofNat, continuesName c = false := by decide +kernel
  rcases space : isSpace c with _ | _
  · rfl
  · simp [all c (mem_of_isSpace space)] at h

theorem continuesName_of_startsName (h : startsName c = true) : continuesName c = true := by
  simp only [startsName, Bool.or_eq_true] at h
  simp only [continuesName, isAlphanumeric, Bool.or_eq_true]
  tauto

theorem continuesName_of_isDigit (h : c.isDigit = true) : continuesName c = true := by
  have all : ∀ c ∈ digits, continuesName c = true := by decide
  exact all c (mem_of_isDigit h)

/-- No name starts with a digit. -/
theorem isDigit_of_startsName (h : startsName c = true) : c.isDigit = false := by
  have all : ∀ c ∈ digits, startsName c = false := by decide
  rcases digit : c.isDigit with _ | _
  · rfl
  · simp [all c (mem_of_isDigit digit)] at h

/-- A character of a name is not one that no name has. -/
theorem ne_of_continuesName (h : continuesName c = true) (other : Char) (outside : continuesName other = false) : c ≠ other := by
  rintro rfl
  simp [outside] at h

theorem isInlineSpace_of_isSpace (solid : isSpace c = false) : isInlineSpace c = false := by
  have all : ∀ c ∈ [' ', '\t', '\r'], isSpace c = true := by decide
  rw [Bool.eq_false_iff]
  intro inline
  simp [all c (by simpa [isInlineSpace, or_assoc] using inline)] at solid

theorem isInlineSpace_of_continuesName (h : continuesName c = true) : isInlineSpace c = false :=
  isInlineSpace_of_isSpace (isSpace_of_continuesName h)

end NoteScript.Token

import Mathlib.Data.List.TakeWhile
import NoteScript.Proofs.Characters
import NoteScript.Pattern

/-!
# The text of a regular expression

How a literal is written, and how far the conversion reads in one step.

* `IsLiteral`: body and flags between and behind the slashes. `splitLiteral_eq_some_iff`: a literal is split there.
* `IsClass`, `IsCount`: the text of a class and of a counted repetition. `classPiece_class`, `repetition?_count`: each of them is
  read as a whole.
* `convertFrom_write`, `convertFrom_repeat`: a step of the conversion, with the text behind it left open.
-/

namespace NoteScript.Pattern

open Text

variable {tail body rest cs : List Char} {c : Char} {r : Repetition}

/-! ### Body and flags -/

/-- The body stands between the first and the last slash and is not empty. The flags may be followed by one line feed. -/
def IsLiteral (literal body flags : List Char) : Prop := body ≠ [] ∧ (∀ c ∈ flags, Token.isRegexFlag c = true) ∧
    (literal = '/' :: body ++ '/' :: flags ∨ literal = '/' :: body ++ '/' :: flags ++ ['\n'])

/-- The flags behind the last slash. One line feed at the end is none of them. -/
def flagsOf (tail : List Char) : List Char := if tail.getLast? == some '\n' then tail.dropLast else tail

theorem ne_slash_of_mem_reverse (slash : '/' ∉ tail) : ∀ c ∈ tail.reverse, (c != '/') = true := by
  intro c mem
  rw [bne_iff_ne]
  rintro rfl
  exact slash (List.mem_reverse.mp mem)

theorem splitLiteral_tail (nonempty : body ≠ []) (slash : '/' ∉ tail) : splitLiteral ('/' :: body ++ '/' :: tail) =
      if (flagsOf tail).all Token.isRegexFlag then some (body, flagsOf tail) else none := by
  have inside := ne_slash_of_mem_reverse slash
  obtain ⟨last, front, reversed⟩ := List.exists_cons_of_ne_nil (mt List.reverse_eq_nil_iff.mp nonempty)
  have reverse : (body ++ '/' :: tail).reverse = tail.reverse ++ '/' :: last :: front := by simp [reversed]
  rw [List.cons_append, splitLiteral, reverse, List.takeWhile_append_of_pos inside, List.dropWhile_append_of_pos inside,
    List.takeWhile_cons_of_neg (by decide), List.dropWhile_cons_of_neg (by decide), List.append_nil, List.reverse_reverse]
  simp only [← reversed, List.reverse_reverse]
  rfl

theorem splitLiteral_slashes {flags : List Char} (nonempty : body ≠ []) (isFlag : ∀ c ∈ flags, Token.isRegexFlag c = true) :
    splitLiteral ('/' :: body ++ '/' :: flags) = some (body, flags) := by
  have slash : '/' ∉ flags := fun mem => absurd (isFlag _ mem) (by decide)
  have noFeed : (flags.getLast? == some '\n') = false := by
    refine beq_eq_false_iff_ne.mpr fun last => ?_
    exact absurd (isFlag _ (List.mem_of_getLast? last)) (by decide)
  have same : flagsOf flags = flags := by rw [flagsOf, noFeed, if_neg Bool.false_ne_true]
  rw [splitLiteral_tail nonempty slash, same, if_pos (List.all_eq_true.mpr isFlag)]

theorem exists_last_slash (slash : '/' ∈ rest) : ∃ front tail, rest = front ++ '/' :: tail ∧ '/' ∉ tail := by
  obtain ⟨tail, front, reversed, notMem⟩ := List.eq_append_cons_of_mem (List.mem_reverse.mpr slash)
  refine ⟨front.reverse, tail.reverse, ?_, mt List.mem_reverse.mp notMem⟩
  rw [← List.reverse_reverse rest, reversed]
  simp

theorem splitLiteral_no_slash (slash : '/' ∉ rest) : splitLiteral ('/' :: rest) = none := by
  have none : rest.reverse.dropWhile (· != '/') = [] := by
    rw [← List.append_nil rest.reverse, List.dropWhile_append_of_pos (ne_slash_of_mem_reverse slash), List.dropWhile_nil]
  rw [splitLiteral, none]

theorem splitLiteral_no_body (slash : '/' ∉ tail) : splitLiteral ('/' :: '/' :: tail) = none := by
  rw [splitLiteral, List.reverse_cons, List.dropWhile_append_of_pos (ne_slash_of_mem_reverse slash),
    List.dropWhile_cons_of_neg (by decide)]

theorem flagsOf_cases (tail : List Char) : tail = flagsOf tail ∨ tail = flagsOf tail ++ ['\n'] := by
  rw [flagsOf]
  split
  · rename_i feed
    obtain ⟨front, rfl⟩ := List.getLast?_eq_some_iff.mp (eq_of_beq feed)
    rw [List.dropLast_concat]
    exact .inr rfl
  · exact .inl rfl

theorem splitLiteral_eq_some_iff {literal flags : List Char} :
    splitLiteral literal = some (body, flags) ↔ IsLiteral literal body flags := by
  constructor
  · intro found
    cases literal with
    | nil => cases found
    | cons c rest =>
      by_cases start : c = '/'
      · subst start
        by_cases slash : '/' ∈ rest
        · obtain ⟨front, tail, rfl, last⟩ := exists_last_slash slash
          by_cases empty : front = []
          · subst empty
            simp [List.nil_append, splitLiteral_no_body last] at found
          · rw [← List.cons_append, splitLiteral_tail empty last, Option.ite_none_right_eq_some] at found
            obtain ⟨all, same⟩ := found
            obtain ⟨rfl, rfl⟩ := Prod.mk.inj (Option.some.inj same)
            refine ⟨empty, List.all_eq_true.mp all, ?_⟩
            rcases flagsOf_cases tail with same | same
            · exact .inl (by rw [← same, List.cons_append])
            · exact .inr (by simpa using same)
        · simp [splitLiteral_no_slash slash] at found
      · simp [splitLiteral.eq_2 (c :: rest) fun _ same => start (List.cons.inj same).1] at found
  · rintro ⟨nonempty, isFlag, rfl | rfl⟩
    · exact splitLiteral_slashes nonempty isFlag
    · have slash : '/' ∉ flags ++ ['\n'] := by
        intro mem
        rcases List.mem_append.mp mem with mem | mem
        · exact absurd (isFlag _ mem) (by decide)
        · exact absurd mem (by decide)
      have same : flagsOf (flags ++ ['\n']) = flags := by
        rw [flagsOf, List.getLast?_concat, beq_self_eq_true, if_pos rfl, List.dropLast_concat]
      have shape : '/' :: body ++ '/' :: flags ++ ['\n'] = '/' :: body ++ '/' :: (flags ++ ['\n']) := by simp
      rw [shape, splitLiteral_tail nonempty slash, same, if_pos (List.all_eq_true.mpr isFlag)]

/-! ### Classes -/

/-- Members of a class: pairs that start with a backslash, and other characters except the closing bracket. -/
inductive Inside : List Char → Prop where
  | nil : Inside []
  | pair {c : Char} {cs : List Char} : Inside cs → Inside ('\\' :: c :: cs)
  | char {c : Char} {cs : List Char} : c ≠ '\\' → c ≠ ']' → Inside cs → Inside (c :: cs)

/-- What may stand between the opening bracket of a class and its other members: the mark of negation, and a closing bracket
that comes first and is a member. -/
def classLead (negated bracket : Bool) : List Char := (if negated then ['^'] else []) ++ if bracket then [']'] else []

theorem classMembers_pair (c : Char) (cs : List Char) :
    classMembers ('\\' :: c :: cs) = (classEscape c ++ (classMembers cs).1, 2 + (classMembers cs).2) := rfl

theorem classMembers_char (pair : c ≠ '\\') (bracket : c ≠ ']') (cs : List Char) : classMembers (c :: cs) =
      (if c == '%' then '%' :: '%' :: (classMembers cs).1 else c :: (classMembers cs).1, 1 + (classMembers cs).2) := by
  rw [classMembers.eq_3 c cs fun _ _ same => absurd same pair, if_neg (by simpa using bracket)]
  dsimp only
  rw [if_neg (by simpa using pair)]

/-- The members of a class end at the next closing bracket, or at the end. -/
theorem classMembers_size {members : List Char} (inside : Inside members) (rest : List Char) :
    (classMembers (members ++ ']' :: rest)).2 = members.length + 1 := by
  induction inside with
  | nil => rfl
  | pair _ ih =>
    rw [List.cons_append, List.cons_append, classMembers_pair, ih]
    simp only [List.length_cons]
    omega
  | char pair bracket _ ih =>
    rw [List.cons_append, classMembers_char pair bracket, ih]
    simp only [List.length_cons]
    omega

/-- A class is written with its marks and members, the bracket that comes first behind a percent sign. -/
theorem classPiece_lead (negated bracket : Bool) (caret : negated = false → bracket = false → cs.head? ≠ some '^')
    (first : bracket = false → cs.head? ≠ some ']') :
    classPiece (classLead negated bracket ++ cs) =
      (String.ofList ('[' :: ((if negated then ['^'] else []) ++ ((if bracket then ['%', ']'] else []) ++ (classMembers cs).1 ++ [']']))),
        (classLead negated bracket).length + (classMembers cs).2) := by
  have body : bracket = false → classBody cs = classMembers cs :=
    fun none => classBody.eq_2 cs fun rest same => first none (by rw [same, List.head?_cons])
  have more : 1 + (1 + (classMembers cs).2) = 2 + (classMembers cs).2 := by omega
  cases negated <;> cases bracket
  · have unmarked := classPiece.eq_2 cs fun rest same => caret rfl rfl (by rw [same, List.head?_cons])
    simp [classLead, unmarked, body]
  · simp [classLead, classPiece, classBody]
  · simp [classLead, classPiece, body]
  · simp [classLead, classPiece, classBody, more]

theorem Inside.head?_ne {members : List Char} (inside : Inside members) : members.head? ≠ some ']' := by
  cases inside with
  | nil | pair => simp
  | char _ bracket => simpa using bracket

/-- What follows the opening brace of a counted repetition, with the counts. -/
inductive IsCount : List Char → Repetition → Prop where
  | exactly {low : List Char} : low ≠ [] → (∀ c ∈ low, isDecimal c = true) →
      IsCount (low ++ ['\x7d']) ⟨decimalValue low, some (decimalValue low)⟩
  | atLeast {low : List Char} : low ≠ [] → (∀ c ∈ low, isDecimal c = true) → IsCount (low ++ [',', '\x7d']) ⟨decimalValue low, none⟩
  | between {low high : List Char} : low ≠ [] → (∀ c ∈ low, isDecimal c = true) → high ≠ [] → (∀ c ∈ high, isDecimal c = true) →
      IsCount (low ++ ',' :: (high ++ ['\x7d'])) ⟨decimalValue low, some (decimalValue high)⟩

theorem takeWhile_decimals {digits : List Char} (decimals : ∀ c ∈ digits, isDecimal c = true) (other : isDecimal c = false)
    (rest : List Char) : (digits ++ c :: rest).takeWhile isDecimal = digits ∧ (digits ++ c :: rest).dropWhile isDecimal = c :: rest := by
  rw [List.takeWhile_append_of_pos decimals, List.dropWhile_append_of_pos decimals,
    List.takeWhile_cons_of_neg (by rw [other]; decide), List.dropWhile_cons_of_neg (by rw [other]; decide), List.append_nil]
  exact ⟨rfl, rfl⟩

theorem repetition?_count {text : List Char} (count : IsCount text r) (rest : List Char) :
    repetition? (text ++ rest) = some (r, text.length) := by
  have brace : isDecimal '\x7d' = false := by decide
  have comma : isDecimal ',' = false := by decide
  cases count with
  | @exactly low nonempty decimals =>
    obtain ⟨taken, dropped⟩ := takeWhile_decimals decimals brace rest
    rw [List.append_assoc, List.singleton_append]
    simp [repetition?, taken, dropped, nonempty]
  | @atLeast low nonempty decimals =>
    obtain ⟨taken, dropped⟩ := takeWhile_decimals decimals comma ('\x7d' :: rest)
    obtain ⟨none, behind⟩ := takeWhile_decimals (List.forall_mem_nil _) brace rest
    rw [List.nil_append] at none behind
    rw [List.append_assoc, List.cons_append, List.singleton_append]
    simp [repetition?, taken, dropped, nonempty, none, behind]
  | @between low high nonempty decimals highNonempty highDecimals =>
    obtain ⟨taken, dropped⟩ := takeWhile_decimals decimals comma (high ++ '\x7d' :: rest)
    obtain ⟨highTaken, highDropped⟩ := takeWhile_decimals highDecimals brace rest
    rw [List.append_assoc, List.cons_append, List.append_assoc, List.singleton_append]
    simp [repetition?, taken, dropped, nonempty, highTaken, highDropped, highNonempty]
    omega

theorem exists_count {n : Nat} (found : repetition? cs = some (r, n)) : IsCount (cs.take n) r := by
  have split : ∀ l : List Char, ∃ digits rest, l = digits ++ rest ∧ l.takeWhile isDecimal = digits ∧ l.dropWhile isDecimal = rest ∧
      ∀ c ∈ digits, isDecimal c = true :=
    fun l => ⟨_, _, List.takeWhile_append_dropWhile.symm, rfl, rfl, fun _ => List.mem_takeWhile_imp⟩
  obtain ⟨low, rest, rfl, taken, dropped, decimals⟩ := split cs
  simp only [repetition?, taken, dropped, List.isEmpty_iff] at found
  split at found
  · cases found
  rename_i nonempty
  split at found
  · obtain ⟨rfl, rfl⟩ := Prod.mk.inj (Option.some.inj found)
    rw [List.take_length_add_append]
    exact .exactly nonempty decimals
  · rename_i rest
    obtain ⟨high, rest, rfl, highTaken, highDropped, highDecimals⟩ := split rest
    rw [highTaken, highDropped, Option.ite_none_right_eq_some, beq_iff_eq] at found
    obtain ⟨brace, same⟩ := found
    obtain ⟨rest, rfl⟩ := List.head?_eq_some_iff.mp brace
    obtain ⟨rfl, rfl⟩ := Prod.mk.inj (Option.some.inj same)
    have size : low.length + high.length + 2 = low.length + (high.length + 1 + 1) := by omega
    rw [size, List.take_length_add_append, List.take_succ_cons, List.take_length_add_append, List.take_succ_cons, List.take_zero]
    by_cases none : high = []
    · subst none
      exact .atLeast nonempty decimals
    · rw [if_neg none]
      exact .between nonempty decimals none highDecimals
  · cases found

theorem toList_copies (n : Nat) (piece : String) : (copies n piece).toList = (List.replicate n piece.toList).flatten := by
  rw [copies, String.toList_join, List.flatMap_def, List.map_replicate]

theorem unroll_some (low high : Nat) (piece : String) :
    Repetition.unroll ⟨low, some high⟩ piece = copies low piece ++ copies (high - low) (piece ++ "?") := by
  rcases low with _ | _ | low <;> rfl

theorem unroll_none {n : Nat} (h : n ≠ 1) (piece : String) : Repetition.unroll ⟨n, none⟩ piece = copies n piece ++ piece ++ "*" := by
  rcases n with _ | _ | n
  · simp [Repetition.unroll, copies]
  · exact absurd rfl h
  · rfl

/-! ### Steps of the conversion -/

theorem convertFrom_drop (pieces : List String) (skip : Nat) (cs : List Char) :
    convertFrom pieces skip cs = convertFrom pieces 0 (cs.drop skip) :=
  Text.skip_eq_drop skip cs (fun _ => rfl) fun _ _ _ => rfl

theorem convertFrom_write {piece : String} (h : step c (cs ++ rest) = .write [piece] cs.length)
    (pieces : List String) : convertFrom pieces 0 (c :: cs ++ rest) = convertFrom (piece :: pieces) 0 rest := by
  rw [List.cons_append, convertFrom, h]
  change convertFrom (piece :: pieces) cs.length (cs ++ rest) = _
  rw [convertFrom_drop, List.drop_left]

theorem convertFrom_repeat (h : step c (cs ++ rest) = .repeatLast r cs.length) (pieces : List String) :
    convertFrom pieces 0 (c :: cs ++ rest) = convertFrom (r.unroll (pieces.headD "") :: pieces.tail) 0 rest := by
  rw [List.cons_append, convertFrom, h]
  change convertFrom (r.unroll (pieces.headD "") :: pieces.tail) cs.length (cs ++ rest) = _
  rw [convertFrom_drop, List.drop_left]

theorem step_brace (rest : List Char) : step '\x7b' rest = match repetition? rest with
    | some (r, n) => .repeatLast r n
    | none => .write ["\x7b"] 0 := rfl

/-- All other characters are taken alone. Of these some keep their meaning in the pattern. -/
theorem step_alone (other : c ∉ ['\\', '[', '(', '\x7b', '|', '*', '+', '?']) (rest : List Char) :
    step c rest = .write [if c ∈ [')', '.', '^', '$'] then String.singleton c else String.ofList (escapeChar c)] 0 := by
  by_cases keeps : c ∈ [')', '.', '^', '$']
  · rw [if_pos keeps]
    simp only [List.mem_cons, List.not_mem_nil, or_false] at keeps
    rcases keeps with rfl | rfl | rfl | rfl <;> rfl
  · rw [if_neg keeps]
    unfold step
    dsimp only
    split
    case h_13 => rfl
    all_goals first | exact absurd (by decide) other | exact absurd (by decide) keeps

/-- A counted repetition takes the place of the last piece. -/
theorem convertFrom_count {text : List Char} (count : IsCount text r) (pieces : List String) (rest : List Char) :
    convertFrom pieces 0 ('\x7b' :: text ++ rest) = convertFrom (r.unroll (pieces.headD "") :: pieces.tail) 0 rest :=
  convertFrom_repeat (by rw [step_brace, repetition?_count count]) pieces

end NoteScript.Pattern

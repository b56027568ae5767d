import Mathlib.Data.List.Forall2
import NoteScript.Proofs.Operand
import NoteScript.Proofs.Quoting

/-!
# Where a text is cut

An operand is taken back from any text, whatever was written there. The text is cut between two entries: what stands in
front of the cut stays, and what stands behind it is handed out without the white space around it.

* `takeOperand_cuts`: nothing but white space is lost, and from entries that open or close one bracket at most an operand
  comes with its brackets paired.
* `Alike`: entries that the walk cannot tell apart, `cut_eq_of_alike`: texts of such entries are cut at the same place.
* `cut_literals`: what a string literal holds does not matter, but for the brackets that it closes and its line feeds.
-/

namespace NoteScript

namespace Text

theorem trimEnd_append_blank (cs : List Char) {blank : List Char} (h : ∀ c ∈ blank, isSpace c = true) :
    trimEnd (cs ++ blank) = trimEnd cs := by
  rw [trimEnd, List.reverse_append, List.dropWhile_append_of_pos (by simpa using h), trimEnd]

/-- White space behind a text is stripped off with the rest. -/
theorem strip_append_blank (s : String) {blank : String} (h : isBlank blank = true) : strip (s ++ blank) = strip s := by
  have all : ∀ c ∈ blank.toList, isSpace c = true := List.all_eq_true.mp h
  rw [strip, strip, trim, trim, trimStart, trimStart, String.toList_append, List.dropWhile_append]
  split
  · rename_i nothing
    rw [List.isEmpty_iff.mp nothing, List.dropWhile_eq_nil_iff.mpr all]
  · rw [trimEnd_append_blank _ all]

/-- What is stripped off a text is white space. -/
theorem exists_strip (s : String) : ∃ front back, isBlank front = true ∧ isBlank back = true ∧ s = front ++ strip s ++ back := by
  have start : s.toList.takeWhile isSpace ++ trimStart s.toList = s.toList := List.takeWhile_append_dropWhile
  have finish : trim s.toList ++ ((trimStart s.toList).reverse.takeWhile isSpace).reverse = trimStart s.toList := by
    rw [trim, trimEnd, ← List.reverse_append, List.takeWhile_append_dropWhile, List.reverse_reverse]
  refine ⟨String.ofList (s.toList.takeWhile isSpace),
    String.ofList ((trimStart s.toList).reverse.takeWhile isSpace).reverse, ?_, ?_, ?_⟩
  · rw [isBlank, String.toList_ofList, List.all_takeWhile]
  · rw [isBlank, String.toList_ofList, List.all_reverse, List.all_takeWhile]
  · rw [← String.toList_inj, String.toList_append, String.toList_append, strip]
    simp only [String.toList_ofList]
    rw [List.append_assoc, finish, start]

end Text

namespace Buffer

open Text

/-! ### Nothing is lost -/

/-- The walk takes entries from the end of those that are left. -/
theorem walkBack_split (operatorsEnd : Bool) (depth : Int) (member : Bool) (taken older : List String) :
    (walkBack operatorsEnd depth member taken older).2.reverse ++ (walkBack operatorsEnd depth member taken older).1 =
      older.reverse ++ taken := by
  induction older generalizing depth member taken with
  | nil => rfl
  | cons e older ih =>
    rw [walkBack]
    dsimp only
    split
    · rfl
    · split
      · rfl
      · rw [ih, List.reverse_cons, List.append_assoc, List.singleton_append]

theorem newest_append (b : Buffer) : (b.reverse.dropWhile isBlank).reverse ++ (b.reverse.takeWhile isBlank).reverse = b := by
  rw [← List.reverse_append, List.takeWhile_append_dropWhile, List.reverse_reverse]

/-- The entries that stay, the entries of the operand, and blank ones. -/
theorem operandEntries_split (b : Buffer) (operatorsEnd : Bool) : ∃ trail : Buffer, (∀ e ∈ trail, isBlank e = true) ∧
      b = (b.operandEntries operatorsEnd).2.reverse ++ (b.operandEntries operatorsEnd).1 ++ trail := by
  have blank : ∀ e ∈ (b.reverse.takeWhile isBlank).reverse, isBlank e = true :=
    fun e he => List.mem_takeWhile_imp (List.mem_reverse.mp he)
  refine ⟨_, blank, ?_⟩
  nth_rewrite 1 [← newest_append b]
  congr 1
  rw [operandEntries]
  cases b.reverse.dropWhile isBlank with
  | nil => rfl
  | cons last older =>
    dsimp only
    split_ifs
    · simp
    · rw [List.reverse_append, List.reverse_reverse, List.append_assoc, List.takeWhile_append_dropWhile, walkBack_split,
        List.reverse_cons]

/-! ### Brackets of the operand -/

theorem closedIn_text_append (es es' : Buffer) :
    closedIn (text (es ++ es')).toList = closedIn (text es).toList + closedIn (text es').toList := by
  rw [text_append, String.toList_append, closedIn_append]

theorem closedIn_text_cons (e : String) (es : Buffer) :
    closedIn (text (e :: es)).toList = closedIn e.toList + closedIn (text es).toList := by
  rw [← List.singleton_append, closedIn_text_append, text_singleton]

theorem closedIn_strip (s : String) : closedIn (strip s).toList = closedIn s.toList := by
  obtain ⟨front, back, blank, blank', split⟩ := exists_strip s
  have parts := congrArg (closedIn ·.toList) split
  simp only [String.toList_append, closedIn_append, closedIn_of_isBlank blank, closedIn_of_isBlank blank'] at parts
  omega

/-- Where no entry opens two brackets and the brackets of the text are opened before they are closed, the walk ends with as
many closed as opened. -/
theorem walkBack_level {operatorsEnd : Bool} {depth : Int} {member : Bool} {taken older : List String}
    (level : closedIn (text taken).toList = depth) (closed : 0 ≤ depth) (single : ∀ e ∈ older, -1 ≤ closedIn e.toList)
    (opened : depth + closedIn (text older.reverse).toList ≤ 0) :
    closedIn (text (walkBack operatorsEnd depth member taken older).1).toList = 0 := by
  induction older generalizing depth member taken with
  | nil =>
    have nothing : closedIn (text []).toList = 0 := rfl
    rw [List.reverse_nil, nothing] at opened
    rw [walkBack, level]
    omega
  | cons e older ih =>
    obtain ⟨first, later⟩ := List.forall_mem_cons.mp single
    rw [List.reverse_cons, closedIn_text_append, text_singleton] at opened
    rw [walkBack]
    dsimp only
    split
    · rename_i boundary
      simp only [Bool.and_eq_true, beq_iff_eq] at boundary
      rw [level, boundary.1.1]
    · split
      · rw [level]
        omega
      · have further : closedIn (text (e :: taken)).toList = depth + closedIn e.toList := by
          rw [closedIn_text_cons, level]
          omega
        exact ih further (by omega) later (by omega)

theorem operandEntries_level {b : Buffer} (operatorsEnd : Bool) (single : ∀ e ∈ b, -1 ≤ closedIn e.toList)
    (opened : ∀ n ≤ b.length, closedIn (text (b.take n)).toList ≤ 0) :
    closedIn (text (b.operandEntries operatorsEnd).1).toList = 0 := by
  have before : closedIn (text (b.reverse.dropWhile isBlank).reverse).toList ≤ 0 := by
    have some : (b.reverse.dropWhile isBlank).reverse.length ≤ b.length := by
      have shorter := (List.dropWhile_sublist isBlank (l := b.reverse)).length_le
      rwa [List.length_reverse] at shorter ⊢
    have front := opened _ some
    nth_rewrite 2 [← newest_append b] at front
    rwa [List.take_left] at front
  rw [operandEntries]
  cases newest : b.reverse.dropWhile isBlank with
  | nil => rfl
  | cons last older =>
    rw [newest, List.reverse_cons, closedIn_text_append, text_singleton] at before
    dsimp only
    split_ifs with opens
    · rfl
    · have members : ∀ e ∈ older, -1 ≤ closedIn e.toList := by
        intro e he
        have mem : e ∈ b.reverse.dropWhile isBlank := by rw [newest]; exact List.mem_cons_of_mem last he
        exact single e (List.mem_reverse.mp ((List.dropWhile_sublist _).mem mem))
      have walked := @walkBack_level operatorsEnd _ (startsMember last) [last] older (by rw [text_singleton]) (by omega)
        members (by omega)
      rw [← List.takeWhile_append_dropWhile (p := isBlank) (l := (walkBack _ _ _ _ _).1), closedIn_text_append,
        closedIn_of_isBlank (isBlank_text fun e he => List.mem_takeWhile_imp he), Int.zero_add] at walked
      exact walked

/-- The round and square brackets that a text opens. -/
def openings (s : String) : Nat := s.toList.countP fun c => c == '(' || c == '['

/-- The round and square brackets that a text closes. -/
def closings (s : String) : Nat := s.toList.countP fun c => c == ')' || c == ']'

theorem closedIn_eq (s : String) : closedIn s.toList = closings s - openings s := by
  rw [closings, openings]
  induction s.toList with
  | nil => rfl
  | cons c cs ih =>
    rw [closedIn, ih, List.countP_cons, List.countP_cons]
    by_cases closes : (c == ')' || c == ']') = true
    · have other : (c == '(' || c == '[') = false := by
        rcases Bool.or_eq_true_iff.mp closes with same | same <;> rw [beq_iff_eq.mp same] <;> rfl
      simp only [closes, other, if_true, Bool.false_eq_true, if_false]
      omega
    · by_cases opens : (c == '(' || c == '[') = true
      · simp only [closes, opens, if_true, Bool.false_eq_true, if_false]
        omega
      · simp only [closes, opens, Bool.false_eq_true, if_false]
        omega

theorem takeOperand_eq (b : Buffer) (operatorsEnd : Bool) : b.takeOperand operatorsEnd =
      (strip (text (b.operandEntries operatorsEnd).1), (b.operandEntries operatorsEnd).2.reverse) := rfl

/-- Taking an operand back cuts the text in two. The entries in front of the cut stay as they are. What stands behind it is
handed out, and only white space around it is lost. If each entry opens or closes one bracket at most, beyond those that it
pairs itself, and no bracket is closed before it is opened, then the operand opens as many brackets as it closes. -/
theorem takeOperand_cuts (b : Buffer) (operatorsEnd : Bool) :
    (∃ k ≤ b.length, (b.takeOperand operatorsEnd).2 = b.take k ∧
      (b.takeOperand operatorsEnd).1 = strip (text (b.drop k)) ∧
      ∃ front back, isBlank front = true ∧ isBlank back = true ∧
        text b = text (b.take k) ++ front ++ (b.takeOperand operatorsEnd).1 ++ back) ∧
    ((∀ e ∈ b, (openings e : Int) - closings e ∈ [-1, 0, 1]) →
      (∀ n ≤ b.length, closings (text (b.take n)) ≤ openings (text (b.take n))) →
      openings (b.takeOperand operatorsEnd).1 = closings (b.takeOperand operatorsEnd).1) := by
  rw [takeOperand_eq]
  constructor
  · obtain ⟨trail, spaces, split⟩ := b.operandEntries_split operatorsEnd
    generalize b.operandEntries operatorsEnd = parts at split ⊢
    have kept : b.take parts.2.reverse.length = parts.2.reverse := by rw [split, List.append_assoc, List.take_left]
    have rest : b.drop parts.2.reverse.length = parts.1 ++ trail := by rw [split, List.append_assoc, List.drop_left]
    have handed : strip (text (parts.1 ++ trail)) = strip (text parts.1) := by
      rw [text_append, strip_append_blank _ (isBlank_text spaces)]
    obtain ⟨front, back, blank, blank', whole⟩ := exists_strip (text (parts.1 ++ trail))
    refine ⟨parts.2.reverse.length, ?_, kept.symm, ?_, front, back, blank, blank', ?_⟩
    · rw [split, List.append_assoc, List.length_append]
      exact Nat.le_add_right _ _
    · rw [rest, handed]
    · rw [← List.take_append_drop parts.2.reverse.length b, text_append, List.take_append_drop, rest, whole, handed]
      simp only [String.append_assoc]
  · intro single opened
    have level : closedIn (strip (text (b.operandEntries operatorsEnd).1)).toList = 0 := by
      rw [closedIn_strip]
      apply operandEntries_level
      · intro e he
        have := single e he
        simp only [List.mem_cons, List.not_mem_nil, or_false] at this
        rw [closedIn_eq]
        omega
      · intro n some
        have := opened n some
        rw [closedIn_eq]
        omega
    rw [closedIn_eq] at level
    dsimp only
    omega

theorem takeOperand_cuts_call :
    (∀ e ∈ (["g", "(", "x", ",", " ", "a[0]", ".f", "(", "y", ")", " "] : Buffer), (openings e : Int) - closings e ∈ [-1, 0, 1]) ∧
      Buffer.takeOperand ["g", "(", "x", ",", " ", "a[0]", ".f", "(", "y", ")", " "] true =
        ("a[0].f(y)", ["g", "(", "x", ",", " "]) ∧
      openings "a[0].f(y)" = closings "a[0].f(y)" := by
  have taken : Buffer.takeOperand ["g", "(", "x", ",", " ", "a[0]", ".f", "(", "y", ")", " "] true =
      ("a[0].f(y)", ["g", "(", "x", ",", " "]) := by decide +kernel
  have single : ∀ e ∈ (["g", "(", "x", ",", " ", "a[0]", ".f", "(", "y", ")", " "] : Buffer),
      (openings e : Int) - closings e ∈ [-1, 0, 1] := by decide
  have paired := (takeOperand_cuts ["g", "(", "x", ",", " ", "a[0]", ".f", "(", "y", ")", " "] true).2 single (by decide +kernel)
  rw [taken] at paired
  exact ⟨single, taken, paired⟩

/-! ### Entries that the walk cannot tell apart -/

/-- The number of entries that stay when an operand is taken back. -/
def cut (b : Buffer) (operatorsEnd : Bool) : Nat := (b.takeOperand operatorsEnd).2.length

/-- All that the walk sees of an entry. An entry that opens more brackets than it closes ends an operand at its own level,
boundary or not. -/
structure Alike (e e' : String) : Prop where
  blank : isBlank e = isBlank e'
  member : startsMember e = startsMember e'
  level : closedIn e.toList = closedIn e'.toList
  boundary : 0 ≤ closedIn e.toList → ∀ operatorsEnd, isBoundary operatorsEnd e = isBoundary operatorsEnd e'

theorem Alike.refl (e : String) : Alike e e := ⟨rfl, rfl, rfl, fun _ _ => rfl⟩

/-- Within brackets only their number counts. -/
theorem walkBack_inside {operatorsEnd member : Bool} {depth : Int} (taken : List String) (e : String) (older : List String)
    (inside : depth ≠ 0) :
    walkBack operatorsEnd depth member taken (e :: older) = if depth + closedIn e.toList < 0 then (taken, e :: older)
      else walkBack operatorsEnd (depth + closedIn e.toList) (if isBlank e then member else startsMember e) (e :: taken)
        older := by
  have goesOn : ¬ (depth == 0 && !(member && isBlank e) && isBoundary operatorsEnd e) = true := by simp [inside]
  rw [walkBack]
  dsimp only
  rw [if_neg goesOn]

/-- No bracket that opens an outer group is taken. -/
theorem walkBack_opening {operatorsEnd member : Bool} {e : String} (opens : closedIn e.toList < 0) (taken older : List String) :
    walkBack operatorsEnd 0 member taken (e :: older) = (taken, e :: older) := by
  rw [walkBack]
  dsimp only
  rw [Int.zero_add, if_pos opens, ite_self]

theorem forall₂_walkBack {operatorsEnd : Bool} {depth : Int} {member : Bool} {taken taken' older older' : List String}
    (behind : List.Forall₂ Alike taken taken') (front : List.Forall₂ Alike older older') :
    List.Forall₂ Alike (walkBack operatorsEnd depth member taken older).1
        (walkBack operatorsEnd depth member taken' older').1 ∧
      List.Forall₂ Alike (walkBack operatorsEnd depth member taken older).2
        (walkBack operatorsEnd depth member taken' older').2 := by
  induction front generalizing depth member taken taken' with
  | nil => exact ⟨behind, .nil⟩
  | @cons e e' older older' alike front ih =>
    by_cases opens : depth = 0 ∧ closedIn e.toList < 0
    · rw [opens.1, walkBack_opening opens.2, walkBack_opening (alike.level ▸ opens.2)]
      exact ⟨behind, .cons alike front⟩
    · have boundary : (depth == 0 && !(member && isBlank e) && isBoundary operatorsEnd e) =
          (depth == 0 && !(member && isBlank e') && isBoundary operatorsEnd e') := by
        rw [alike.blank]
        by_cases zero : depth = 0
        · rw [alike.boundary (by omega)]
        · rw [beq_false_of_ne zero, Bool.false_and, Bool.false_and, Bool.false_and]
      rw [walkBack, walkBack]
      dsimp only
      rw [← boundary, ← alike.level, ← alike.blank, ← alike.member]
      split
      · exact ⟨behind, .cons alike front⟩
      · split
        · exact ⟨behind, .cons alike front⟩
        · exact ih (.cons alike behind)

theorem forall₂_dropWhile {es es' : List String} (h : List.Forall₂ Alike es es') :
    List.Forall₂ Alike (es.dropWhile isBlank) (es'.dropWhile isBlank) := by
  induction h with
  | nil => exact .nil
  | @cons e e' es es' alike h ih =>
    rw [List.dropWhile_cons, List.dropWhile_cons, ← alike.blank]
    split
    · exact ih
    · exact .cons alike h

theorem cut_eq (b : Buffer) (operatorsEnd : Bool) : b.cut operatorsEnd = (b.operandEntries operatorsEnd).2.length := by
  rw [cut, takeOperand_eq, List.length_reverse]

/-- Texts whose entries are alike are cut at the same place. -/
theorem cut_eq_of_alike {b b' : Buffer} (h : List.Forall₂ Alike b b') (operatorsEnd : Bool) :
    b.cut operatorsEnd = b'.cut operatorsEnd := by
  have newest := forall₂_dropWhile (List.forall₂_reverse_iff.mpr h)
  rw [cut_eq, cut_eq, operandEntries, operandEntries]
  generalize List.dropWhile isBlank b.reverse = es at newest ⊢
  generalize List.dropWhile isBlank b'.reverse = es' at newest ⊢
  cases newest with
  | nil => rfl
  | @cons last last' older older' alike front =>
    have walked := @forall₂_walkBack operatorsEnd (closedIn last.toList) (startsMember last) _ _ _ _
      (.cons alike .nil) front
    dsimp only
    rw [← alike.level, ← alike.member]
    split
    · rw [List.length_cons, List.length_cons, front.length_eq]
    · -- Of what is taken, the blank entries at its start go back.
      have back := walked.1.length_eq
      have solid := (forall₂_dropWhile walked.1).length_eq
      rw [← List.takeWhile_append_dropWhile (p := isBlank) (l := (walkBack _ _ _ [last] _).1),
        ← List.takeWhile_append_dropWhile (p := isBlank) (l := (walkBack _ _ _ [last'] _).1), List.length_append,
        List.length_append] at back
      rw [List.length_append, List.length_append, List.length_reverse, List.length_reverse, walked.2.length_eq]
      omega

/-! ### String literals -/

theorem exists_of_isLuaString {s : String} (h : Literal.isLuaString s = true) : ∃ cs, s.toList = '"' :: (cs ++ ['"']) := by
  rw [Literal.isLuaString] at h
  split at h
  · rename_i rest chars
    rw [Bool.and_eq_true, beq_iff_eq, List.getLast?_eq_some_iff] at h
    obtain ⟨⟨cs, shape⟩, -⟩ := h
    exact ⟨cs, by rw [chars, shape]⟩
  · cases h

section

variable {s s' : String} (literal : Literal.isLuaString s = true)
include literal

theorem isBlank_literal : isBlank s = false := by
  obtain ⟨cs, shape⟩ := exists_of_isLuaString literal
  rw [isBlank, shape]
  rfl

theorem startsMember_literal : startsMember s = false := by
  obtain ⟨cs, shape⟩ := exists_of_isLuaString literal
  rw [startsMember, stripStart, shape, String.toList_ofList]
  rfl

/-- Of the literals, those with a line feed end an operand. -/
theorem isBoundary_literal (operatorsEnd : Bool) : isBoundary operatorsEnd s = contains "\n" s := by
  obtain ⟨cs, shape⟩ := exists_of_isLuaString literal
  have back : s.toList.reverse = '"' :: (cs.reverse ++ ['"']) := by simp [shape]
  have other : s ∉ statementWords ++ binaryOperators := by
    intro mem
    have starts : ∀ word ∈ statementWords ++ binaryOperators, word.toList.head? ≠ some '"' := by decide
    exact starts s mem (by rw [shape]; rfl)
  cases feed : contains "\n" s with
  | true => rw [isBoundary, if_pos feed]
  | false =>
    refine isBoundary_eq_false ?_ ?_ ?_ other ?_ ?_
    · rw [← contains_newline_iff, feed]
      exact Bool.false_ne_true
    · rw [startsSolid, shape]
      rfl
    · rw [endsSolid, ← List.head?_reverse, back]
      rfl
    · rw [endsAssignment, back]
      rfl
    · rw [opensBody, endsParameters, back]
      rfl

/-- Literals that close equally many brackets and both have a line feed or both have none. -/
theorem Alike.literals (literal' : Literal.isLuaString s' = true) (level : closedIn s.toList = closedIn s'.toList)
    (feed : closedIn s.toList < 0 ∨ contains "\n" s = contains "\n" s') : Alike s s' where
  blank := by rw [isBlank_literal literal, isBlank_literal literal']
  member := by rw [startsMember_literal literal, startsMember_literal literal']
  level := level
  boundary := by
    intro closed operatorsEnd
    rw [isBoundary_literal literal, isBoundary_literal literal']
    rcases feed with opens | same
    · omega
    · exact same

end

/-! ### Texts that tell literals apart -/

/-- So many brackets of one kind. -/
def brackets (n : Nat) (c : Char) : String := String.ofList (List.replicate n c)

theorem closedIn_opening (n : Nat) : closedIn (brackets n '(').toList = -n := by
  rw [brackets, String.toList_ofList]
  induction n with
  | zero => rfl
  | succ n ih =>
    have first : closedIn ['('] = -1 := rfl
    rw [List.replicate_succ, ← List.singleton_append, closedIn_append, ih, first]
    omega

theorem closedIn_closing (n : Nat) : closedIn (brackets n ')').toList = n := by
  rw [brackets, String.toList_ofList]
  induction n with
  | zero => rfl
  | succ n ih =>
    have first : closedIn [')'] = 1 := rfl
    rw [List.replicate_succ, ← List.singleton_append, closedIn_append, ih, first]
    omega

/-- The entries behind which the cut is made, for a text that ends in the entry `last`. -/
theorem cut_concat {front : Buffer} {last : String} (operatorsEnd : Bool) (solid : isBlank last = false)
    (closed : 0 ≤ closedIn last.toList) {taken left : List String}
    (walked : walkBack operatorsEnd (closedIn last.toList) (startsMember last) [last] front.reverse = (taken, left)) :
    Buffer.cut (front ++ [last]) operatorsEnd = (taken.takeWhile isBlank).length + left.length := by
  have newest : (front ++ [last]).reverse.dropWhile isBlank = last :: front.reverse := by
    rw [List.reverse_append, List.reverse_singleton, List.singleton_append, List.dropWhile_cons_of_neg]
    rw [solid]
    exact Bool.false_ne_true
  rw [cut_eq, operandEntries, newest]
  dsimp only
  rw [if_neg (by omega), walked, List.length_append, List.length_reverse]

section

variable {s : String} (literal : Literal.isLuaString s = true)
include literal

/-- Behind `n` open brackets and in front of `m` closed ones a literal belongs to the operand, and the operand starts at the
open brackets only if the literal makes up for the difference. -/
theorem cut_between_brackets {n m : Nat} (closes : 1 ≤ m) (closed : 1 ≤ m + closedIn s.toList) :
    Buffer.cut (["x", " ", brackets (n + 1) '(', s] ++ [brackets m ')']) true = 2 ↔ m + closedIn s.toList = n + 1 := by
  obtain ⟨m, rfl⟩ := Nat.exists_eq_add_of_le' closes
  have opening := closedIn_opening (n + 1)
  have closing := closedIn_closing (m + 1)
  have solid : isBlank (brackets (m + 1) ')') = false := by
    rw [brackets, isBlank, String.toList_ofList]
    rfl
  have solid' : isBlank (brackets (n + 1) '(') = false := by
    rw [brackets, isBlank, String.toList_ofList]
    rfl
  have first : startsMember (brackets (n + 1) '(') = false := by
    rw [brackets, startsMember, stripStart, String.toList_ofList, String.toList_ofList]
    rfl
  have level := fun taken left => @cut_concat ["x", " ", brackets (n + 1) '(', s] _ true solid (by omega) taken left
  have outer : ["x", " ", brackets (n + 1) '(', s].reverse = [s, brackets (n + 1) '(', " ", "x"] := rfl
  rw [outer, walkBack_inside _ _ _ (by omega), if_neg (by omega), walkBack_inside _ _ _ (by omega)] at level
  by_cases short : closedIn (brackets (m + 1) ')').toList + closedIn s.toList + closedIn (brackets (n + 1) '(').toList < 0
  · rw [if_pos short] at level
    rw [level _ _ rfl, List.takeWhile_cons_of_neg (by rw [isBlank_literal literal]; exact Bool.false_ne_true)]
    simp only [List.length_nil, List.length_cons]
    omega
  · rw [if_neg short, solid', first] at level
    by_cases even : closedIn (brackets (m + 1) ')').toList + closedIn s.toList + closedIn (brackets (n + 1) '(').toList = 0
    · rw [even, walkBack] at level
      rw [level _ _ rfl, List.takeWhile_cons_of_neg (by rw [solid']; exact Bool.false_ne_true)]
      simp only [List.length_nil, List.length_cons, true_iff]
      omega
    · have flat : closedIn " ".toList = 0 := rfl
      have flat' : closedIn "x".toList = 0 := rfl
      rw [walkBack_inside _ _ _ even, if_neg (by omega), walkBack_inside _ _ _ (by omega), if_neg (by omega), walkBack] at level
      rw [level _ _ rfl, List.takeWhile_cons_of_neg (by decide)]
      simp only [List.length_nil]
      omega

/-- A literal with a line feed ends an operand that another literal would belong to. -/
theorem cut_between_words (closed : 0 ≤ closedIn s.toList) :
    Buffer.cut (["x", s] ++ ["y"]) false = if contains "\n" s then 2 else 0 := by
  have outer : ["x", s].reverse = [s, "x"] := rfl
  have flat : closedIn "x".toList = 0 := rfl
  have level := fun taken left => @cut_concat ["x", s] "y" false rfl (by decide) taken left
  have zero : closedIn "y".toList = 0 := rfl
  rw [outer, zero, walkBack] at level
  dsimp only at level
  rw [isBoundary_literal literal, isBlank_literal literal, startsMember_literal literal] at level
  cases feed : contains "\n" s with
  | true =>
    rw [feed] at level
    rw [level _ _ rfl]
    rfl
  | false =>
    rw [feed, Bool.and_false, if_neg Bool.false_ne_true, if_neg (by omega), walkBack] at level
    dsimp only at level
    have goesOn : isBoundary false "x" = false := by decide
    rw [goesOn, Bool.and_false, if_neg Bool.false_ne_true, if_neg (by omega), walkBack] at level
    rw [level _ _ rfl]
    rfl

end

/-- What string literals hold moves the cut only by the brackets and the line feeds in them. Two texts that differ in
literals alone are cut at the same place if each literal closes as many brackets as the other in its place, and has a line
feed if and only if that one has one, unless both open more brackets than they close. Of two literals that do not match in
this way one may not stand for the other: there is a text in which the cut moves. -/
theorem cut_literals (b b' : Buffer) (operatorsEnd : Bool) (s s' : String) :
    (List.Forall₂ (fun e e' => e = e' ∨ Literal.isLuaString e = true ∧ Literal.isLuaString e' = true ∧
        closedIn e.toList = closedIn e'.toList ∧ (closedIn e.toList < 0 ∨ contains "\n" e = contains "\n" e')) b b' →
      b.cut operatorsEnd = b'.cut operatorsEnd) ∧
    (Literal.isLuaString s = true → Literal.isLuaString s' = true →
      ((∀ (front back : Buffer) (operatorsEnd : Bool),
          Buffer.cut (front ++ s :: back) operatorsEnd = Buffer.cut (front ++ s' :: back) operatorsEnd) ↔
        closedIn s.toList = closedIn s'.toList ∧ (closedIn s.toList < 0 ∨ contains "\n" s = contains "\n" s'))) := by
  constructor
  · intro h
    refine cut_eq_of_alike (h.imp ?_) operatorsEnd
    rintro e e' (rfl | ⟨literal, literal', level, feed⟩)
    · exact Alike.refl e
    · exact Alike.literals literal literal' level feed
  · intro literal literal'
    constructor
    · intro same
      have level : closedIn s.toList = closedIn s'.toList := by
        by_contra differ
        obtain ⟨m, closes, closed, closed'⟩ : ∃ m : Nat, 1 ≤ m ∧ 1 ≤ m + closedIn s.toList ∧ 1 ≤ m + closedIn s'.toList :=
          ⟨(closedIn s.toList).natAbs + (closedIn s'.toList).natAbs + 1, by omega, by omega, by omega⟩
        obtain ⟨n, even⟩ : ∃ n : Nat, m + closedIn s.toList = n + 1 := ⟨(m + closedIn s.toList - 1).toNat, by omega⟩
        have cuts := same ["x", " ", brackets (n + 1) '('] [brackets m ')'] true
        have here := (cut_between_brackets literal closes closed).mpr even
        have there := (cut_between_brackets literal' (n := n) closes closed').mp (cuts.symm.trans here)
        omega
      constructor
      · exact level
      · by_cases closed : 0 ≤ closedIn s.toList
        · have cuts := same ["x"] ["y"] false
          have here := cut_between_words literal closed
          have there := cut_between_words literal' (level ▸ closed)
          have equal := here.symm.trans (cuts.trans there)
          right
          by_cases feed : contains "\n" s = true <;> by_cases feed' : contains "\n" s' = true
          · rw [feed, feed']
          · rw [if_pos feed, if_neg feed'] at equal
            cases equal
          · rw [if_neg feed, if_pos feed'] at equal
            cases equal
          · rw [Bool.eq_false_iff.mpr feed, Bool.eq_false_iff.mpr feed']
        · left
          omega
    · rintro ⟨level, feed⟩ front back operatorsEnd
      have alike := Alike.literals literal literal' level feed
      have same : ∀ es : Buffer, List.Forall₂ Alike es es := fun es => List.forall₂_same.mpr fun e _ => Alike.refl e
      exact cut_eq_of_alike (List.rel_append (same front) (.cons alike (same back))) operatorsEnd

theorem cut_literals_argument :
    Literal.isLuaString "\"a(b)\"" = true ∧ Literal.isLuaString "\"c\"" = true ∧
      Buffer.cut ["f", "(", "\"a(b)\"", ")"] true = Buffer.cut ["f", "(", "\"c\"", ")"] true ∧
      ∀ (front back : Buffer) (operatorsEnd : Bool),
        Buffer.cut (front ++ "\"a(b)\"" :: back) operatorsEnd = Buffer.cut (front ++ "\"c\"" :: back) operatorsEnd := by
  have literals : Literal.isLuaString "\"a(b)\"" = true ∧ Literal.isLuaString "\"c\"" = true := by decide
  have alike : closedIn "\"a(b)\"".toList = closedIn "\"c\"".toList ∧ contains "\n" "\"a(b)\"" = contains "\n" "\"c\"" := by decide
  obtain ⟨whole, single⟩ := cut_literals ["f", "(", "\"a(b)\"", ")"] ["f", "(", "\"c\"", ")"] true "\"a(b)\"" "\"c\""
  refine ⟨literals.1, literals.2, whole ?_, (single literals.1 literals.2).mpr ⟨alike.1, .inr alike.2⟩⟩
  exact .cons (.inl rfl) (.cons (.inl rfl) (.cons (.inr ⟨literals.1, literals.2, alike.1, .inr alike.2⟩)
    (.cons (.inl rfl) .nil)))

/-- A bracket in a literal is counted. -/
theorem cut_ne_closing_literal :
    Literal.isLuaString "\"a\"" = true ∧ Literal.isLuaString "\")\"" = true ∧
      Buffer.cut ["x", " ", "\"a\""] true = 2 ∧ Buffer.cut ["x", " ", "\")\""] true = 0 := by
  decide +kernel

end Buffer

end NoteScript

import Mathlib.Data.List.Induction
import NoteScript.Buffer.Operand
import NoteScript.Proofs.Clauses

/-!
# Which operand is taken back

An operand is taken back entry by entry, from the newest one on. When is it just the entries that were
written for it?

* `Walked`: the walk goes over some entries and arrives at a depth of brackets.
* `Nested`: entries that are passed inside brackets, whatever they are; `Attached`: entries that are passed
  outside brackets too.
* `Ready`: text behind which an operand begins.
* `takeOperand_append`: attached entries behind such a text are taken back, and nothing else is.
* `Paired`: texts with their brackets closed; `Called.attached`: a call in one entry is taken back.
-/

namespace NoteScript.Buffer

open Text

variable {cs front inside : List Char} {e s : String} {operatorsEnd : Bool}

/-! ### The walk -/

/-- The walk goes back over `es`, from the state `depth`, `member` to the state `depth'`, `member'`. -/
def Walked (operatorsEnd : Bool) (depth : Int) (member : Bool) (es : Buffer) (depth' : Int) (member' : Bool) : Prop :=
  ∀ taken older, walkBack operatorsEnd depth member taken (es.reverse ++ older) =
    walkBack operatorsEnd depth' member' (es ++ taken) older

namespace Walked

variable {operatorsEnd member member' member'' : Bool} {depth depth' depth'' : Int} {es es' : Buffer} {e : String}

theorem append (h : Walked operatorsEnd depth member es' depth' member')
    (h' : Walked operatorsEnd depth' member' es depth'' member'') :
    Walked operatorsEnd depth member (es ++ es') depth'' member'' := by
  intro taken older
  rw [List.reverse_append, List.append_assoc, h, h', List.append_assoc]

/-- One entry is passed, unless the walk ends there. -/
theorem step (free : depth = 0 → isBoundary operatorsEnd e = false) (level : 0 ≤ depth + closedIn e.toList) :
    Walked operatorsEnd depth member [e] (depth + closedIn e.toList) (if isBlank e then member else startsMember e) := by
  intro taken older
  have goesOn : ¬ (depth == 0 && !(member && isBlank e) && isBoundary operatorsEnd e) = true := by
    by_cases zero : depth = 0
    · simp [free zero]
    · simp [zero]
  rw [List.reverse_singleton, List.singleton_append, walkBack]
  dsimp only
  rw [if_neg goesOn, if_neg (by omega)]
  rfl

theorem entry (free : depth = 0 → isBoundary operatorsEnd e = false) (level : 0 ≤ depth + closedIn e.toList)
    (solid : isBlank e = false) : Walked operatorsEnd depth member [e] (depth + closedIn e.toList) (startsMember e) := by
  simpa [solid] using @step operatorsEnd member depth e free level

theorem blank (free : depth = 0 → isBoundary operatorsEnd e = false) (level : 0 ≤ depth)
    (flat : closedIn e.toList = 0) (blank : isBlank e = true) : Walked operatorsEnd depth member [e] depth member := by
  simpa [flat, blank] using @step operatorsEnd member depth e free (by omega)

end Walked

/-! ### Inside brackets -/

/-- The brackets that are counted. -/
def countedPairs : List (String × String) := [("(", ")"), ("[", "]")]

/-- Entries that the walk passes inside brackets. -/
def Nested (es : Buffer) : Prop :=
  ∀ operatorsEnd depth member, 1 ≤ depth → ∃ member', Walked operatorsEnd depth member es depth member'

namespace Nested

theorem nil : Nested [] := fun _ _ member _ => ⟨member, fun _ _ => rfl⟩

theorem append {es es' : Buffer} (h : Nested es) (h' : Nested es') : Nested (es ++ es') := by
  intro operatorsEnd depth member inside
  obtain ⟨member', first⟩ := h' operatorsEnd depth member inside
  obtain ⟨member'', second⟩ := h operatorsEnd depth member' inside
  exact ⟨member'', first.append second⟩

theorem entry {e : String} (flat : closedIn e.toList = 0) : Nested [e] := by
  intro operatorsEnd depth member inside
  cases blank : isBlank e with
  | false =>
    have walked := @Walked.entry operatorsEnd member depth e (by omega) (by omega) blank
    rw [flat, Int.add_zero] at walked
    exact ⟨_, walked⟩
  | true => exact ⟨member, .blank (by omega) (by omega) flat blank⟩

/-- A group in brackets is passed from any level on, and continues no chain. -/
theorem walked {operatorsEnd : Bool} {depth : Int} {opening closing : String} {es : Buffer} (h : Nested es)
    (pair : (opening, closing) ∈ countedPairs) (level : 0 ≤ depth) (member : Bool) :
    Walked operatorsEnd depth member ([opening] ++ es ++ [closing]) depth false := by
  have marks : ∀ pair ∈ countedPairs, closedIn pair.1.toList = -1 ∧ closedIn pair.2.toList = 1 ∧ isBlank pair.1 = false ∧
      isBlank pair.2 = false ∧ startsMember pair.1 = false := by decide
  have free : ∀ pair ∈ countedPairs, ∀ operatorsEnd, isBoundary operatorsEnd pair.2 = false := by decide
  obtain ⟨opens, closes, solid, solid', starts⟩ := marks _ pair
  dsimp only at opens closes
  have last := @Walked.entry operatorsEnd member depth closing (fun _ => free _ pair operatorsEnd) (by omega) solid'
  obtain ⟨member', inner⟩ := h operatorsEnd (depth + closedIn closing.toList) (startsMember closing) (by omega)
  have first := @Walked.entry operatorsEnd member' (depth + closedIn closing.toList) opening (by omega) (by omega) solid
  have same : depth + closedIn closing.toList + closedIn opening.toList = depth := by omega
  rw [same, starts] at first
  exact last.append (inner.append first)

theorem group {opening closing : String} {es : Buffer} (h : Nested es) (pair : (opening, closing) ∈ countedPairs) :
    Nested ([opening] ++ es ++ [closing]) :=
  fun _ _ member inside => ⟨_, h.walked pair (by omega) member⟩

end Nested

/-! ### Outside brackets -/

/-- Entries that the walk passes outside brackets too. The oldest of them continues no chain. -/
def Attached (operatorsEnd : Bool) (es : Buffer) : Prop := ∀ member, Walked operatorsEnd 0 member es 0 false

namespace Attached

variable {operatorsEnd : Bool} {es es' : Buffer} {e : String}

theorem append (h : Attached operatorsEnd es) (h' : Attached operatorsEnd es') : Attached operatorsEnd (es ++ es') :=
  fun member => (h' member).append (h false)

theorem entry (free : isBoundary operatorsEnd e = false) (flat : closedIn e.toList = 0) (solid : isBlank e = false)
    (first : startsMember e = false) : Attached operatorsEnd [e] := by
  intro member
  have walked := @Walked.entry operatorsEnd member 0 e (fun _ => free) (by omega) solid
  rwa [flat, Int.add_zero, first] at walked

theorem member (h : Attached operatorsEnd es) (free : isBoundary operatorsEnd e = false) (flat : closedIn e.toList = 0)
    (solid : isBlank e = false) : Attached operatorsEnd (es ++ [e]) := by
  intro member
  have walked := @Walked.entry operatorsEnd member 0 e (fun _ => free) (by omega) solid
  rw [flat, Int.add_zero] at walked
  exact walked.append (h _)

theorem group {opening closing : String} (h : Nested es) (pair : (opening, closing) ∈ countedPairs) :
    Attached operatorsEnd ([opening] ++ es ++ [closing]) :=
  fun member => h.walked pair (Int.le_refl 0) member

/-- An operator between blanks, where operators do not end the operand. -/
theorem binary (h : Attached false es) (h' : Attached false es') (free : isBoundary false e = false)
    (flat : closedIn e.toList = 0) (solid : isBlank e = false) (first : startsMember e = false) :
    Attached false (es ++ [" ", e, " "] ++ es') := by
  intro member
  have blank : Walked false 0 false [" "] 0 false := .blank (fun _ => by decide) (by decide) (by decide) (by decide)
  have sign : Attached false [e] := .entry free flat solid first
  have walked := (h' member).append (blank.append ((sign false).append (blank.append (h false))))
  simpa using walked

end Attached

/-! ### White space -/

theorem closedIn_append (cs ds : List Char) : closedIn (cs ++ ds) = closedIn cs + closedIn ds := by
  induction cs with
  | nil => simp [closedIn]
  | cons c cs ih =>
    rw [List.cons_append, closedIn, closedIn, ih]
    omega

theorem closedIn_eq_zero (h : ∀ c ∈ cs, c ∉ ['(', ')', '[', ']']) : closedIn cs = 0 := by
  induction cs with
  | nil => rfl
  | cons c cs ih =>
    obtain ⟨first, later⟩ := List.forall_mem_cons.mp h
    simp only [List.mem_cons, List.not_mem_nil, or_false, not_or] at first
    rw [closedIn, ih later]
    simp [first]

theorem closedIn_of_isBlank (blank : isBlank e = true) : closedIn e.toList = 0 := by
  have brackets : ∀ c ∈ ['(', ')', '[', ']'], isSpace c = false := by decide
  refine closedIn_eq_zero fun c hc bracket => ?_
  have space : isSpace c = true := List.all_eq_true.mp blank c hc
  simp [brackets c bracket] at space

theorem isBoundary_of_isBlank (blank : isBlank e = true) : isBoundary operatorsEnd e = (operatorsEnd || contains "\n" e) := by
  have all : ∀ c ∈ e.toList, isSpace c = true := List.all_eq_true.mp blank
  have nothing : strip e = "" := by
    have start : e.toList.dropWhile isSpace = [] := by simpa [List.dropWhile_eq_nil_iff] using all
    rw [strip, trim, trimStart, start]
    rfl
  rw [isBoundary, nothing]
  cases contains "\n" e <;> cases operatorsEnd <;> rfl

/-- Blank entries of a line are passed where operators do not end the operand. -/
theorem Walked.blanks {es : Buffer} (blank : ∀ e ∈ es, isBlank e = true) (line : ∀ e ∈ es, contains "\n" e = false)
    (member : Bool) : Walked false 0 member es 0 member := by
  induction es with
  | nil => exact fun _ _ => rfl
  | cons e es ih =>
    obtain ⟨first, others⟩ := List.forall_mem_cons.mp blank
    obtain ⟨plain, later⟩ := List.forall_mem_cons.mp line
    have entry : Walked false 0 member [e] 0 member :=
      .blank (fun _ => by rw [isBoundary_of_isBlank first, plain]; rfl) (Int.le_refl 0) (closedIn_of_isBlank first) first
    exact (ih others later).append entry

/-! ### Where an operand begins -/

/-- A text behind which an operand begins: the walk ends in it, after blank entries at most. -/
def Ready (operatorsEnd : Bool) (older : Buffer) : Prop :=
  ∃ base blanks, older = base ++ blanks ∧ (∀ e ∈ blanks, isBlank e = true) ∧
    ∀ taken, walkBack operatorsEnd 0 false taken older.reverse = (blanks ++ taken, base.reverse)

namespace Ready

variable {out es : Buffer}

theorem nil (operatorsEnd : Bool) : Ready operatorsEnd [] := ⟨[], [], rfl, by simp, fun _ => rfl⟩

/-- The walk ends at an entry that starts an expression, and at a bracket that opens before the operand. -/
theorem stop {operatorsEnd : Bool} {e : String} (out : Buffer)
    (h : isBoundary operatorsEnd e = true ∨ closedIn e.toList < 0) : Ready operatorsEnd (out ++ [e]) := by
  refine ⟨out ++ [e], [], by simp, by simp, fun taken => ?_⟩
  rw [List.reverse_append, List.reverse_singleton, List.singleton_append, walkBack]
  rcases h with boundary | opens
  · simp [boundary]
  · have below : (0 : Int) + closedIn e.toList < 0 := by omega
    dsimp only
    rw [if_pos below, ite_self]
    rfl

theorem blank (out : Buffer) : Ready true (out ++ [" "]) := stop out (.inl (by decide))

/-- Where operators do not end the operand, blanks do not either. -/
theorem behind {e : String} (h : Ready false out) (blank : isBlank e = true) : Ready false (out ++ [e]) := by
  cases feed : contains "\n" e with
  | true => exact stop out (.inl (by rw [isBoundary_of_isBlank blank, feed]; rfl))
  | false =>
    obtain ⟨base, blanks, rfl, others, walk⟩ := h
    refine ⟨base, blanks ++ [e], by simp, ?_, fun taken => ?_⟩
    · intro e' he
      rcases List.mem_append.mp he with he | he
      · exact others e' he
      · rwa [List.mem_singleton.mp he]
    · have walked : Walked false 0 false [e] 0 false :=
        .blanks (List.forall_mem_singleton.mpr blank) (List.forall_mem_singleton.mpr feed) false
      have step := walked taken (base ++ blanks).reverse
      rw [List.reverse_append, step, walk]
      simp

theorem behind_blank (h : Ready false out) : Ready false (out ++ [" "]) := h.behind (by decide)

theorem behind_blanks (h : Ready false out) (blank : ∀ e ∈ es, isBlank e = true) : Ready false (out ++ es) := by
  induction es generalizing out with
  | nil => simpa using h
  | cons e es ih =>
    obtain ⟨first, later⟩ := List.forall_mem_cons.mp blank
    simpa using ih (h.behind first) later

/-- Behind white space an operand begins that operators end. -/
theorem blanks (blank : ∀ e ∈ es, isBlank e = true) (nonempty : es ≠ []) (out : Buffer) : Ready true (out ++ es) := by
  rcases List.eq_nil_or_concat es with rfl | ⟨front, last, rfl⟩
  · exact absurd rfl nonempty
  rw [List.concat_eq_append] at blank ⊢
  have boundary : isBoundary true last = true := isBoundary_of_isBlank (blank last (by simp))
  rw [← List.append_assoc]
  exact stop (out ++ front) (.inl boundary)

/-- On a new line every operand begins. -/
theorem feed (blank : ∀ e ∈ es, isBlank e = true) (fed : es.any (contains "\n") = true) (out : Buffer) :
    Ready false (out ++ es) := by
  induction es using List.reverseRecOn with
  | nil => cases fed
  | append_singleton es e ih =>
    have last : isBlank e = true := blank e (by simp)
    rw [← List.append_assoc]
    cases now : contains "\n" e with
    | true => exact stop (out ++ es) (.inl (by rw [isBoundary_of_isBlank last, now]; rfl))
    | false => exact (ih (fun e' he => blank e' (by simp [he])) (by simpa [now] using fed)).behind last

end Ready

/-! ### Taking back -/

theorem not_isBlank_of_startsSolid (h : startsSolid e = true) : isBlank e = false := by
  rw [startsSolid] at h
  rw [isBlank]
  rcases chars : e.toList with _ | ⟨c, cs⟩
  · simp [chars] at h
  · have solid : isSpace c = false := by simpa [chars] using h
    simp [solid]

/-- The walk over attached entries does not end at the newest of them. -/
theorem Attached.walkBack_eq {front : Buffer} {last : String}
    (h : Attached operatorsEnd (front ++ [last])) (solid : isBlank last = false) (older : List String) :
    ¬ closedIn last.toList < 0 ∧
      walkBack operatorsEnd (closedIn last.toList) (startsMember last) [last] (front.reverse ++ older) =
        walkBack operatorsEnd 0 false (front ++ [last]) older := by
  have whole := h false [] []
  have further := h false [] older
  simp only [List.reverse_append, List.reverse_singleton, List.append_nil, List.nil_append, List.cons_append, walkBack,
    solid, Int.zero_add, Bool.false_eq_true, if_false] at whole further
  by_cases boundary : (0 == (0 : Int) && !(false && false) && isBoundary operatorsEnd last) = true
  · rw [if_pos boundary] at whole
    simp at whole
  · rw [if_neg boundary] at whole further
    by_cases below : closedIn last.toList < 0
    · rw [if_pos below] at whole
      simp at whole
    · rw [if_neg below] at further
      exact ⟨below, further⟩

/-! ### Brackets of a text -/

/-- The last round bracket of a text. -/
def lastRound (cs : List Char) : Option Char := cs.reverse.find? fun c => c == '(' || c == ')'

/-- The last round bracket of a text, if it has one, closes. -/
def Tame (cs : List Char) : Prop := lastRound cs ≠ some '('

namespace Tame

theorem append {cs ds : List Char} (h : Tame cs) (h' : Tame ds) : Tame (cs ++ ds) := by
  rw [Tame, lastRound, List.reverse_append, List.find?_append]
  cases last : ds.reverse.find? fun c => c == '(' || c == ')' with
  | none => simpa [Tame, lastRound] using h
  | some c => simpa [Tame, lastRound, last] using h'

/-- Whatever stands in front of a bracket that closes. -/
theorem close (cs : List Char) {ds : List Char} (h : lastRound ds = some ')') : Tame (cs ++ ds) := by
  rw [lastRound] at h
  simp [Tame, lastRound, List.find?_append, h]

theorem flat {cs : List Char} (h : ∀ c ∈ cs, c ∉ ['(', ')', '[', ']']) : Tame cs := by
  have none : lastRound cs = none := by
    rw [lastRound, List.find?_eq_none]
    intro c hc round
    have := h c (List.mem_reverse.mp hc)
    simp_all
  simp [Tame, none]

end Tame

theorem reverse_bracketed (front inside : List Char) :
    (front ++ '(' :: (inside ++ [')'])).reverse = ')' :: (inside.reverse ++ '(' :: front.reverse) := by simp

/-- A bracketed text ends in the parameter list of a function only behind the head of one. -/
theorem endsParameters_eq_false (tame : Tame inside)
    (head : endsFunctionHead front.reverse = false) : endsParameters (front ++ '(' :: (inside ++ [')'])) = false := by
  have back := reverse_bracketed front inside
  cases last : lastRound inside with
  | none =>
    have flat : ∀ c ∈ inside.reverse, (c != '(' && c != ')') = true := by
      intro c hc
      rw [lastRound, List.find?_eq_none] at last
      have := last c hc
      simp_all
    have run : (inside.reverse ++ '(' :: front.reverse).takeWhile (fun c => c != '(' && c != ')') = inside.reverse := by
      rw [List.takeWhile_append_of_pos flat]
      simp
    simp only [endsParameters, back, run, List.drop_left, head]
  | some c =>
    obtain ⟨round, run, rest, shape, flat⟩ := List.find?_eq_some_iff_append.mp last
    have closes : c = ')' := by
      have other : c ≠ '(' := fun same => tame (by rw [last, same])
      simpa [other] using round
    subst closes
    have others : ∀ c ∈ run, (c != '(' && c != ')') = true := by
      intro c hc
      have := flat c hc
      simp_all
    have run' : (inside.reverse ++ '(' :: front.reverse).takeWhile (fun c => c != '(' && c != ')') = run := by
      rw [shape, List.append_assoc, List.takeWhile_append_of_pos others]
      simp
    have rest' : (inside.reverse ++ '(' :: front.reverse).drop run.length = ')' :: (rest ++ '(' :: front.reverse) := by
      rw [shape, List.append_assoc, List.drop_left]
      rfl
    simp only [endsParameters, back, run', rest']
    rfl

/-! ### Entries that are no boundary -/

theorem contains_newline_iff : contains "\n" s = true ↔ '\n' ∈ s.toList := by
  have feed : "\n".toList = ['\n'] := rfl
  rw [contains, feed]
  induction s.toList with
  | nil => simp [occursIn]
  | cons c cs ih => simp [occursIn, List.isPrefixOf, ih]

theorem contains_newline (h : '\n' ∉ s.toList) : contains "\n" s = false := Bool.eq_false_iff.mpr (mt contains_newline_iff.mp h)

/-- The words after which a body starts. -/
def bodyWords : List String := ["return", "then", "do", "else", "repeat"]

theorem endsInWord_eq_false {word : String} (solid : ∀ c ∈ cs, isSpace c = false)
    (other : cs ≠ word.toList) : endsInWord word isSpace cs.reverse = false := by
  rw [endsInWord, Bool.and_eq_false_iff, ← Bool.not_eq_true, List.isPrefixOf_iff_prefix]
  by_cases isPrefix : word.toList.reverse <+: cs.reverse
  · obtain ⟨rest, shape⟩ := isPrefix
    right
    rw [← shape, ← String.length_toList, ← List.length_reverse, List.drop_left]
    rcases rest with _ | ⟨c, rest⟩
    · rw [List.append_nil, List.reverse_inj] at shape
      exact absurd shape.symm other
    · have inside : c ∈ cs := List.mem_reverse.mp (by rw [← shape]; simp)
      simp [solid c inside]
  · exact .inl isPrefix

/-- A text without white space that is none of the words and does not end in a bracket. -/
theorem opensBody_of_solid (solid : ∀ c ∈ s.toList, isSpace c = false) (other : s ∉ bodyWords)
    (last : s.toList.getLast? ≠ some ')') : opensBody s.toList = false := by
  have parameters : endsParameters s.toList = false := by
    rw [← List.head?_reverse] at last
    rw [endsParameters]
    split
    · rename_i back shape
      simp [shape] at last
    · rfl
  have words : ∀ word ∈ bodyWords, endsInWord word isSpace s.toList.reverse = false := by
    intro word mem
    refine endsInWord_eq_false solid fun same => other ?_
    rwa [String.toList_inj.mp same]
  rw [opensBody, parameters, Bool.or_false, List.any_eq_false]
  intro word mem
  simp [words word mem]

/-- A bracketed text starts a body only behind the head of a function. -/
theorem opensBody_of_close (tame : Tame inside)
    (head : endsFunctionHead front.reverse = false) : opensBody (front ++ '(' :: (inside ++ [')'])) = false := by
  have words : ∀ word ∈ bodyWords, ∀ cs, word.toList.reverse.isPrefixOf (')' :: cs) = false := by
    intro word mem cs
    simp only [bodyWords, List.mem_cons, List.not_mem_nil, or_false] at mem
    rcases mem with rfl | rfl | rfl | rfl | rfl <;> rfl
  rw [opensBody, endsParameters_eq_false tame head, Bool.or_false, List.any_eq_false]
  intro word mem
  rw [endsInWord, reverse_bracketed, words word mem]
  simp

theorem isBoundary_eq_false (plain : '\n' ∉ e.toList) (starts : startsSolid e = true)
    (ends : endsSolid e = true) (word : e ∉ statementWords ++ binaryOperators) (value : endsAssignment e.toList = false)
    (body : opensBody e.toList = false) : isBoundary operatorsEnd e = false := by
  have bare : strip e = e := strip_of_solid starts ends
  have nonempty : e.isEmpty = false := by
    cases empty : e.isEmpty with
    | false => rfl
    | true =>
      rw [String.isEmpty_iff.mp empty] at starts
      cases starts
  simp only [List.mem_append, not_or] at word
  simp [isBoundary, bare, contains_newline plain, nonempty, word.1, word.2, value, body]

/-- A text without white space, brackets and signs is a boundary only as one of the words. -/
theorem isBoundary_of_solid (nonempty : s ≠ "") (solid : ∀ c ∈ s.toList, isSpace c = false ∧ c ≠ '=' ∧ c ≠ ')')
    (other : s ∉ statementWords ++ binaryOperators ++ bodyWords) : isBoundary operatorsEnd s = false := by
  have spaces : ∀ c ∈ s.toList, isSpace c = false := fun c hc => (solid c hc).1
  have last : ∀ c, s.toList.getLast? = some c → c ≠ '=' ∧ c ≠ ')' := fun c hc =>
    (solid c (List.mem_of_getLast? hc)).2
  rw [List.mem_append, not_or] at other
  refine isBoundary_eq_false (fun feed => ?_) (startsSolid_of_solid nonempty spaces) (endsSolid_of_solid nonempty spaces)
    other.1 ?_ (opensBody_of_solid spaces other.2 fun close => (last ')' close).2 rfl)
  · exact absurd (spaces '\n' feed) (by decide)
  · rw [endsAssignment]
    split
    · rename_i shape
      exact absurd rfl (last '=' (by rw [← List.head?_reverse, shape]; rfl)).1
    · rename_i shape
      exact absurd rfl (last '=' (by rw [← List.head?_reverse, shape]; rfl)).1
    · rfl

/-- A bracketed text is a boundary only behind the head of a function. -/
theorem isBoundary_of_close
    (shape : e.toList = front ++ '(' :: (inside ++ [')'])) (plain : '\n' ∉ e.toList) (starts : startsSolid e = true)
    (tame : Tame inside) (head : endsFunctionHead front.reverse = false) : isBoundary operatorsEnd e = false := by
  have last : e.toList.getLast? = some ')' := by
    rw [shape, ← List.cons_append, ← List.append_assoc, List.getLast?_concat]
  refine isBoundary_eq_false plain starts ?_ ?_ ?_ (by rw [shape]; exact opensBody_of_close tame head)
  · rw [endsSolid, last]
    decide
  · intro mem
    have words : ∀ word ∈ statementWords ++ binaryOperators, word.toList.getLast? ≠ some ')' := by decide
    exact words e mem last
  · have back : e.toList.reverse = ')' :: (inside.reverse ++ '(' :: front.reverse) := by simp [shape]
    rw [endsAssignment, back]
    rfl

/-! ### Texts with their brackets closed -/

/-- From a level on, a text closes the brackets that are open and those that it opens, and never one more. -/
def closes (level : Int) : List Char → Bool
  | [] => level == 0
  | c :: rest => decide (level ≤ 0) && closes (level + closedIn [c]) rest

theorem closes_iff {level : Int} : closes level cs = true ↔ level + closedIn cs = 0 ∧ ∀ n, level + closedIn (cs.take n) ≤ 0 := by
  induction cs generalizing level with
  | nil =>
    simp only [closes, beq_iff_eq, List.take_nil, closedIn, forall_const]
    omega
  | cons c cs ih =>
    have first : ∀ ds, closedIn (c :: ds) = closedIn [c] + closedIn ds := fun ds => closedIn_append [c] ds
    simp only [closes, Bool.and_eq_true, decide_eq_true_eq, ih, first cs]
    constructor
    · rintro ⟨below, level, inside⟩
      refine ⟨by omega, fun n => ?_⟩
      cases n with
      | zero => simpa [closedIn] using below
      | succ n =>
        have := inside n
        rw [List.take_succ_cons, first]
        omega
    · rintro ⟨level, inside⟩
      refine ⟨by simpa [closedIn] using inside 0, by omega, fun n => ?_⟩
      have := inside (n + 1)
      rw [List.take_succ_cons, first] at this
      omega

theorem closes_append {ds : List Char} (h : closes 0 cs = true) (h' : closes 0 ds = true) : closes 0 (cs ++ ds) = true := by
  obtain ⟨level, inside⟩ := closes_iff.mp h
  obtain ⟨level', inside'⟩ := closes_iff.mp h'
  refine closes_iff.mpr ⟨by rw [closedIn_append]; omega, fun n => ?_⟩
  have := inside n
  have := inside' (n - cs.length)
  rw [List.take_append, closedIn_append]
  omega

/-- Do two texts close what they open, on one line and without quotes, and a round bracket last? -/
def encloses (front back : String) : Bool :=
  decide (∀ c ∈ front.toList ++ back.toList, c ∉ ['\n', '"']) && closes 0 (front.toList ++ back.toList) &&
    decide (lastRound back.toList = some ')' ∨ lastRound front.toList = none ∧ lastRound back.toList = none)

/-- A text on one line and without quotes that closes its brackets one after the other, and a round one last. -/
structure Paired (s : String) : Prop where
  line : '\n' ∉ s.toList
  quote : '"' ∉ s.toList
  level : closedIn s.toList = 0
  inside (n : Nat) : closedIn (s.toList.take n) ≤ 0
  tame : Tame s.toList

namespace Paired

variable {s s' : String}

theorem flat (h : ∀ c ∈ s.toList, c ∉ ['(', ')', '[', ']', '\n', '"']) : Paired s := by
  have round : ∀ c ∈ s.toList, c ∉ ['(', ')', '[', ']'] := by
    intro c hc
    have := h c hc
    simp_all
  constructor
  · intro feed
    exact h _ feed (by decide)
  · intro quote
    exact h _ quote (by decide)
  · exact closedIn_eq_zero round
  · exact fun n => Int.le_of_eq (closedIn_eq_zero fun c hc => round c (List.mem_of_mem_take hc))
  · exact .flat round

theorem append (h : Paired s) (h' : Paired s') : Paired (s ++ s') := by
  constructor
  · simp [h.line, h'.line]
  · simp [h.quote, h'.quote]
  · rw [String.toList_append, closedIn_append, h.level, h'.level]
    rfl
  · intro n
    rw [String.toList_append, List.take_append, closedIn_append]
    have := h.inside n
    have := h'.inside (n - s.toList.length)
    omega
  · rw [String.toList_append]
    exact h.tame.append h'.tame

/-- Two texts with a mark between them that has no brackets. -/
theorem between (h : Paired s) (h' : Paired s') {mark : String} (plain : ∀ c ∈ mark.toList, c ∉ ['(', ')', '[', ']', '\n', '"']) :
    Paired (s ++ mark ++ s') := (h.append (.flat plain)).append h'

/-- A text in the middle of two that together close their brackets. -/
theorem enclosed (h : Paired s) {front back : String} (frame : encloses front back = true) : Paired (front ++ s ++ back) := by
  obtain ⟨⟨plain, closed⟩, tame⟩ := by simpa only [encloses, Bool.and_eq_true, decide_eq_true_eq] using frame
  obtain ⟨level, inside⟩ := closes_iff.mp closed
  simp only [Int.zero_add, closedIn_append] at level inside
  have closing : ∀ m, closedIn front.toList + closedIn (back.toList.take m) ≤ 0 := by
    intro m
    have := inside (front.toList.length + m)
    rwa [List.take_append, closedIn_append, List.take_of_length_le (by omega), Nat.add_sub_cancel_left] at this
  constructor
  · intro feed
    have inside := h.line
    have outside := plain '\n'
    simp_all
  · intro quote
    have inside := h.quote
    have outside := plain '"'
    simp_all
  · simp only [String.toList_append, closedIn_append, h.level]
    omega
  · intro n
    simp only [String.toList_append, List.append_assoc, List.take_append, closedIn_append]
    -- inside the text in the middle as many brackets are open as at its start, or more
    rcases Nat.lt_or_ge n front.toList.length with short | long
    · have nothing : n - front.toList.length = 0 := by omega
      have := inside n
      simp only [List.take_append, closedIn_append, nothing, List.take_zero, Nat.zero_sub] at this ⊢
      exact this
    · rw [List.take_of_length_le long]
      rcases Nat.lt_or_ge (n - front.toList.length) s.toList.length with within | behind
      · have nothing : n - front.toList.length - s.toList.length = 0 := by omega
        have start := closing 0
        have middle := h.inside (n - front.toList.length)
        simp only [nothing, List.take_zero, closedIn] at start ⊢
        omega
      · have := closing (n - front.toList.length - s.toList.length)
        rw [List.take_of_length_le behind, h.level]
        omega
  · rw [String.toList_append, String.toList_append]
    rcases tame with closes | ⟨first, last⟩
    · exact .close _ closes
    · have opening : Tame front.toList := by simp [Tame, first]
      have closing : Tame back.toList := by simp [Tame, last]
      exact (opening.append h.tame).append closing

theorem suffix (h : Paired s) (h' : Paired s') {front back : String} (frame : encloses front back = true) :
    Paired (s ++ front ++ s' ++ back) := by
  have shape : s ++ front ++ s' ++ back = s ++ (front ++ s' ++ back) := by simp only [String.append_assoc]
  rw [shape]
  exact h.append (h'.enclosed frame)

theorem closes (h : Paired s) : closes 0 s.toList = true :=
  closes_iff.mpr ⟨by rw [h.level]; rfl, fun n => by have := h.inside n; omega⟩

/-- Where the text of some entries has no quote, none of them has one. -/
theorem quote_notMem {es : Buffer} (h : Paired (text es)) : ∀ e ∈ es, '"' ∉ e.toList := by
  intro e mem quote
  refine h.quote ?_
  rw [text, String.toList_join]
  exact List.mem_flatten.mpr ⟨e.toList, List.mem_map_of_mem mem, quote⟩

end Paired

/-- Does a text start with something that begins an operand? -/
def startsOperand (e : String) : Bool := e.toList.head?.any fun c => !isSpace c && c != '.' && c != ':'

theorem startsSolid_of_startsOperand (h : startsOperand e = true) : startsSolid e = true := by
  rw [startsOperand] at h
  rw [startsSolid]
  cases head : e.toList.head? with
  | none => simp [head] at h
  | some c => simp_all

theorem startsSolid_of_head {es : Buffer} (starts : es.head?.any startsOperand = true) : startsSolid (text es) = true := by
  cases es with
  | nil => cases starts
  | cons first others => exact startsSolid_text (startsSolid_of_startsOperand starts)

theorem startsOperand_append (h : startsOperand e = true) (further : String) : startsOperand (e ++ further) = true := by
  rw [startsOperand] at h ⊢
  rw [String.toList_append, List.head?_append]
  cases head : e.toList.head? with
  | none => simp [head] at h
  | some c => simpa [head] using h

theorem startsMember_eq_false (h : startsOperand e = true) : startsMember e = false := by
  rw [startsOperand] at h
  rw [startsMember, stripStart, trimStart, String.toList_ofList]
  rcases chars : e.toList with _ | ⟨c, cs⟩
  · rfl
  · simp only [chars, List.head?_cons, Option.any_some, Bool.and_eq_true] at h
    obtain ⟨⟨solid, point⟩, colon⟩ := h
    simp_all

/-- A call, or a text in brackets, in one entry. -/
inductive Called : String → Prop where
  | mk {callee inside : String} : Paired callee → Paired inside →
      endsFunctionHead callee.toList.reverse = false → startsOperand (callee ++ "(") = true →
      Called (callee ++ "(" ++ inside ++ ")")

namespace Called

variable {e : String}

theorem paired (h : Called e) : Paired e := by
  cases h with
  | mk callee inside _ _ => exact callee.suffix inside (by decide)

theorem starts (h : Called e) : startsOperand e = true := by
  cases h with
  | mk _ _ _ starts => exact startsOperand_append (startsOperand_append starts _) _

theorem ends (h : Called e) : endsSolid e = true := by
  cases h with
  | mk => exact endsSolid_append _ (by decide)

/-- A call is taken back as a whole. -/
theorem attached (h : Called e) (operatorsEnd : Bool) : Attached operatorsEnd [e] := by
  have paired := h.paired
  have starts := h.starts
  have solid := startsSolid_of_startsOperand starts
  cases h with
  | @mk callee inside _ inner head _ =>
    have shape : (callee ++ "(" ++ inside ++ ")").toList = callee.toList ++ '(' :: (inside.toList ++ [')']) := by simp
    exact .entry (isBoundary_of_close shape paired.line solid inner.tame head) paired.level
      (not_isBlank_of_startsSolid solid) (startsMember_eq_false starts)

end Called

/-! ### Entries that make an operand -/

/-- Entries that are taken back together, as an operand that operators end or that they do not end. -/
structure IsOperand (operatorsEnd : Bool) (es : Buffer) : Prop where
  attached : Attached operatorsEnd es
  starts : es.head?.any startsOperand = true
  ends : es.getLast?.any endsSolid = true
  paired : Paired (text es)

theorem Called.isOperand (h : Called e) (operatorsEnd : Bool) : IsOperand operatorsEnd [e] where
  attached := h.attached operatorsEnd
  starts := h.starts
  ends := h.ends
  paired := by rw [text_singleton]; exact h.paired

theorem getLast?_any_append (es : Buffer) {es' : Buffer} (ends : es'.getLast?.any endsSolid = true) :
    (es ++ es').getLast?.any endsSolid = true := by
  rw [List.getLast?_append]
  cases last : es'.getLast? with
  | none => simp [last] at ends
  | some => simpa [last] using ends

namespace IsOperand

variable {operatorsEnd : Bool} {es es' : Buffer}

/-- An operand with something behind it that hangs on it. -/
theorem extend (h : IsOperand operatorsEnd es) (attached : Attached operatorsEnd (es ++ es'))
    (ends : es'.getLast?.any endsSolid = true) (paired : Paired (text es')) : IsOperand operatorsEnd (es ++ es') where
  attached := attached
  starts := by
    have starts := h.starts
    cases es with
    | nil => cases starts
    | cons => exact starts
  ends := getLast?_any_append es ends
  paired := by
    rw [text_append]
    exact h.paired.append paired

theorem append (h : IsOperand operatorsEnd es) (h' : IsOperand operatorsEnd es') : IsOperand operatorsEnd (es ++ es') :=
  h.extend (h.attached.append h'.attached) h'.ends h'.paired

/-- Two conditions on one line are one, with the blanks between them. -/
theorem spaced (h : IsOperand false es) (h' : IsOperand false es') {gap : Buffer}
    (blank : ∀ e ∈ gap, isBlank e = true) (line : ∀ e ∈ gap, contains "\n" e = false) :
    IsOperand false (es ++ gap ++ es') := by
  have attached : Attached false (es ++ gap ++ es') :=
    fun member => (h'.attached member).append ((Walked.blanks blank line false).append (h.attached false))
  have paired : Paired (text gap) := by
    refine .flat fun c hc mem => ?_
    rw [text, String.toList_join] at hc
    obtain ⟨e, he, inside⟩ := List.mem_flatMap.mp hc
    have space : isSpace c = true := List.all_eq_true.mp (blank e he) c inside
    have others : ∀ c ∈ ['(', ')', '[', ']', '\n', '"'], isSpace c = true → c = '\n' := by decide
    rw [others c mem space] at inside
    have := line e he
    simp [contains_newline_iff.mpr inside] at this
  rw [List.append_assoc] at attached ⊢
  refine h.extend attached (getLast?_any_append gap h'.ends) ?_
  rw [text_append]
  exact paired.append h'.paired

theorem group (h : IsOperand operatorsEnd es) {inner : Buffer} (nested : Nested inner) (paired : Paired (text inner))
    {opening closing : String} (pair : (opening, closing) ∈ countedPairs) :
    IsOperand operatorsEnd (es ++ ([opening] ++ inner ++ [closing])) := by
  have marks : ∀ pair ∈ countedPairs, endsSolid pair.2 = true ∧ encloses pair.1 pair.2 = true := by decide
  obtain ⟨ends, frame⟩ := marks _ pair
  refine h.extend (h.attached.append (.group nested pair)) (getLast?_any_append _ (by simpa using ends)) ?_
  rw [text_append, text_append, text_singleton, text_singleton]
  exact paired.enclosed frame

theorem text_ne_empty (h : IsOperand operatorsEnd es) : text es ≠ "" := by
  intro empty
  have starts := startsSolid_of_head h.starts
  rw [empty] at starts
  cases starts

theorem strip_text (h : IsOperand operatorsEnd es) : strip (text es) = text es :=
  strip_of_solid (startsSolid_of_head h.starts) (endsSolid_text h.ends)

end IsOperand

/-- An operand behind a text where one begins is taken back, with the blanks behind it. -/
theorem takeOperand_append {older es trail : Buffer} (ready : Ready operatorsEnd older)
    (operand : IsOperand operatorsEnd es) (blank : ∀ e ∈ trail, isBlank e = true) :
    takeOperand (older ++ es ++ trail) operatorsEnd = (text es, older) := by
  have starts := operand.starts
  have ends := operand.ends
  obtain ⟨base, blanks, rfl, blank', walk⟩ := ready
  rw [← operand.strip_text]
  rcases List.eq_nil_or_concat es with rfl | ⟨front, last, rfl⟩
  · cases starts
  rw [List.concat_eq_append] at *
  have solid : isBlank last = false := not_isBlank_of_endsSolid (by simpa using ends)
  obtain ⟨level, walked⟩ := operand.attached.walkBack_eq solid (base ++ blanks).reverse
  have entries : operandEntries (base ++ blanks ++ (front ++ [last]) ++ trail) operatorsEnd =
      (front ++ [last], (base ++ blanks).reverse) := by
    have newest : (base ++ blanks ++ (front ++ [last]) ++ trail).reverse.dropWhile isBlank =
        last :: (front.reverse ++ (base ++ blanks).reverse) := by
      rw [List.reverse_append, List.dropWhile_append_of_pos (by simpa using blank), List.reverse_append,
        List.reverse_append, List.reverse_singleton, List.singleton_append, List.cons_append,
        List.dropWhile_cons_of_neg (by simp [solid])]
    obtain ⟨first, others, shape⟩ : ∃ first others, front ++ [last] = first :: others := List.exists_cons_of_ne_nil (by simp)
    have head : isBlank first = false := not_isBlank_of_startsSolid (startsSolid_of_startsOperand (by simpa [shape] using starts))
    rw [operandEntries, newest]
    dsimp only
    rw [if_neg level, walked, walk, shape]
    have rest : (blanks ++ first :: others).dropWhile isBlank = first :: others := by
      rw [List.dropWhile_append_of_pos blank', List.dropWhile_cons_of_neg (by simp [head])]
    have lead : (blanks ++ first :: others).takeWhile isBlank = blanks := by
      rw [List.takeWhile_append_of_pos blank', List.takeWhile_cons_of_neg (by simp [head]), List.append_nil]
    simp [rest, lead]
  simp only [takeOperand, entries, List.reverse_reverse]

end NoteScript.Buffer

import NoteScript.Proofs.Characters
import NoteScript.Text.Edit
import NoteScript.Token.Scan

/-!
# Tokens are cut as they were spelled

The other direction of cutting: which token lists are cut back from their own text? A token has to be
spelled as its class asks (`Readable`), and the character behind it must not belong to it (`endsAt`).
Main results:

* `first_of_readable`: such a token is the first one of its text and what follows.
* `endsAt_of_apart`: two readable tokens stay apart by their classes alone, in the cases listed there.
* `tokenize_legible`: a list of readable tokens that stay apart is cut back from its text.
* `ReadBack`: the same for lists with comments in them, which are put together piece by piece.
-/

namespace NoteScript.Token

open Text

variable {cs rest : List Char} {divides : Bool} {c : Char} {t : Token} {ts : List Token}

/-! ### Runs -/

/-- A run ends in front of what is of another kind. -/
theorem takeWhile_append_of_head? {α : Type} {p : α → Bool} {xs rest : List α} (stops : ∀ x ∈ rest.head?, p x = false) :
    (xs ++ rest).takeWhile p = xs.takeWhile p := by
  induction xs with
  | nil =>
    cases rest with
    | nil => rfl
    | cons x rest => exact List.takeWhile_cons_of_neg (by simp [stops x rfl])
  | cons x xs ih => rw [List.cons_append, List.takeWhile_cons, List.takeWhile_cons, ih]

theorem run_append {p : Char → Bool} (all : ∀ c ∈ cs, p c = true)
    (ends : rest.head?.all (!p ·) = true) : run p (cs ++ rest) = cs.length := by
  have stops : ∀ c ∈ rest.head?, p c = false := by simpa [Option.all_eq_true] using ends
  have nothing : ([] ++ rest).takeWhile p = [].takeWhile p := takeWhile_append_of_head? stops
  rw [List.nil_append, List.takeWhile_nil] at nothing
  rw [run, List.takeWhile_append_of_pos all, nothing, List.append_nil]

/-! ### Spelling -/

/-- A text that can be the text of an identifier. -/
def isNameText (s : String) : Bool := match s.toList with
  | [] => false
  | c :: cs => startsName c && cs.all continuesName

theorem continuesName_of_isNameText {s : String} (h : isNameText s = true) : s ≠ "" ∧ ∀ c ∈ s.toList, continuesName c = true := by
  unfold isNameText at h
  rcases chars : s.toList with _ | ⟨c, cs⟩
  · simp [chars] at h
  · simp only [chars, Bool.and_eq_true, List.all_eq_true] at h
    refine ⟨fun empty => by simp [empty] at chars, fun d hd => ?_⟩
    rcases List.mem_cons.mp hd with rfl | later
    · exact continuesName_of_startsName h.1
    · exact h.2 d later

theorem solid_of_isNameText {s : String} (h : isNameText s = true) : s ≠ "" ∧ ∀ c ∈ s.toList, isSpace c = false := by
  obtain ⟨nonempty, inside⟩ := continuesName_of_isNameText h
  exact ⟨nonempty, fun c hc => isSpace_of_continuesName (inside c hc)⟩

/-- All operators. -/
def operators : List String := ["===", "!==", "=>", "&&", "||", "==", "!=", ">=", "<=", "+=", "-=", "++", "--",
   "+", "-", "*", "/", "%", "=", "!", "<", ">", "."]

/-- Is a token spelled as its class asks, where `divides` says whether a slash divides at its start?
Strings, templates, regular expressions and comments are not considered. -/
def Readable (divides : Bool) (t : Token) : Bool := match t.kind with
  | .identifier => isNameText t.text
  | .number => !t.text.isEmpty && t.text.toList.all Char.isDigit
  | .space => !t.text.isEmpty && t.text.toList.all isInlineSpace
  | .newline => t.text == "\n"
  | .punctuation => punctuation.any fun c => t.text == String.singleton c
  | .operator => operators.contains t.text && (divides || t.text != "/")
  | _ => false

/-- The characters that can go on or change an operator. -/
def operatorTails : List Char := ['=', '>', '&', '|', '+', '-', '*', '/']

/-- Does a token end in front of a character? -/
def endsAt (t : Token) (next : Option Char) : Bool := match t.kind with
  | .identifier => next.all (!continuesName ·)
  | .number => next.all fun c => !continuesName c && c != '.'
  | .space => next.all (!isInlineSpace ·)
  | .operator => next.all fun c => !operatorTails.contains c && (t.text != "." || !c.isDigit)
  | _ => true

theorem endsAt_none (t : Token) : t.endsAt none = true := by
  unfold endsAt
  split <;> rfl

/-- Does a slash divide behind a token? -/
def dividesAfter (divides : Bool) (t : Token) : Bool := if t.isTrivia then divides else t.endsOperand

/-! ### The first token of a text -/

/-- A character of a name starts a number or a name. -/
theorem first_of_continuesName (inside : continuesName c = true) (rest : List Char) :
    first divides c rest = if c.isDigit then (.number, numberExtent (c :: rest))
      else if startsName c then (.identifier, run continuesName (c :: rest)) else symbol c rest := by
  have newline := ne_of_continuesName inside '\n' (by decide)
  have slash := ne_of_continuesName inside '/' (by decide)
  have back := ne_of_continuesName inside backtick (by decide)
  have single := ne_of_continuesName inside '\'' (by decide)
  have double := ne_of_continuesName inside '"' (by decide)
  have point := ne_of_continuesName inside '.' (by decide)
  simp only [first, newline, slash, back, single, double, point, if_false, Bool.false_and, Bool.or_false,
    isInlineSpace_of_continuesName inside, Bool.false_eq_true, beq_eq_false_iff_ne.mpr, ne_eq, not_false_eq_true]

theorem first_name (starts : startsName c = true)
    (all : ∀ d ∈ cs, continuesName d = true) (ends : rest.head?.all (!continuesName ·) = true) :
    first divides c (cs ++ rest) = (.identifier, cs.length + 1) := by
  have inside := continuesName_of_startsName starts
  have extent : run continuesName (c :: cs ++ rest) = (c :: cs).length := run_append (by simpa [inside] using all) ends
  rw [first_of_continuesName inside, if_neg (by simp [isDigit_of_startsName starts]), if_pos starts]
  exact congrArg _ extent

theorem fractionExtent_eq_zero (h : cs.head? ≠ some '.') : fractionExtent cs = 0 := by
  unfold fractionExtent
  split
  · exact absurd rfl h
  · rfl

theorem exponentExtent_eq_zero (h : cs.head?.all (!continuesName ·) = true) : exponentExtent cs = 0 := by
  rcases cs with _ | ⟨c, cs⟩
  · rfl
  · have outside : continuesName c = false := by simpa using h
    have small : c ≠ 'e' := by
      rintro rfl
      cases outside
    have large : c ≠ 'E' := by
      rintro rfl
      cases outside
    simp [exponentExtent, small, large]

/-- What starts with digits, with neither a letter nor a point behind them, is a number of those digits. A
letter behind a leading zero would make it hexadecimal. -/
theorem numberExtent_digits (all : ∀ d ∈ c :: cs, d.isDigit = true)
    (word : rest.head?.all (!continuesName ·) = true) (point : rest.head? ≠ some '.') :
    numberExtent (c :: (cs ++ rest)) = cs.length + 1 := by
  have whole : run Char.isDigit (c :: cs ++ rest) = (c :: cs).length := by
    refine run_append all ?_
    rcases rest with _ | ⟨d, rest⟩
    · rfl
    · rcases digit : d.isDigit with _ | _
      · simp [digit]
      · simp [continuesName_of_isDigit digit] at word
  have decimal : numberExtent (c :: (cs ++ rest)) = decimalExtent (c :: (cs ++ rest)) := by
    have notHex (x : Char) (hx : continuesName x = true) (letter : x.isDigit = false) (tail : List Char) :
        cs ++ rest ≠ x :: tail := by
      intro same
      rcases cs with _ | ⟨d, cs⟩
      · simp only [List.nil_append] at same
        simp [same, hx] at word
      · cases same
        simp [all x (by simp)] at letter
    unfold numberExtent
    split
    · rename_i same
      exact absurd (List.cons.inj same).2 (notHex 'x' (by decide) (by decide) _)
    · rename_i same
      exact absurd (List.cons.inj same).2 (notHex 'X' (by decide) (by decide) _)
    · rfl
  have behind : (c :: (cs ++ rest)).drop (cs.length + 1) = rest := by simp
  rw [List.cons_append, List.length_cons] at whole
  rw [decimal, decimalExtent]
  simp only [whole, behind, fractionExtent_eq_zero point, Nat.add_zero, exponentExtent_eq_zero word]

theorem first_number (all : ∀ d ∈ c :: cs, d.isDigit = true)
    (word : rest.head?.all (!continuesName ·) = true) (point : rest.head? ≠ some '.') :
    first divides c (cs ++ rest) = (.number, cs.length + 1) := by
  have digit := all c List.mem_cons_self
  rw [first_of_continuesName (continuesName_of_isDigit digit), if_pos digit]
  exact congrArg _ (numberExtent_digits all word point)

theorem first_space (space : isInlineSpace c = true)
    (all : ∀ d ∈ cs, isInlineSpace d = true) (ends : rest.head?.all (!isInlineSpace ·) = true) :
    first divides c (cs ++ rest) = (.space, cs.length + 1) := by
  have newline : c ≠ '\n' := by
    rintro rfl
    cases space
  have extent : run isInlineSpace (c :: cs ++ rest) = (c :: cs).length := run_append (by simpa [space] using all) ends
  simp only [first, newline, beq_iff_eq, if_false, space, if_true]
  exact congrArg _ extent

theorem first_punctuation (rest : List Char) (mark : c ∈ punctuation) : first divides c rest = (.punctuation, 1) := by
  simp only [punctuation, List.mem_cons, List.not_mem_nil, or_false] at mark
  rcases mark with rfl | rfl | rfl | rfl | rfl | rfl | rfl | rfl | rfl | rfl <;> rfl

/-- No operator is cut longer than it is, if what follows goes on none. -/
theorem symbol_operator {op : String} (found : op ∈ operators)
    (text : op.toList = c :: cs) (ends : rest.head?.all (!operatorTails.contains ·) = true) :
    symbol c (cs ++ rest) = (.operator, cs.length + 1) := by
  have chars : c :: cs ∈ operators.map String.toList := text ▸ List.mem_map_of_mem found
  simp only [operators, List.map_cons, List.map_nil, String.reduceToList, List.mem_cons,
    List.not_mem_nil, or_false, List.cons.injEq] at chars
  rcases rest with _ | ⟨d, rest⟩
  · rcases chars with h | h | h | h | h | h | h | h | h | h | h | h | h | h | h | h | h | h | h | h | h | h | h <;>
      obtain ⟨rfl, rfl⟩ := h <;> rfl
  · have tails : ∀ x ∈ operatorTails, (x == d) = false := by
      intro x hx
      rw [beq_eq_false_iff_ne]
      rintro rfl
      simp [hx] at ends
    simp only [operatorTails, List.mem_cons, List.not_mem_nil, or_false, forall_eq_or_imp, forall_eq] at tails
    rcases chars with h | h | h | h | h | h | h | h | h | h | h | h | h | h | h | h | h | h | h | h | h | h | h <;>
      obtain ⟨rfl, rfl⟩ := h <;>
      simp [symbol, longOperators, List.find?, shortOperators, List.isPrefixOf, tails]

/-- The characters that an operator can start with. -/
def operatorStarts : List Char := ['=', '!', '&', '|', '>', '<', '+', '-', '*', '/', '%', '.']

theorem operators_start : ∀ op ∈ operators, op.toList.head?.all (operatorStarts.contains ·) = true := by decide

/-- No other class has them, but for a slash that does not divide and a point in front of a digit. -/
theorem first_eq_symbol (starts : c ∈ operatorStarts)
    (slash : c = '/' → divides = true ∧ rest.head? ≠ some '/' ∧ rest.head? ≠ some '*')
    (point : c = '.' → rest.head?.any Char.isDigit = false) : first divides c rest = symbol c rest := by
  have others : ∀ c ∈ operatorStarts, c ≠ '\n' ∧ isInlineSpace c = false ∧ c ≠ backtick ∧ c ≠ '\'' ∧
      c ≠ '"' ∧ c.isDigit = false ∧ startsName c = false := by decide
  obtain ⟨newline, space, back, single, double, digit, name⟩ := others c starts
  by_cases isSlash : c = '/'
  · obtain ⟨rfl, line, block⟩ := slash isSlash
    subst isSlash
    simp [first, isInlineSpace, backtick, line, block, digit, name]
  · by_cases isPoint : c = '.'
    · subst isPoint
      simp [first, isInlineSpace, backtick, digit, name, point rfl]
    · simp [first, newline, space, isSlash, back, single, double, digit, isPoint, name]

theorem first_operator {op : String} (found : op ∈ operators) (text : op.toList = c :: cs) (slash : op = "/" → divides = true)
    (ends : rest.head?.all (!operatorTails.contains ·) = true)
    (point : op = "." → rest.head?.any Char.isDigit = false) :
    first divides c (cs ++ rest) = (.operator, cs.length + 1) := by
  have slashes : ∀ op ∈ operators, op.toList.head? = some '/' → op.toList = ['/'] := by decide
  have points : ∀ op ∈ operators, op.toList.head? = some '.' → op.toList = ['.'] := by decide
  have starts : c ∈ operatorStarts := by simpa [text] using operators_start op found
  rw [first_eq_symbol starts, symbol_operator found text ends]
  · intro isSlash
    have whole := slashes op found (by rw [text, isSlash]; rfl)
    obtain ⟨_, rfl⟩ := List.cons.inj (text.symm.trans whole)
    refine ⟨slash (String.toList_inj.mp whole), ?_, ?_⟩
    · intro same
      rw [List.nil_append] at same
      rw [same] at ends
      exact absurd ends (by decide)
    · intro same
      rw [List.nil_append] at same
      rw [same] at ends
      exact absurd ends (by decide)
  · intro isPoint
    have whole := points op found (by rw [text, isPoint]; rfl)
    obtain ⟨_, rfl⟩ := List.cons.inj (text.symm.trans whole)
    exact point (String.toList_inj.mp whole)

/-- A readable token is the first one of its text and what follows, if it ends there. -/
theorem first_of_readable (readable : Readable divides t = true) (ends : endsAt t rest.head? = true) :
    ∃ c cs, t.text.toList = c :: cs ∧ first divides c (cs ++ rest) = (t.kind, cs.length + 1) := by
  obtain ⟨kind, text⟩ := t
  unfold Readable at readable
  unfold endsAt at ends
  cases kind with dsimp only at readable ends ⊢
  | identifier =>
    unfold isNameText at readable
    rcases chars : text.toList with _ | ⟨c, cs⟩ <;> simp only [chars] at readable
    · cases readable
    · simp only [Bool.and_eq_true, List.all_eq_true] at readable
      exact ⟨c, cs, rfl, first_name readable.1 readable.2 ends⟩
  | number =>
    rcases chars : text.toList with _ | ⟨c, cs⟩
    · simp [String.toList_eq_nil_iff.mp chars] at readable
    · simp only [chars, Bool.and_eq_true, List.all_eq_true] at readable
      refine ⟨c, cs, rfl, first_number readable.2 ?_ ?_⟩
      · rcases rest with _ | ⟨d, rest⟩
        · rfl
        · simp_all
      · rcases rest with _ | ⟨d, rest⟩
        · simp
        · simp_all
  | space =>
    rcases chars : text.toList with _ | ⟨c, cs⟩
    · simp [String.toList_eq_nil_iff.mp chars] at readable
    · simp only [chars, Bool.and_eq_true, List.all_eq_true, List.mem_cons, forall_eq_or_imp] at readable
      exact ⟨c, cs, rfl, first_space readable.2.1 readable.2.2 ends⟩
  | newline =>
    rw [beq_iff_eq] at readable
    subst readable
    exact ⟨'\n', [], rfl, rfl⟩
  | punctuation =>
    simp only [List.any_eq_true, beq_iff_eq] at readable
    obtain ⟨c, mark, rfl⟩ := readable
    exact ⟨c, [], String.toList_singleton c, first_punctuation rest mark⟩
  | operator =>
    simp only [Bool.and_eq_true, List.contains_iff_mem, Bool.or_eq_true, bne_iff_ne] at readable
    obtain ⟨found, slash⟩ := readable
    have nonempty : ∀ op ∈ operators, op.toList ≠ [] := by decide
    rcases chars : text.toList with _ | ⟨c, cs⟩
    · exact absurd chars (nonempty text found)
    · refine ⟨c, cs, rfl, first_operator found chars (fun same => ?_) ?_ fun same => ?_⟩
      · tauto
      · rcases rest with _ | ⟨d, rest⟩
        · rfl
        · simp_all
      · rcases rest with _ | ⟨d, rest⟩
        · rfl
        · simp_all
  | _ => cases readable

/-! ### Classes of neighbours -/

/-- What a token of a class starts with. -/
def startsAs (kind : Kind) (c : Char) : Bool := match kind with
  | .identifier => startsName c
  | .number => c.isDigit
  | .space => isInlineSpace c
  | .newline => c == '\n'
  | .punctuation => punctuation.contains c
  | .operator => operatorStarts.contains c
  | _ => false

theorem starts_of_readable (readable : Readable divides t = true) :
    ∃ c, t.text.toList.head? = some c ∧ startsAs t.kind c = true := by
  obtain ⟨c, cs, chars, _⟩ := @first_of_readable [] divides t readable (endsAt_none t)
  obtain ⟨kind, text⟩ := t
  dsimp only at chars
  refine ⟨c, by rw [chars]; rfl, ?_⟩
  unfold Readable at readable
  unfold startsAs
  cases kind with
  | identifier =>
    simp only [isNameText, chars, Bool.and_eq_true] at readable
    exact readable.1
  | number | space =>
    simp only [chars, List.all_cons, Bool.and_eq_true] at readable
    exact readable.2.1
  | newline =>
    simp only [beq_iff_eq] at readable
    subst readable
    cases chars
    rfl
  | punctuation =>
    simp only [List.any_eq_true, beq_iff_eq] at readable
    obtain ⟨d, mark, rfl⟩ := readable
    rw [String.toList_singleton] at chars
    cases chars
    simpa using mark
  | operator =>
    simp only [Bool.and_eq_true, List.contains_iff_mem] at readable
    simpa [chars] using operators_start text readable.1
  | _ => cases readable

/-- Two tokens that do not grow together, by their classes. -/
def Apart (t u : Token) : Bool := match t.kind, u.kind with
  | .identifier, .identifier | .identifier, .number | .number, .identifier | .number, .number => false
  | .space, .space => false
  | .number, .operator => u.text != "."
  | .operator, .number => t.text != "."
  | .operator, .operator => u.text == "!"
  | _, _ => true

/-- The classes that are no part of a name and do not go on a run of blanks or an operator. -/
theorem endsAt_other (t : Token) (other : isInlineSpace c = true ∧ t.kind ≠ .space ∨ c = '\n' ∨ c ∈ punctuation) :
    t.endsAt (some c) = true := by
  have all : ∀ c ∈ [' ', '\t', '\r', '\n'] ++ punctuation, continuesName c = false ∧ c ≠ '.' ∧
      c ∉ operatorTails ∧ c.isDigit = false := by decide
  have noBlank : ∀ c ∈ '\n' :: punctuation, isInlineSpace c = false := by decide
  have member : c ∈ [' ', '\t', '\r', '\n'] ++ punctuation := by
    rcases other with ⟨space, _⟩ | rfl | mark
    · simp only [isInlineSpace, Bool.or_eq_true, beq_iff_eq] at space
      rcases space with (rfl | rfl) | rfl <;> decide
    · decide
    · exact List.mem_append_right _ mark
  obtain ⟨name, point, tails, digit⟩ := all c member
  unfold endsAt
  split
  · simp [name]
  · simp [name, point]
  · rename_i kind
    rcases other with ⟨_, notSpace⟩ | rfl | mark
    · exact absurd kind notSpace
    · rfl
    · simp [noBlank c (List.mem_cons_of_mem _ mark)]
  · simp [tails, digit]
  · rfl

theorem endsAt_of_apart {u : Token} (apart : Apart t u = true)
    (readable : Readable divides u = true) : t.endsAt u.text.toList.head? = true := by
  obtain ⟨c, head, starts⟩ := starts_of_readable readable
  rw [head]
  obtain ⟨kind, text⟩ := t
  obtain ⟨kind', text'⟩ := u
  cases kind' with
  | space =>
    refine endsAt_other _ (.inl ⟨starts, ?_⟩)
    rintro rfl
    cases apart
  | newline => exact endsAt_other _ (.inr (.inl (beq_iff_eq.mp starts)))
  | punctuation => exact endsAt_other _ (.inr (.inr (List.contains_iff_mem.mp starts)))
  | identifier =>
    have inside := continuesName_of_startsName starts
    have tails : ∀ d ∈ operatorTails, c ≠ d := by
      have all : ∀ d ∈ operatorTails, continuesName d = false := by decide
      exact fun d hd => ne_of_continuesName inside d (all d hd)
    cases kind with
    | space => simp [endsAt, isInlineSpace_of_continuesName inside]
    | operator =>
      have outside : c ∉ operatorTails := fun hc => tails c hc rfl
      simp [endsAt, outside, isDigit_of_startsName starts]
    | identifier | number => cases apart
    | _ => rfl
  | number =>
    have inside := continuesName_of_isDigit starts
    cases kind with
    | space => simp [endsAt, isInlineSpace_of_continuesName inside]
    | operator =>
      have all : ∀ d ∈ operatorTails, continuesName d = false := by decide
      have outside : c ∉ operatorTails := fun hc => ne_of_continuesName inside c (all c hc) rfl
      have point : text ≠ "." := bne_iff_ne.mp apart
      simp [endsAt, outside, point]
    | identifier | number => cases apart
    | _ => rfl
  | operator =>
    have all : ∀ c ∈ operatorStarts, continuesName c = false ∧ isInlineSpace c = false := by decide
    obtain ⟨name, space⟩ := all c (List.contains_iff_mem.mp starts)
    cases kind with
    | identifier => simp [endsAt, name]
    | number =>
      have points : ∀ op ∈ operators, op.toList.head? = some '.' → op = "." := by decide
      have point : c ≠ '.' := by
        rintro rfl
        simp only [Readable, Bool.and_eq_true, List.contains_iff_mem] at readable
        exact bne_iff_ne.mp apart (points text' readable.1 head)
      simp [endsAt, name, point]
    | space => simp [endsAt, space]
    | operator =>
      have same : text' = "!" := beq_iff_eq.mp apart
      subst same
      obtain rfl : '!' = c := Option.some.inj head
      simp [endsAt, operatorTails]
    | _ => rfl
  | _ => cases starts

/-! ### Lists of tokens -/

/-- Readable tokens, each apart from the next one. -/
def Legible : Bool → List Token → Prop
  | _, [] => True
  | divides, t :: rest =>
    Readable divides t = true ∧ (∀ u ∈ rest.head?, Apart t u = true) ∧ Legible (dividesAfter divides t) rest

theorem legible_append {first second : List Token} : Legible divides (first ++ second) ↔ Legible divides first ∧
      Legible (first.foldl dividesAfter divides) second ∧
      ∀ t ∈ first.getLast?, ∀ u ∈ second.head?, Apart t u = true := by
  induction first generalizing divides with
  | nil => simp [Legible]
  | cons t first ih =>
    rcases first with _ | ⟨t', first⟩
    · simp [Legible]
      tauto
    · simp only [List.cons_append, Legible, List.head?_cons, List.foldl_cons, List.getLast?_cons_cons] at ih ⊢
      rw [ih]
      tauto

/-- A legible list of tokens is cut back from the start of a text, if the last one ends there. -/
theorem scanFrom_legible (legible : Legible divides ts) (ends : ∀ t ∈ ts.getLast?, t.endsAt rest.head? = true) :
    scanFrom divides ((ts.flatMap fun t => t.text.toList) ++ rest) = ts ++ scanFrom (ts.foldl dividesAfter divides) rest := by
  induction ts generalizing divides with
  | nil => simp
  | cons t ts ih =>
    obtain ⟨readable, apart, further⟩ := legible
    have here : t.endsAt ((ts.flatMap fun t => t.text.toList) ++ rest).head? = true := by
      rcases ts with _ | ⟨u, ts⟩
      · exact ends t rfl
      · obtain ⟨c, head, _⟩ := starts_of_readable further.1
        rw [List.flatMap_cons, List.append_assoc, List.head?_append, head, Option.some_or, ← head]
        exact endsAt_of_apart (apart u rfl) further.1
    have later : ∀ u ∈ ts.getLast?, u.endsAt rest.head? = true := by
      intro u hu
      refine ends u ?_
      rw [Option.mem_def] at hu ⊢
      simp [List.getLast?_cons, hu]
    obtain ⟨c, cs, chars, cut⟩ := first_of_readable readable here
    have whole : (⟨t.kind, String.ofList (c :: cs)⟩ : Token) = t := by
      rw [← chars, String.ofList_toList]
    rw [List.flatMap_cons, chars, List.append_assoc, List.cons_append, scanFrom]
    simp only [cut, Nat.add_sub_cancel, List.take_left, List.drop_left, whole]
    exact congrArg _ (ih further later)

theorem tokenize_legible (legible : Legible false ts) : tokenize (sourceText ts) = ts ++ [eof] := by
  have whole : scanFrom false ((ts.flatMap fun t => t.text.toList) ++ []) = _ := scanFrom_legible legible fun t _ => endsAt_none t
  rw [tokenize, scan, sourceText, String.toList_join, List.flatMap_map, ← List.append_nil (ts.flatMap _), whole, scanFrom,
    List.append_nil]

/-- A list of tokens that is cut back from its text, wherever it starts. -/
def ReadBack (ts : List Token) : Prop := ∀ divides, scanFrom divides (ts.flatMap fun t => t.text.toList) = ts

namespace ReadBack

theorem nil : ReadBack [] := fun divides => by simp [scanFrom]

theorem append {ts rest : List Token} (h : ReadBack rest) (legible : ∀ divides, Legible divides ts)
    (ends : ∀ t ∈ ts.getLast?, t.endsAt (rest.flatMap fun t => t.text.toList).head? = true) : ReadBack (ts ++ rest) := by
  intro divides
  rw [List.flatMap_append, scanFrom_legible (legible divides) ends, h]

theorem of_legible {ts : List Token} (legible : ∀ divides, Legible divides ts) : ReadBack ts := by
  simpa using nil.append legible fun t _ => endsAt_none t

/-- A token that is the first one of its text and what follows is cut back in front of the others. -/
theorem cons {t : Token} {rest : List Token} (h : ReadBack rest) {c : Char} {cs : List Char} (chars : t.text.toList = c :: cs)
    (cut : ∀ divides, first divides c (cs ++ rest.flatMap fun t => t.text.toList) = (t.kind, cs.length + 1)) :
    ReadBack (t :: rest) := by
  intro divides
  have whole : (⟨t.kind, String.ofList (c :: cs)⟩ : Token) = t := by rw [← chars, String.ofList_toList]
  rw [List.flatMap_cons, chars, List.cons_append, scanFrom]
  simp only [cut, Nat.add_sub_cancel, List.take_left, List.drop_left, whole]
  exact congrArg _ (h _)

theorem tokenize_eq {ts : List Token} (h : ReadBack ts) : tokenize (sourceText ts) = ts ++ [eof] := by
  rw [tokenize, scan, sourceText, String.toList_join, List.flatMap_map, h false]

end ReadBack

/-! ### Comments -/

theorem ReadBack.lineComment {text : String} {rest : List Token} (inside : ∀ c ∈ text.toList, c ≠ '\n')
    (h : ReadBack rest) (ends : (rest.flatMap fun t => t.text.toList).head?.all (· == '\n') = true) :
    ReadBack (⟨.comment, "//" ++ text⟩ :: rest) := by
  have extent : run (· != '\n') (('/' :: '/' :: text.toList) ++ rest.flatMap fun t => t.text.toList) =
      ('/' :: '/' :: text.toList).length := by
    refine run_append (by simpa using inside) ?_
    cases head : (rest.flatMap fun t => t.text.toList).head? with
    | none => rfl
    | some c => simpa [head] using ends
  have chars : ("//" ++ text).toList = '/' :: '/' :: text.toList := String.toList_append
  exact h.cons chars fun _ => congrArg _ extent

theorem blockCommentExtent_append (inside : occursIn ['*', '/'] cs = false) (rest : List Char) :
    blockCommentExtent (cs ++ '*' :: '/' :: rest) = cs.length + 2 := by
  induction cs with
  | nil => rfl
  | cons c cs ih =>
    simp only [occursIn, Bool.or_eq_false_iff] at inside
    have further := ih inside.2
    rw [List.cons_append, blockCommentExtent, further, List.length_cons]
    · omega
    · rintro rest' rfl shape
      rcases cs with _ | ⟨d, cs⟩
      · cases shape
      · obtain ⟨rfl, -⟩ := List.cons.inj shape
        simp [List.isPrefixOf] at inside

theorem ReadBack.blockComment {body : String} {rest : List Token} (inside : contains "*/" body = false)
    (h : ReadBack rest) : ReadBack (⟨.comment, "/*" ++ body ++ "*/"⟩ :: rest) := by
  have chars : ("/*" ++ body ++ "*/").toList = '/' :: '*' :: (body.toList ++ ['*', '/']) := by simp
  have extent : blockCommentExtent (body.toList ++ '*' :: '/' :: rest.flatMap fun t => t.text.toList) =
      body.toList.length + 2 := blockCommentExtent_append inside _
  have size : ('*' :: (body.toList ++ ['*', '/'])).length + 1 = 2 + (body.toList.length + 2) := by
    simp
    omega
  refine h.cons chars fun divides => ?_
  rw [size, ← extent]
  simp [first, isInlineSpace]

/-! ### Sizes -/

theorem textSize_append (ts us : List Token) : textSize (ts ++ us) = textSize ts + textSize us := by
  induction ts with
  | nil => simp [textSize]
  | cons t ts ih => simp [textSize, ih, Nat.add_assoc]

/-- No token of a legible list is empty. -/
theorem length_le_textSize (legible : Legible divides ts) : ts.length ≤ textSize ts := by
  induction ts generalizing divides with
  | nil => simp
  | cons t ts ih =>
    obtain ⟨readable, _, rest⟩ := legible
    obtain ⟨c, head, _⟩ := starts_of_readable readable
    have positive : 0 < t.text.length := by
      rw [← String.length_toList]
      exact List.length_pos_of_mem (List.mem_of_mem_head? head)
    have := ih rest
    simp only [textSize, List.length_cons]
    omega

end NoteScript.Token

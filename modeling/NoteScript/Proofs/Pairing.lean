import Mathlib.Data.List.Induction
import NoteScript.Proofs.Advance

/-!
# Which brackets pair

The brackets of a token list form a word, and the word pairs if it is well nested. That is said here
without a stack: `WellNested` is the grammar of such words, and `LeavesOpen` divides a token list at the
brackets that are open at its end, with well-nested parts around them.

* `WellNested.run`: the check reads well-nested tokens and has the same brackets open as before.
* `LeavesOpen.run`: after any tokens whose open brackets are known, the check is at these brackets.
* `leavesOpen_or_misfit`: either a token list has its open brackets, or a closing bracket in it has
  nothing to close, or the wrong thing.
* `checkBrackets_tokenize_iff`: what the check says of a source, and on which lines.
-/

namespace NoteScript.Token

variable {t : Token} {ts : List Token}

/-! ### Well-nested words -/

/-- The brackets that go together. -/
def bracketPairs : List (String × String) := [("(", ")"), ("[", "]"), ("\x7b", "\x7d")]

/-- The words over the brackets in which each one pairs with its partner around a word of that kind. -/
inductive WellNested : List String → Prop where
  | nil : WellNested []
  | pair {opener closer : String} {inside behind : List String} : (opener, closer) ∈ bracketPairs →
      WellNested inside → WellNested behind → WellNested (opener :: (inside ++ closer :: behind))

theorem WellNested.append {u v : List String} (first : WellNested u) (second : WellNested v) : WellNested (u ++ v) := by
  induction first with
  | nil => exact second
  | pair fits inside _ _ ih =>
    rw [List.cons_append, List.append_assoc, List.cons_append]
    exact .pair fits inside ih

/-- The brackets of a token list, in their order. -/
def brackets (ts : List Token) : List String := (ts.filter fun t => t.isOpener || t.isCloser).map (·.text)

@[simp]
theorem brackets_append (ts us : List Token) : brackets (ts ++ us) = brackets ts ++ brackets us := by
  simp [brackets]

theorem brackets_bracket (h : (t.isOpener || t.isCloser) = true) (ts : List Token) :
    brackets (t :: ts) = t.text :: brackets ts := by
  rw [brackets, List.filter_cons_of_pos (by simpa using h), List.map_cons, brackets]

theorem brackets_plain (h : (t.isOpener || t.isCloser) = false) (ts : List Token) : brackets (t :: ts) = brackets ts := by
  simp [brackets, h]

/-- The first bracket of a token list, with the tokens around it. -/
theorem brackets_eq_cons {b : String} {word : List String} (h : brackets ts = b :: word) :
    ∃ plain t rest, ts = plain ++ t :: rest ∧ brackets plain = [] ∧
      (t.isOpener || t.isCloser) = true ∧ t.text = b ∧ brackets rest = word := by
  obtain ⟨t, found, filtered, rfl, rfl⟩ := List.map_eq_cons_iff.mp h
  obtain ⟨plain, rest, rfl, none, bracket, rfl⟩ := List.filter_eq_cons_iff.mp filtered
  refine ⟨plain, t, rest, rfl, ?_, bracket, rfl, rfl⟩
  rw [brackets, List.map_eq_nil_iff, List.filter_eq_nil_iff]
  exact none

theorem brackets_eq_append {u v : List String} (h : brackets ts = u ++ v) :
    ∃ front back, ts = front ++ back ∧ brackets front = u ∧ brackets back = v := by
  obtain ⟨fronts, backs, filtered, rfl, rfl⟩ := List.map_eq_append_iff.mp h
  obtain ⟨front, back, rfl, rfl, rfl⟩ := List.filter_eq_append_iff.mp filtered
  exact ⟨front, back, rfl, rfl, rfl⟩

theorem openerOf_eq_some_iff {opener closer : String} : openerOf closer = some opener ↔ (opener, closer) ∈ bracketPairs := by
  unfold openerOf bracketPairs
  split <;> simp_all [eq_comm]

/-- A bracket on the left of a pair opens. -/
theorem isOpener_of_pair {closer : String} (bracket : (t.isOpener || t.isCloser) = true)
    (fits : (t.text, closer) ∈ bracketPairs) : t.isOpener = true := by
  have spelled : t.text ∈ openers := (by decide : ∀ p ∈ bracketPairs, p.1 ∈ openers) _ fits
  simp only [isOpener, isCloser, isPunct, Bool.or_eq_true, Bool.and_eq_true] at bracket ⊢
  exact ⟨by tauto, List.contains_iff_mem.mpr spelled⟩

/-- A bracket on the right of a pair closes. -/
theorem isCloser_of_pair {opener : String} (bracket : (t.isOpener || t.isCloser) = true)
    (fits : (opener, t.text) ∈ bracketPairs) : t.isCloser = true := by
  have spelled : t.text ∈ closers := (by decide : ∀ p ∈ bracketPairs, p.2 ∈ closers) _ fits
  simp only [isOpener, isCloser, isPunct, Bool.or_eq_true, Bool.and_eq_true] at bracket ⊢
  exact ⟨by tauto, List.contains_iff_mem.mpr spelled⟩

/-! ### What the check does -/

/-- The characters of a token list. -/
def chars (ts : List Token) : List Char := ts.flatMap fun t => t.text.toList

@[simp]
theorem chars_append (ts us : List Token) : chars (ts ++ us) = chars ts ++ chars us := List.flatMap_append

@[simp]
theorem chars_cons (t : Token) (ts : List Token) : chars (t :: ts) = t.text.toList ++ chars ts := List.flatMap_cons

@[simp]
theorem length_chars (ts : List Token) : (chars ts).length = textSize ts := (textSize_eq_length ts).symm

/-- The line feeds in a token list. -/
def feeds (ts : List Token) : Nat := (chars ts).count '\n'

@[simp]
theorem feeds_nil : feeds [] = 0 := rfl

@[simp]
theorem feeds_append (ts us : List Token) : feeds (ts ++ us) = feeds ts + feeds us := by
  simp [feeds]

@[simp]
theorem feeds_cons (t : Token) (ts : List Token) : feeds (t :: ts) = t.lineFeeds + feeds ts := by
  simp [feeds, lineFeeds, Text.lineFeeds]

section Check

variable {t : Token} {pending : List OpenBracket} {line : Nat} {rest : List Token}

theorem checkBracketsFrom_opener (h : t.isOpener = true) : checkBracketsFrom pending line (t :: rest) =
      checkBracketsFrom (⟨t.text, line⟩ :: pending) (line + t.lineFeeds) rest := by
  simp only [checkBracketsFrom.eq_def pending line (t :: rest), h, if_true]

theorem checkBracketsFrom_plain (h : (t.isOpener || t.isCloser) = false) : checkBracketsFrom pending line (t :: rest) =
      checkBracketsFrom pending (line + t.lineFeeds) rest := by
  rw [Bool.or_eq_false_iff] at h
  simp only [checkBracketsFrom.eq_def pending line (t :: rest), h.1, h.2, Bool.false_eq_true, if_false]

theorem checkBracketsFrom_closer (h : t.isCloser = true) {opened : OpenBracket} (fits : (opened.opener, t.text) ∈ bracketPairs) :
    checkBracketsFrom (opened :: pending) line (t :: rest) = checkBracketsFrom pending (line + t.lineFeeds) rest := by
  rw [checkBracketsFrom, if_neg (by simp [isOpener_of_isCloser h]), if_pos h,
    if_pos (by simpa using openerOf_eq_some_iff.mpr fits)]

theorem checkBracketsFrom_stray (h : t.isCloser = true) :
    checkBracketsFrom [] line (t :: rest) = .error (.stray t.text line) := by
  rw [checkBracketsFrom, if_neg (by simp [isOpener_of_isCloser h]), if_pos h]

theorem checkBracketsFrom_crossed (h : t.isCloser = true) {opened : OpenBracket}
    (misfits : (opened.opener, t.text) ∉ bracketPairs) :
    checkBracketsFrom (opened :: pending) line (t :: rest) = .error (.crossed t.text opened.opener opened.line line) := by
  rw [checkBracketsFrom, if_neg (by simp [isOpener_of_isCloser h]), if_pos h,
    if_neg (by simpa using mt openerOf_eq_some_iff.mp misfits)]

end Check

theorem run_plain (plain : brackets ts = []) (pending : List OpenBracket) (line : Nat) (rest : List Token) :
    checkBracketsFrom pending line (ts ++ rest) = checkBracketsFrom pending (line + feeds ts) rest := by
  induction ts generalizing line with
  | nil => rfl
  | cons t ts ih =>
    have none : (t.isOpener || t.isCloser) = false := by
      rw [← Bool.not_eq_true]
      intro bracket
      rw [brackets_bracket bracket] at plain
      exact List.cons_ne_nil _ _ plain
    rw [brackets_plain none] at plain
    rw [List.cons_append, checkBracketsFrom_plain none, ih plain, feeds_cons, Nat.add_assoc]

/-- Well-nested tokens leave the open brackets as they are. -/
theorem WellNested.run (nested : WellNested (brackets ts)) (pending : List OpenBracket) (line : Nat) (rest : List Token) :
    checkBracketsFrom pending line (ts ++ rest) = checkBracketsFrom pending (line + feeds ts) rest := by
  generalize spelled : brackets ts = word at nested
  induction nested generalizing ts pending line rest with
  | nil => exact run_plain spelled pending line rest
  | pair fits _ _ inside_ih behind_ih =>
    -- the tokens are cut at the two brackets of the pair
    obtain ⟨lead, o, back, rfl, lead_plain, o_bracket, rfl, back_spelled⟩ := brackets_eq_cons spelled
    obtain ⟨inside, tail, rfl, inside_spelled, tail_spelled⟩ := brackets_eq_append back_spelled
    obtain ⟨gap, c, behind, rfl, gap_plain, c_bracket, rfl, behind_spelled⟩ := brackets_eq_cons tail_spelled
    have opens := isOpener_of_pair o_bracket fits
    have closes := isCloser_of_pair c_bracket fits
    simp only [List.append_assoc, List.cons_append]
    rw [run_plain lead_plain, checkBracketsFrom_opener opens, inside_ih _ _ _ inside_spelled,
      run_plain gap_plain, checkBracketsFrom_closer closes fits, behind_ih _ _ _ behind_spelled]
    congr 1
    simp only [feeds_append, feeds_cons]
    omega

/-! ### The brackets that are open -/

/-- A token in a list, with the tokens in front of it. -/
structure Place where
  front : List Token
  token : Token

/-- `LeavesOpen ts places`: the brackets at `places` are those that `ts` opens and does not close, the
innermost first. What stands around them is well nested. -/
inductive LeavesOpen : List Token → List Place → Prop where
  | none {ts : List Token} : WellNested (brackets ts) → LeavesOpen ts []
  | more {front inside : List Token} {o : Token} {places : List Place} : LeavesOpen front places →
      o.isOpener = true → WellNested (brackets inside) →
      LeavesOpen (front ++ o :: inside) (⟨front, o⟩ :: places)

/-- An open bracket as the check remembers it. -/
def Place.remembered (p : Place) : OpenBracket := ⟨p.token.text, 1 + feeds p.front⟩

namespace LeavesOpen

variable {ts : List Token} {places : List Place}

theorem nested (h : LeavesOpen ts []) : WellNested (brackets ts) := by
  cases h with
  | none nested => exact nested

/-- The tokens in front of an open bracket start the list. -/
theorem front_eq {place : Place} (h : LeavesOpen ts (place :: places)) : ∃ inside, ts = place.front ++ place.token :: inside := by
  cases h with
  | more => exact ⟨_, rfl⟩

/-- Well-nested tokens behind the list leave the same brackets open. -/
theorem append (h : LeavesOpen ts places) {us : List Token} (nested : WellNested (brackets us)) :
    LeavesOpen (ts ++ us) places := by
  cases h with
  | none before =>
    refine .none ?_
    rw [brackets_append]
    exact before.append nested
  | more front opens inside =>
    rw [List.append_assoc, List.cons_append]
    refine .more front opens ?_
    rw [brackets_append]
    exact inside.append nested

/-- A closing bracket that fits takes the innermost open one away. -/
theorem close {t : Token} {place : Place} (h : LeavesOpen ts (place :: places)) (closes : t.isCloser = true)
    (fits : (place.token.text, t.text) ∈ bracketPairs) : LeavesOpen (ts ++ [t]) places := by
  cases h with
  | @more front inside o _ outer opens nested =>
    have group : WellNested (brackets (o :: (inside ++ [t]))) := by
      rw [brackets_bracket (by simp [opens]), brackets_append, brackets_bracket (by simp [closes])]
      exact .pair fits nested .nil
    rw [List.append_assoc, List.cons_append]
    exact outer.append group

/-- After tokens whose open brackets are known the check is at these brackets. -/
theorem run (h : LeavesOpen ts places) (rest : List Token) : checkBracketsFrom [] 1 (ts ++ rest) =
      checkBracketsFrom (places.map Place.remembered) (1 + feeds ts) rest := by
  induction h generalizing rest with
  | none nested => exact nested.run [] 1 rest
  | @more front inside o places _ opens nested ih =>
    rw [List.append_assoc, List.cons_append, ih, checkBracketsFrom_opener opens, nested.run]
    simp only [feeds_append, feeds_cons, List.map_cons, Place.remembered, Nat.add_assoc]

end LeavesOpen

/-- `Misfit places t`: the bracket `t` closes nothing, or not the innermost bracket open. -/
def Misfit (places : List Place) (t : Token) : Prop := ∀ place ∈ places.head?, (place.token.text, t.text) ∉ bracketPairs

/-- Every token list has its open brackets, up to its first misfit. -/
theorem leavesOpen_or_misfit (ts : List Token) : (∃ places, LeavesOpen ts places) ∨
      ∃ before t after places, ts = before ++ t :: after ∧ LeavesOpen before places ∧ t.isCloser = true ∧ Misfit places t := by
  induction ts using List.reverseRecOn with
  | nil => exact .inl ⟨[], .none .nil⟩
  | append_singleton ts t ih =>
    rcases ih with ⟨places, known⟩ | ⟨before, u, after, places, rfl, known, closes, misfit⟩
    · by_cases closes : t.isCloser = true
      · by_cases misfit : Misfit places t
        · exact .inr ⟨ts, t, [], places, rfl, known, closes, misfit⟩
        · simp only [Misfit, not_forall, not_not] at misfit
          obtain ⟨place, innermost, fits⟩ := misfit
          obtain ⟨places, rfl⟩ := List.head?_eq_some_iff.mp innermost
          exact .inl ⟨places, known.close closes fits⟩
      · by_cases opens : t.isOpener = true
        · exact .inl ⟨_, .more known opens .nil⟩
        · refine .inl ⟨places, known.append ?_⟩
          rw [brackets_plain (by simp [opens, closes])]
          exact .nil
    · exact .inr ⟨before, u, after ++ [t], places, by simp, known, closes, misfit⟩

/-! ### The verdict on a source -/

/-- The line of a place in a source, counted from one: the line feeds among the characters in front. -/
def lineAt (source : String) (offset : Nat) : Nat := 1 + (source.toList.take offset).count '\n'

theorem chars_tokenize (source : String) : chars (tokenize source) = source.toList := by
  have kept : chars (scan source) = source.toList := (scanFrom_cut false source.toList).join_eq
  rw [tokenize, chars_append, kept]
  simp [chars, eof]

/-- The tokens in front of a place are the characters in front of it. -/
theorem lineAt_eq {source : String} {front back : List Token} (h : tokenize source = front ++ back) :
    lineAt source (textSize front) = 1 + feeds front := by
  rw [lineAt, ← chars_tokenize source, h, chars_append, List.take_left' (length_chars front), feeds]

/-- `Verdict source v`: what is to be said of the brackets of a source. In the order of the text, the
first closing bracket with nothing open, or with another bracket open last, is at fault; where there is
none, the innermost bracket left open is. -/
inductive Verdict (source : String) : Except BracketFault Unit → Prop where
  | paired : WellNested (brackets (tokenize source)) → Verdict source (.ok ())
  | stray {before after : List Token} {t : Token} : tokenize source = before ++ t :: after →
      t.isCloser = true → LeavesOpen before [] →
      Verdict source (.error (.stray t.text (lineAt source (textSize before))))
  | crossed {before after : List Token} {t : Token} {innermost : Place} {outer : List Place} :
      tokenize source = before ++ t :: after → t.isCloser = true →
      LeavesOpen before (innermost :: outer) → (innermost.token.text, t.text) ∉ bracketPairs →
      Verdict source (.error (.crossed t.text innermost.token.text (lineAt source (textSize innermost.front))
        (lineAt source (textSize before))))
  | unclosed {innermost : Place} {outer : List Place} :
      LeavesOpen (tokenize source) (innermost :: outer) →
      Verdict source (.error (.unclosed innermost.token.text (lineAt source (textSize innermost.front))))

theorem Verdict.checked {source : String} {v : Except BracketFault Unit} (h : Verdict source v) :
    checkBrackets (tokenize source) = v := by
  unfold checkBrackets
  cases h with
  | paired nested =>
    have read := nested.run [] 1 []
    rw [List.append_nil] at read
    rw [read, checkBracketsFrom]
  | stray split closes known => rw [lineAt_eq split, split, known.run, List.map_nil, checkBracketsFrom_stray closes]
  | crossed split closes known misfits =>
    obtain ⟨inside, opened⟩ := known.front_eq
    have place := split
    rw [opened, List.append_assoc] at place
    rw [lineAt_eq split, lineAt_eq place, split, known.run, List.map_cons,
      checkBracketsFrom_crossed closes misfits, Place.remembered]
  | unclosed known =>
    have read := known.run []
    obtain ⟨inside, opened⟩ := known.front_eq
    rw [List.append_nil] at read
    rw [lineAt_eq opened, read, List.map_cons, checkBracketsFrom, Place.remembered]

/-- Every source has a verdict. -/
theorem exists_verdict (source : String) : ∃ v, Verdict source v := by
  rcases leavesOpen_or_misfit (tokenize source) with
    ⟨_ | ⟨innermost, outer⟩, known⟩ | ⟨before, t, after, _ | ⟨innermost, outer⟩, split, known, closes, misfit⟩
  · exact ⟨_, .paired known.nested⟩
  · exact ⟨_, .unclosed known⟩
  · exact ⟨_, .stray split closes known⟩
  · exact ⟨_, .crossed split closes known (misfit innermost rfl)⟩

/-- The check says of every source what is to be said of its brackets, with the lines of the source: it
succeeds exactly on well-nested brackets, and otherwise it names the first bracket at fault. -/
theorem checkBrackets_tokenize_iff (source : String) (v : Except BracketFault Unit) :
    checkBrackets (tokenize source) = v ↔ Verdict source v := by
  constructor
  · rintro rfl
    obtain ⟨v, verdict⟩ := exists_verdict source
    rwa [verdict.checked]
  · exact Verdict.checked

end NoteScript.Token

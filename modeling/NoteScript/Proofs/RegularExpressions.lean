import Mathlib.Algebra.BigOperators.Group.List.Basic
import NoteScript.Proofs.Bodies
import NoteScript.Proofs.LuaPatterns

/-!
# Regular expressions without groups

A regular expression without groups and alternatives is a row of items, each a single character out of some set with a
quantifier, and may be held at either end of the text. Such a row is a pattern of Lua too: every item becomes one item of the
pattern, or as many as it may come, and what a class or the dot stands for is left to the two languages.

* `Regex`: a regular expression, with its literal (`Regex.literal`) and the places where it is found (`Regex.Matches`).
* `Regex.lua`: the pattern it becomes. `ofRegex_literal`: its text is what is written for the literal.
* `matches_lua`: the pattern is found where the regular expression is.
-/

namespace NoteScript

open Pattern Text
open scoped Computability

namespace Regex

/-! ### Items -/

/-- A letter or a numeral. -/
abbrev Alphanumeric := { c : Char // isAlphanumeric c = true }

def isPunctuation (c : Char) : Bool := '!' ≤ c && c ≤ '~' && !c.isAlphanum

/-- An ASCII character that is no letter, no digit and no white space. -/
abbrev Punctuation := { c : Char // isPunctuation c = true }

/-- The characters that have a meaning of their own, and the slash, which ends the literal. -/
def isSpecial (c : Char) : Bool := ['^', '$', '\\', '.', '*', '+', '?', '(', ')', '[', '\x7b', '|', '/'].contains c

inductive Shorthand where
  | word | digit | space

def Shorthand.letter : Shorthand → Char
  | .word => 'w'
  | .digit => 'd'
  | .space => 's'

inductive Control where
  | lineFeed | tab | carriageReturn

def Control.letter : Control → Char
  | .lineFeed => 'n'
  | .tab => 't'
  | .carriageReturn => 'r'

def Control.char : Control → Char
  | .lineFeed => '\n'
  | .tab => '\t'
  | .carriageReturn => '\r'

/-- What may stand between square brackets. -/
inductive Member where
  | char (c : Alphanumeric)
  | range (lower upper : Alphanumeric)
  | shorthand (s : Shorthand)
  | escaped (c : Punctuation)

/-- A single character. -/
inductive Atom where
  | plain (c : { c : Char // isSpecial c = false })
  | escaped (c : Punctuation)
  | control (c : Control)
  | any
  | shorthand (negated : Bool) (s : Shorthand)
  | set (negated : Bool) (first : Member) (others : List Member)

/-- How often a character may come. A lazy quantifier tries the short texts first. -/
inductive Quantifier where
  | once
  | optional (isLazy : Bool)
  | plus (isLazy : Bool)
  | star (isLazy : Bool)
  | exactly (n : Nat)
  | atLeast (n : Nat)
  | between (low high : Nat) (ordered : low ≤ high)

structure Item where
  atom : Atom
  quantifier : Quantifier

end Regex

/-- A row of items, held at the start or at the end of the text or not. -/
structure Regex where
  atStart : Bool
  items : List Regex.Item
  atEnd : Bool
  isGlobal : Bool
  /-- Two slashes with nothing in between are no literal. -/
  nonempty : atStart = true ∨ items ≠ [] ∨ atEnd = true

namespace Regex

variable {c d : Char} {rest : List Char}

/-! ### The literal -/

def Member.text : Member → List Char
  | .char c => [c.val]
  | .range lower upper => [lower.val, '-', upper.val]
  | .shorthand s => ['\\', s.letter]
  | .escaped c => ['\\', c.val]

def Atom.text : Atom → List Char
  | .plain c => [c.val]
  | .escaped c => ['\\', c.val]
  | .control c => ['\\', c.letter]
  | .any => ['.']
  | .shorthand negated s => ['\\', if negated then s.letter.toUpper else s.letter]
  | .set negated first others => '[' :: (if negated then ['^'] else []) ++ (first :: others).flatMap Member.text ++ [']']

def lazyMark (isLazy : Bool) : List Char := if isLazy then ['?'] else []

def Quantifier.text : Quantifier → List Char
  | .once => []
  | .optional isLazy => '?' :: lazyMark isLazy
  | .plus isLazy => '+' :: lazyMark isLazy
  | .star isLazy => '*' :: lazyMark isLazy
  | .exactly n => '\x7b' :: Nat.toDigits 10 n ++ ['\x7d']
  | .atLeast n => '\x7b' :: (Nat.toDigits 10 n ++ [',']) ++ ['\x7d']
  | .between low high _ => '\x7b' :: (Nat.toDigits 10 low ++ ',' :: Nat.toDigits 10 high) ++ ['\x7d']

def Item.text (i : Item) : List Char := i.atom.text ++ i.quantifier.text

def body (r : Regex) : List Char :=
  (if r.atStart then ['^'] else []) ++ r.items.flatMap Item.text ++ if r.atEnd then ['$'] else []

def literal (r : Regex) : String := String.ofList ('/' :: r.body ++ '/' :: if r.isGlobal then ['g'] else [])

/-! ### What is found -/

/-- The shorthands for words take the underscore for a letter. -/
def Shorthand.accepts (k : CharClasses) (c : Char) : Shorthand → Bool
  | .word => k.letter 'w' c || c == '_'
  | .digit => k.letter 'd' c
  | .space => k.letter 's' c

def Member.accepts (k : CharClasses) (c : Char) : Member → Bool
  | .char d => c == d.val
  | .range lower upper => lower.val ≤ c && c ≤ upper.val
  | .shorthand s => s.accepts k c
  | .escaped d => c == d.val

def Atom.accepts (k : CharClasses) (c : Char) : Atom → Bool
  | .plain d => c == d.val
  | .escaped d => c == d.val
  | .control d => c == d.char
  | .any => k.dot c
  | .shorthand negated s => s.accepts k c != negated
  | .set negated first others => (first :: others).any (·.accepts k c) != negated

/-- The texts of one character that is accepted. -/
def Atom.language (k : CharClasses) (a : Atom) : Language Char := {w | ∃ c, a.accepts k c = true ∧ w = [c]}

/-- The counts that a quantifier allows. -/
def Quantifier.Allows (n : Nat) : Quantifier → Prop
  | .once => n = 1
  | .optional _ => n ≤ 1
  | .plus _ => 1 ≤ n
  | .star _ => True
  | .exactly m => n = m
  | .atLeast m => m ≤ n
  | .between low high _ => low ≤ n ∧ n ≤ high

def Quantifier.language (l : Language Char) (q : Quantifier) : Language Char := {w | ∃ n, q.Allows n ∧ w ∈ l ^ n}

def Item.language (k : CharClasses) (i : Item) : Language Char := i.quantifier.language (i.atom.language k)

/-- The regular expression is found at `found`, with `before` in front of it and `after` behind it. -/
def Matches (k : CharClasses) (r : Regex) (before found after : List Char) : Prop :=
  (r.atStart = true → before = []) ∧ (r.atEnd = true → after = []) ∧ found ∈ (r.items.map (·.language k)).prod

/-! ### The pattern -/

def Shorthand.lua : Shorthand → List LuaPattern.Member
  | .word => [.named 'w', .char '_']
  | .digit => [.named 'd']
  | .space => [.named 's']

def Member.lua : Member → List LuaPattern.Member
  | .char c => [.char c.val]
  | .range lower upper => [.range lower.val upper.val]
  | .shorthand s => s.lua
  | .escaped c => [.char c.val]

def Atom.lua : Atom → LuaPattern.Single
  | .plain c => .char c.val
  | .escaped c => .char c.val
  | .control c => .char c.char
  | .any => .any
  | .shorthand negated .word => .set negated Shorthand.word.lua
  | .shorthand negated s => .named (if negated then s.letter.toUpper else s.letter)
  | .set negated first others => .set negated ((first :: others).flatMap Member.lua)

/-- A counted repetition is written out. -/
def Quantifier.lua (s : LuaPattern.Single) : Quantifier → List LuaPattern.Item
  | .once => [⟨s, .once⟩]
  | .optional _ => [⟨s, .optional⟩]
  | .plus _ => [⟨s, .plus⟩]
  | .star isLazy => [⟨s, if isLazy then .minus else .star⟩]
  | .exactly n => List.replicate n ⟨s, .once⟩
  | .atLeast n => if n = 1 then [⟨s, .plus⟩] else List.replicate n ⟨s, .once⟩ ++ [⟨s, .star⟩]
  | .between low high _ => List.replicate low ⟨s, .once⟩ ++ List.replicate (high - low) ⟨s, .optional⟩

def Item.lua (i : Item) : List LuaPattern.Item := i.quantifier.lua i.atom.lua

def lua (r : Regex) : LuaPattern := ⟨r.atStart, r.items.flatMap Item.lua, r.atEnd⟩

/-! ### The pattern finds the same -/

theorem Shorthand.any_lua (k : CharClasses) (c : Char) (s : Shorthand) : s.lua.any (·.accepts k c) = s.accepts k c := by
  cases s with
  | word => exact congrArg _ (Bool.or_false _)
  | digit | space => exact Bool.or_false _

theorem Member.any_lua (k : CharClasses) (c : Char) (m : Member) : m.lua.any (·.accepts k c) = m.accepts k c := by
  cases m with
  | char d | range lower upper | escaped d => exact Bool.or_false _
  | shorthand s => exact s.any_lua k c

theorem Atom.accepts_lua (k : CharClasses) (c : Char) (a : Atom) : a.lua.accepts k c = a.accepts k c := by
  cases a with
  | plain d => rfl
  | escaped d => rfl
  | control d => rfl
  | any => rfl
  | shorthand negated s =>
    cases s with
    | word =>
      change (Shorthand.word.lua.any (·.accepts k c) != negated) = _
      rw [Shorthand.any_lua]
      rfl
    | digit | space =>
      cases negated <;> simp [lua, accepts, Shorthand.accepts, LuaPattern.Single.accepts, CharClasses.named, Shorthand.letter]
  | set negated first others =>
    rw [lua, LuaPattern.Single.accepts, List.any_flatMap]
    simp only [Member.any_lua]
    rfl

theorem Atom.language_lua (k : CharClasses) (a : Atom) : a.lua.language k = a.language k := by
  refine Language.ext fun w => exists_congr fun c => ?_
  rw [accepts_lua]

section Powers

variable (l : Language Char)

theorem mem_pow_mul_kstar {m : Nat} {w : List Char} : w ∈ l ^ m * l∗ ↔ ∃ n, m ≤ n ∧ w ∈ l ^ n := by
  rw [Language.kstar_eq_iSup_pow, Language.mul_iSup, Language.mem_iSup]
  simp only [← pow_add]
  constructor
  · rintro ⟨i, mem⟩
    exact ⟨m + i, Nat.le_add_right m i, mem⟩
  · rintro ⟨n, le, mem⟩
    exact ⟨n - m, by rwa [Nat.add_sub_cancel' le]⟩

theorem mem_one_add_pow {m : Nat} {w : List Char} : w ∈ (1 + l) ^ m ↔ ∃ n ≤ m, w ∈ l ^ n := by
  induction m generalizing w with
  | zero => simp
  | succ m ih =>
    rw [pow_succ, mul_add, mul_one, Language.mem_add, ih, Language.mem_mul]
    constructor
    · rintro (⟨n, le, mem⟩ | ⟨front, mem, last, lastMem, rfl⟩)
      · exact ⟨n, Nat.le_succ_of_le le, mem⟩
      · obtain ⟨n, le, mem⟩ := ih.mp mem
        exact ⟨n + 1, Nat.succ_le_succ le, Language.append_mem_mul mem lastMem⟩
    · rintro ⟨n, le, mem⟩
      rcases Nat.le_succ_iff.mp le with le | rfl
      · exact .inl ⟨n, le, mem⟩
      · obtain ⟨front, frontMem, last, lastMem, rfl⟩ := Language.mem_mul.mp mem
        exact .inr ⟨front, ih.mpr ⟨m, Nat.le_refl m, frontMem⟩, last, lastMem, rfl⟩

theorem mem_pow_mul_one_add_pow {low high : Nat} (ordered : low ≤ high) {w : List Char} :
    w ∈ l ^ low * (1 + l) ^ (high - low) ↔ ∃ n, (low ≤ n ∧ n ≤ high) ∧ w ∈ l ^ n := by
  rw [Language.mem_mul]
  constructor
  · rintro ⟨front, mem, back, backMem, rfl⟩
    obtain ⟨n, le, backMem⟩ := (mem_one_add_pow l).mp backMem
    refine ⟨low + n, by omega, ?_⟩
    rw [pow_add]
    exact Language.append_mem_mul mem backMem
  · rintro ⟨n, ⟨least, most⟩, mem⟩
    rw [← Nat.add_sub_cancel' least, pow_add] at mem
    obtain ⟨front, frontMem, back, backMem, rfl⟩ := Language.mem_mul.mp mem
    exact ⟨front, frontMem, back, (mem_one_add_pow l).mpr ⟨n - low, by omega, backMem⟩, rfl⟩

end Powers

theorem prod_replicate (k : CharClasses) (i : LuaPattern.Item) (n : Nat) :
    ((List.replicate n i).map (·.language k)).prod = i.language k ^ n := by
  rw [List.map_replicate, List.prod_replicate]

theorem prod_single (k : CharClasses) (i : LuaPattern.Item) : ([i].map (·.language k)).prod = i.language k := by simp

/-- A quantifier that is written out allows the same counts. -/
theorem Quantifier.language_lua (k : CharClasses) (s : LuaPattern.Single) (q : Quantifier) :
    ((q.lua s).map (·.language k)).prod = q.language (s.language k) := by
  refine Language.ext fun w => ?_
  show _ ↔ ∃ n, q.Allows n ∧ w ∈ s.language k ^ n
  cases q with
  | once =>
    rw [lua, prod_single]
    change w ∈ s.language k ↔ ∃ n, n = 1 ∧ _
    simp
  | optional isLazy =>
    rw [lua, prod_single]
    change w ∈ 1 + s.language k ↔ ∃ n, n ≤ 1 ∧ _
    rw [← mem_one_add_pow, pow_one]
  | plus isLazy =>
    rw [lua, prod_single]
    change w ∈ s.language k * (s.language k)∗ ↔ ∃ n, 1 ≤ n ∧ _
    rw [← mem_pow_mul_kstar, pow_one]
  | star isLazy =>
    have either : LuaPattern.Item.language k ⟨s, if isLazy then .minus else .star⟩ = (s.language k)∗ := by cases isLazy <;> rfl
    rw [lua, prod_single, either, Language.kstar_eq_iSup_pow, Language.mem_iSup]
    simp [Allows]
  | exactly n =>
    rw [lua, prod_replicate]
    change w ∈ s.language k ^ n ↔ ∃ m, m = n ∧ _
    simp
  | atLeast n =>
    rw [lua]
    split
    case isTrue one =>
      subst one
      rw [prod_single]
      change w ∈ s.language k * (s.language k)∗ ↔ ∃ n, 1 ≤ n ∧ _
      rw [← mem_pow_mul_kstar, pow_one]
    case isFalse =>
      rw [List.map_append, List.prod_append, prod_replicate, prod_single]
      exact mem_pow_mul_kstar _
  | between low high ordered =>
    rw [lua, List.map_append, List.prod_append, prod_replicate, prod_replicate]
    exact mem_pow_mul_one_add_pow _ ordered

theorem Item.language_lua (k : CharClasses) (i : Item) : (i.lua.map (·.language k)).prod = i.language k := by
  rw [lua, Quantifier.language_lua, Atom.language_lua]
  rfl

/-- The pattern is found where the regular expression is. -/
theorem matches_lua (k : CharClasses) (r : Regex) (before found after : List Char) :
    r.lua.Matches k before found after ↔ r.Matches k before found after := by
  have same : ((r.items.flatMap Item.lua).map (·.language k)).prod = (r.items.map (·.language k)).prod := by
    induction r.items with
    | nil => rfl
    | cons i is ih => rw [List.flatMap_cons, List.map_append, List.prod_append, ih, Item.language_lua, List.map_cons, List.prod_cons]
  rw [LuaPattern.Matches, Matches, lua, same]

/-! ### What is written for the literal -/

theorem ne_of_isAlphanumeric (h : isAlphanumeric c = true) (other : isAlphanumeric d = false) : c ≠ d := by
  rintro rfl
  simp [other] at h

/-- A letter or a numeral has no meaning of its own in a pattern. -/
theorem isMagic_of_isAlphanumeric (h : isAlphanumeric c = true) : isMagic c = false := by
  have all : ∀ d ∈ ['(', ')', '.', '%', '+', '-', '*', '?', '[', ']', '^', '$'], isAlphanumeric d = false := by decide
  refine Bool.eq_false_iff.mpr fun magic => ?_
  exact ne_of_isAlphanumeric h (all c (by simpa [isMagic] using magic)) rfl

theorem ne_of_isPunctuation (h : isPunctuation c = true) (other : isPunctuation d = false) : c ≠ d := by
  rintro rfl
  simp [other] at h

theorem classEscape_punctuation (c : Punctuation) : classEscape c.val = escapeChar c.val := by
  have other {d : Char} : isPunctuation d = false → c.val ≠ d := ne_of_isPunctuation c.property
  exact classEscape.eq_4 c.val (other (by decide)) (other (by decide)) (other (by decide))

theorem Member.isProper_lua (m : Member) : m.lua.all LuaPattern.Member.isProper = true := by
  cases m with
  | char c => rfl
  | range lower upper =>
    simp [lua, LuaPattern.Member.isProper, isMagic_of_isAlphanumeric lower.property, isMagic_of_isAlphanumeric upper.property]
  | shorthand s => cases s <;> decide
  | escaped c => rfl

theorem Member.lua_ne_nil (m : Member) : m.lua ≠ [] := by
  cases m with
  | char c | range lower upper | escaped c => exact List.cons_ne_nil _ _
  | shorthand s => cases s <;> exact List.cons_ne_nil _ _

theorem Atom.isProper_lua (a : Atom) : a.lua.isProper = true := by
  cases a with
  | plain c => rfl
  | escaped c => rfl
  | control c => rfl
  | any => rfl
  | shorthand negated s => cases negated <;> cases s <;> decide
  | set negated first others =>
    have nonempty : (first :: others).flatMap Member.lua ≠ [] := by
      rw [List.flatMap_cons]
      exact List.append_ne_nil_of_left_ne_nil first.lua_ne_nil _
    rw [lua, LuaPattern.Single.isProper, List.all_flatMap, List.isEmpty_eq_false_iff.mpr nonempty]
    simp [Member.isProper_lua]

/-- The text of members in a pattern. -/
abbrev membersText (ms : List LuaPattern.Member) : List Char := ms.flatMap LuaPattern.Member.text

theorem classMembers_plain (bracket : c ≠ ']') (mark : c ≠ '\\') (percent : c ≠ '%') (rest : List Char) :
    classMembers (c :: rest) = (c :: (classMembers rest).1, 1 + (classMembers rest).2) := by
  rw [classMembers_char mark bracket, if_neg (by simpa using percent)]

theorem Member.classMembers_text (m : Member) (rest : List Char) :
    classMembers (m.text ++ rest) = (membersText m.lua ++ (classMembers rest).1, m.text.length + (classMembers rest).2) := by
  have alphanumeric : ∀ (c : Alphanumeric) (rest : List Char),
      classMembers (c.val :: rest) = (c.val :: (classMembers rest).1, 1 + (classMembers rest).2) := by
    intro c
    have other {d : Char} : isAlphanumeric d = false → c.val ≠ d := ne_of_isAlphanumeric c.property
    exact classMembers_plain (other (by decide)) (other (by decide)) (other (by decide))
  cases m with
  | char c =>
    have plain : escapeChar c.val = [c.val] := if_neg (by rw [isMagic_of_isAlphanumeric c.property]; decide)
    change classMembers (c.val :: rest) = _
    rw [alphanumeric]
    simp [membersText, lua, text, LuaPattern.Member.text, plain]
  | range lower upper =>
    change classMembers (lower.val :: '-' :: upper.val :: rest) = _
    rw [alphanumeric, classMembers_plain (by decide) (by decide) (by decide), alphanumeric]
    simp [membersText, lua, text, LuaPattern.Member.text]
    omega
  | shorthand s => cases s <;> rfl
  | escaped c =>
    change classMembers ('\\' :: c.val :: rest) = _
    rw [classMembers, classEscape_punctuation]
    simp [membersText, lua, text, LuaPattern.Member.text]

theorem classMembers_text (ms : List Member) (rest : List Char) : classMembers (ms.flatMap Member.text ++ ']' :: rest) =
      (membersText (ms.flatMap Member.lua), (ms.flatMap Member.text).length + 1) := by
  induction ms with
  | nil => rfl
  | cons m ms ih =>
    rw [List.flatMap_cons, List.append_assoc, Member.classMembers_text, ih, List.flatMap_cons, List.length_append]
    simp [membersText, Nat.add_assoc]

/-- The text of a member starts with a letter, a numeral or a backslash. -/
theorem Member.head?_text (m : Member) (alphanumeric : isAlphanumeric d = false) (mark : d ≠ '\\') (rest : List Char) :
    (m.text ++ rest).head? ≠ some d := by
  cases m with
  | char c => exact fun same => ne_of_isAlphanumeric c.property alphanumeric (Option.some_inj.mp same)
  | range lower upper => exact fun same => ne_of_isAlphanumeric lower.property alphanumeric (Option.some_inj.mp same)
  | shorthand s | escaped c => exact fun same => mark (Option.some_inj.mp same).symm

theorem classPiece_text (negated : Bool) (first : Member) (others : List Member) (rest : List Char) :
    classPiece ((if negated then ['^'] else []) ++ ((first :: others).flatMap Member.text ++ ']' :: rest)) =
      (String.ofList (Atom.set negated first others).lua.text,
        ((if negated then ['^'] else []) ++ (first :: others).flatMap Member.text ++ [']']).length) := by
  have members := classMembers_text (first :: others) rest
  have head : ∀ d, isAlphanumeric d = false → d ≠ '\\' → ∀ cs, (first :: others).flatMap Member.text ++ ']' :: rest = d :: cs → False := by
    intro d alphanumeric mark cs same
    rw [List.flatMap_cons, List.append_assoc] at same
    exact first.head?_text alphanumeric mark _ (by rw [same, List.head?_cons])
  have body := classBody.eq_2 _ (head ']' (by decide) (by decide))
  cases negated with
  | false =>
    rw [if_neg Bool.false_ne_true, List.nil_append, classPiece.eq_2 _ (head '^' (by decide) (by decide)), body, members]
    simp [Atom.lua, LuaPattern.Single.text, Nat.add_assoc]
  | true =>
    rw [if_pos rfl, List.singleton_append, classPiece, body, members]
    simp [Atom.lua, LuaPattern.Single.text]
    omega

theorem escapedPiece_punctuation (h : isPunctuation c = true) : escapedPiece c = [String.ofList (escapeChar c)] := by
  have none : shorthand? c = none := by
    unfold shorthand?
    split
    all_goals first | rfl | cases h
  unfold escapedPiece
  rw [none]
  dsimp only
  split
  all_goals first | rfl | cases h

/-- One step of the conversion takes the whole text of a single character. -/
theorem Atom.exists_text (a : Atom) : ∃ c cs, a.text = c :: cs ∧ c ≠ '?' ∧
    ∀ rest, step c (cs ++ rest) = .write [String.ofList a.lua.text] cs.length := by
  cases a with
  | plain c =>
    obtain ⟨c, plain⟩ := c
    refine ⟨c, [], rfl, ?_, fun rest => ?_⟩
    · rintro rfl
      cases plain
    · unfold step
      split
      all_goals first | rfl | cases plain
  | escaped c =>
    obtain ⟨c, punctuation⟩ := c
    refine ⟨'\\', [c], rfl, by decide, fun rest => ?_⟩
    change Step.write (escapedPiece c) 1 = _
    rw [escapedPiece_punctuation punctuation]
    rfl
  | control c =>
    refine ⟨'\\', [c.letter], rfl, by decide, fun rest => ?_⟩
    cases c <;> rfl
  | any => exact ⟨'.', [], rfl, by decide, fun rest => rfl⟩
  | shorthand negated s =>
    refine ⟨'\\', [_], rfl, by decide, fun rest => ?_⟩
    cases negated <;> cases s <;> rfl
  | set negated first others =>
    refine ⟨'[', (if negated then ['^'] else []) ++ (first :: others).flatMap Member.text ++ [']'], rfl, by decide, fun rest => ?_⟩
    change Step.write [(classPiece _).1] (classPiece _).2 = _
    rw [List.append_assoc, List.append_assoc, List.singleton_append, classPiece_text]

theorem Atom.convertFrom_text (a : Atom) (pieces : List String) (rest : List Char) :
    convertFrom pieces 0 (a.text ++ rest) = convertFrom (String.ofList a.lua.text :: pieces) 0 rest := by
  obtain ⟨c, cs, text, _, steps⟩ := a.exists_text
  rw [text, convertFrom_write (steps rest)]

/-! ### Quantifiers -/

theorem isDecimal_of_mem_toDigits {n : Nat} (mem : c ∈ Nat.toDigits 10 n) : isDecimal c = true :=
  isDecimal_of_isDigit (Nat.isDigit_of_mem_toDigits (by decide) (by decide) mem)

theorem decimalValue_toDigits (n : Nat) : decimalValue (Nat.toDigits 10 n) = n := by
  rw [decimalValue_eq fun c mem => Nat.isDigit_of_mem_toDigits (by decide) (by decide) mem, Nat.ofDigitChars_ten_toDigits]

theorem isCount_exactly (n : Nat) : IsCount (Nat.toDigits 10 n ++ ['\x7d']) ⟨n, some n⟩ := by
  have count := IsCount.exactly (@Nat.toDigits_ne_nil n 10) fun c mem => isDecimal_of_mem_toDigits mem
  rwa [decimalValue_toDigits] at count

theorem isCount_atLeast (n : Nat) : IsCount (Nat.toDigits 10 n ++ [','] ++ ['\x7d']) ⟨n, none⟩ := by
  have count := IsCount.atLeast (@Nat.toDigits_ne_nil n 10) fun c mem => isDecimal_of_mem_toDigits mem
  rw [decimalValue_toDigits] at count
  rwa [List.append_assoc]

theorem isCount_between (low high : Nat) :
    IsCount (Nat.toDigits 10 low ++ ',' :: Nat.toDigits 10 high ++ ['\x7d']) ⟨low, some high⟩ := by
  have count := IsCount.between (@Nat.toDigits_ne_nil low 10) (fun c mem => isDecimal_of_mem_toDigits mem)
    (@Nat.toDigits_ne_nil high 10) fun c mem => isDecimal_of_mem_toDigits mem
  rw [decimalValue_toDigits, decimalValue_toDigits] at count
  rwa [List.append_assoc]

theorem head?_lazyMark (isLazy : Bool) (apart : rest.head? ≠ some '?') :
    ((lazyMark isLazy ++ rest).head? == some '?') = isLazy := by
  cases isLazy with
  | true => rfl
  | false => simpa [lazyMark] using apart

theorem length_lazyMark (isLazy : Bool) : (lazyMark isLazy).length = if isLazy then 1 else 0 := by
  cases isLazy <;> rfl

/-- A mark is taken with the question mark that makes it lazy. The star alone is written in another way then. -/
theorem step_mark (mark : c ∈ ['*', '+', '?']) (isLazy : Bool) (apart : rest.head? ≠ some '?') :
    step c (lazyMark isLazy ++ rest) =
      .write [if c = '*' ∧ isLazy = true then "-" else String.singleton c] (lazyMark isLazy).length := by
  have isMark := head?_lazyMark isLazy apart
  rw [length_lazyMark]
  simp only [List.mem_cons, List.not_mem_nil, or_false] at mark
  rcases mark with rfl | rfl | rfl
  · change (if ((lazyMark isLazy ++ rest).head? == some '?') = true then Step.write ["-"] 1 else Step.write ["*"] 0) = _
    rw [isMark]
    cases isLazy <;> rfl
  · change Step.write ["+"] (if ((lazyMark isLazy ++ rest).head? == some '?') = true then 1 else 0) = _
    rw [isMark]
    rfl
  · change Step.write ["?"] (if ((lazyMark isLazy ++ rest).head? == some '?') = true then 1 else 0) = _
    rw [isMark]
    rfl

/-- What is written for a quantifier behind a piece. -/
theorem Quantifier.convertFrom_text (q : Quantifier) (s : LuaPattern.Single) (pieces : List String)
    (apart : rest.head? ≠ some '?') : ∃ new : List String,
    convertFrom (String.ofList s.text :: pieces) 0 (q.text ++ rest) = convertFrom (new ++ pieces) 0 rest ∧
    (String.join new.reverse).toList = (q.lua s).flatMap LuaPattern.Item.text := by
  have mark : ∀ {c : Char}, c ∈ ['*', '+', '?'] → ∀ isLazy : Bool,
      convertFrom (String.ofList s.text :: pieces) 0 (c :: lazyMark isLazy ++ rest) =
        convertFrom ([if c = '*' ∧ isLazy = true then "-" else String.singleton c, String.ofList s.text] ++ pieces) 0 rest :=
    fun isMark isLazy => convertFrom_write (step_mark isMark isLazy apart) _
  cases q with
  | once => exact ⟨[String.ofList s.text], rfl, by simp [lua, LuaPattern.Item.text, LuaPattern.Suffix.text]⟩
  | optional isLazy | plus isLazy =>
    exact ⟨_, mark (by decide) isLazy, by simp [lua, LuaPattern.Item.text, LuaPattern.Suffix.text]⟩
  | star isLazy =>
    refine ⟨_, mark (by decide) isLazy, ?_⟩
    cases isLazy <;> simp [lua, LuaPattern.Item.text, LuaPattern.Suffix.text]
  | exactly n =>
    refine ⟨[Repetition.unroll ⟨n, some n⟩ (String.ofList s.text)], convertFrom_count (isCount_exactly n) _ rest, ?_⟩
    simp [lua, unroll_some, LuaPattern.Item.text, LuaPattern.Suffix.text, toList_copies, List.flatMap_replicate]
  | atLeast n =>
    refine ⟨[Repetition.unroll ⟨n, none⟩ (String.ofList s.text)], convertFrom_count (isCount_atLeast n) _ rest, ?_⟩
    by_cases one : n = 1
    · subst one
      simp [lua, LuaPattern.Item.text, LuaPattern.Suffix.text, Repetition.unroll]
    · rw [lua, if_neg one]
      simp [unroll_none one, LuaPattern.Item.text, LuaPattern.Suffix.text, toList_copies, List.flatMap_replicate]
  | between low high ordered =>
    refine ⟨[Repetition.unroll ⟨low, some high⟩ (String.ofList s.text)], convertFrom_count (isCount_between low high) _ rest, ?_⟩
    simp [lua, unroll_some, LuaPattern.Item.text, LuaPattern.Suffix.text, toList_copies, List.flatMap_replicate]

/-! ### The whole literal -/

theorem head?_items (is : List Item) (apart : rest.head? ≠ some '?') : (is.flatMap Item.text ++ rest).head? ≠ some '?' := by
  cases is with
  | nil => exact apart
  | cons i is =>
    obtain ⟨c, cs, text, other, _⟩ := i.atom.exists_text
    rw [List.flatMap_cons, Item.text, text]
    exact fun same => other (Option.some_inj.mp same)

theorem convertFrom_items (is : List Item) (pieces : List String) (apart : rest.head? ≠ some '?') :
    ∃ new : List String, convertFrom pieces 0 (is.flatMap Item.text ++ rest) = convertFrom (new ++ pieces) 0 rest ∧
    (String.join new.reverse).toList = (is.flatMap Item.lua).flatMap LuaPattern.Item.text := by
  induction is generalizing pieces with
  | nil => exact ⟨[], rfl, rfl⟩
  | cons i is ih =>
    obtain ⟨new, item, itemText⟩ := i.quantifier.convertFrom_text i.atom.lua pieces (head?_items is apart)
    obtain ⟨more, items, itemsText⟩ := ih (new ++ pieces)
    refine ⟨more ++ new, ?_, ?_⟩
    · rw [List.flatMap_cons, Item.text, List.append_assoc, List.append_assoc, Atom.convertFrom_text, item, items, List.append_assoc]
    · rw [List.reverse_append, String.join_append, String.toList_append, itemText, itemsText, List.flatMap_cons, List.flatMap_append]
      rfl

theorem ofBody_body (r : Regex) : ofBody r.body = some (String.ofList r.lua.text) := by
  have start : ∀ cs, convertFrom [] 0 ((if r.atStart then ['^'] else []) ++ cs) = convertFrom (if r.atStart then ["^"] else []) 0 cs := by
    intro cs
    cases r.atStart <;> rfl
  have ends : ∀ pieces, convertFrom pieces 0 (if r.atEnd then ['$'] else []) = some ((if r.atEnd then ["$"] else []) ++ pieces) := by
    intro pieces
    cases r.atEnd <;> rfl
  have apart : (if r.atEnd then ['$'] else []).head? ≠ some '?' := by cases r.atEnd <;> decide
  obtain ⟨new, items, text⟩ := convertFrom_items r.items (if r.atStart then ["^"] else []) apart
  rw [ofBody, body, List.append_assoc, start, items, ends, Option.map_some, LuaPattern.text, lua, ← text]
  simp only [List.reverse_append, String.join_append]
  cases r.atStart <;> cases r.atEnd <;> simp [← String.toList_inj]

theorem body_ne_nil (r : Regex) : r.body ≠ [] := by
  have items : r.items ≠ [] → r.items.flatMap Item.text ≠ [] := by
    cases r.items with
    | nil => exact fun h => absurd rfl h
    | cons i is =>
      obtain ⟨c, cs, text, _⟩ := i.atom.exists_text
      rw [List.flatMap_cons, Item.text, text]
      exact fun _ => List.cons_ne_nil _ _
  rcases r.nonempty with h | h | h
  · simp [body, h]
  · simp [body, items h]
  · simp [body, h]

/-- The text of the pattern is what is written for the literal. -/
theorem ofRegex_literal (r : Regex) : Pattern.ofRegex r.literal = ⟨some (String.ofList r.lua.text), r.isGlobal⟩ := by
  have isFlag : ∀ c ∈ (if r.isGlobal then ['g'] else []), Token.isRegexFlag c = true := by cases r.isGlobal <;> decide
  rw [Pattern.ofRegex, literal, String.toList_ofList, splitLiteral_slashes r.body_ne_nil isFlag]
  change (⟨ofBody r.body, _⟩ : Pattern) = _
  rw [ofBody_body]
  cases r.isGlobal <;> rfl

theorem Quantifier.single_of_mem_lua (q : Quantifier) {s : LuaPattern.Single} {i : LuaPattern.Item} (mem : i ∈ q.lua s) :
    i.single = s := by
  have copy : ∀ {n : Nat} {x : LuaPattern.Suffix}, i ∈ List.replicate n ⟨s, x⟩ → i.single = s := by
    intro n x mem
    rw [List.eq_of_mem_replicate mem]
  have alone : ∀ {x : LuaPattern.Suffix}, i ∈ [(⟨s, x⟩ : LuaPattern.Item)] → i.single = s := by
    intro x mem
    rw [List.mem_singleton.mp mem]
  cases q with
  | once | optional isLazy | plus isLazy | star isLazy => exact alone mem
  | exactly n => exact copy mem
  | atLeast n =>
    rw [lua] at mem
    split at mem
    · exact alone mem
    · exact (List.mem_append.mp mem).elim copy alone
  | between low high ordered => exact (List.mem_append.mp mem).elim copy copy

theorem isProper_items (r : Regex) : ∀ i ∈ r.lua.items, i.single.isProper = true := by
  intro i mem
  obtain ⟨item, _, mem⟩ := List.mem_flatMap.mp mem
  rw [item.quantifier.single_of_mem_lua mem]
  exact item.atom.isProper_lua

/-- What is written for a regular expression without groups is a pattern of Lua, which is found at the same places as the
regular expression, whatever the classes and the dot stand for. -/
theorem ofRegex_matches (r : Regex) : ∃ (text : String) (p : LuaPattern),
    Pattern.ofRegex r.literal = ⟨some text, r.isGlobal⟩ ∧ LuaPattern.ofText? text.toList = some p ∧
    ∀ k before found after, p.Matches k before found after ↔ r.Matches k before found after := by
  refine ⟨String.ofList r.lua.text, r.lua, ofRegex_literal r, ?_, fun k => matches_lua k r⟩
  rw [String.toList_ofList]
  exact LuaPattern.ofText?_text (isProper_items r)

end Regex

end NoteScript

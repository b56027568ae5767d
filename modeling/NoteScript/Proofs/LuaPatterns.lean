import Mathlib.Computability.Language
import NoteScript.Pattern
import NoteScript.Proofs.Characters

/-!
# The patterns of Lua

A pattern is a row of items, each a single character out of some set with a suffix that says how often it may come, and may be
held at either end of the text. Captures, back references, balanced pairs and frontiers are left out: they are no items of a
single character.

* `CharClasses`: what the letters of classes and the dot stand for, which is left open.
* `LuaPattern.ofText?`: the grammar, as a reader of texts. `LuaPattern.text`: the text of a pattern.
* `ofText?_text`: a pattern is read back from its text.
* `LuaPattern.Matches`: where in a text a pattern is found.
-/

namespace NoteScript

open Pattern (isMagic escapeChar)
open scoped Computability

/-- The characters that the dot and the letters of classes stand for. The letters are in lower case. -/
structure CharClasses where
  dot : Char → Bool
  letter : Char → Char → Bool

/-- A letter in upper case stands for all other characters. -/
def CharClasses.named (k : CharClasses) (letter c : Char) : Bool :=
  if letter.isUpper then !k.letter letter.toLower c else k.letter letter c

namespace LuaPattern

/-! ### Items -/

/-- What may stand between square brackets. -/
inductive Member where
  | char (c : Char)
  | range (first last : Char)
  | named (letter : Char)
deriving DecidableEq

/-- A single character. -/
inductive Single where
  | any
  | char (c : Char)
  | named (letter : Char)
  | set (negated : Bool) (members : List Member)
deriving DecidableEq

/-- How often a character may come. The last two stand for the same texts, of which the minus sign tries the short ones first. -/
inductive Suffix where
  | once | optional | plus | star | minus
deriving DecidableEq

structure Item where
  single : Single
  suffix : Suffix
deriving DecidableEq

def Member.accepts (k : CharClasses) (c : Char) : Member → Bool
  | .char d => c == d
  | .range first last => first ≤ c && c ≤ last
  | .named letter => k.named letter c

def Single.accepts (k : CharClasses) (c : Char) : Single → Bool
  | .any => k.dot c
  | .char d => c == d
  | .named letter => k.named letter c
  | .set negated members => members.any (·.accepts k c) != negated

/-- The texts of one character that is accepted. -/
def Single.language (k : CharClasses) (s : Single) : Language Char := {w | ∃ c, s.accepts k c = true ∧ w = [c]}

def Suffix.language (l : Language Char) : Suffix → Language Char
  | .once => l
  | .optional => 1 + l
  | .plus => l * l∗
  | .star => l∗
  | .minus => l∗

def Item.language (k : CharClasses) (i : Item) : Language Char := i.suffix.language (i.single.language k)

end LuaPattern

/-- A row of items. The pattern may have to start where the text does, and end where the text does. -/
structure LuaPattern where
  atStart : Bool
  items : List LuaPattern.Item
  atEnd : Bool
deriving DecidableEq

namespace LuaPattern

variable {cs rest : List Char} {m : Member} {ms : List Member}

/-- The pattern is found at `found`, with `before` in front of it and `after` behind it. -/
def Matches (k : CharClasses) (p : LuaPattern) (before found after : List Char) : Prop :=
  (p.atStart = true → before = []) ∧ (p.atEnd = true → after = []) ∧ found ∈ (p.items.map (·.language k)).prod

/-! ### The grammar -/

/-- The letters that name a class behind a percent sign. -/
def namesClass (c : Char) : Bool := ['a', 'c', 'd', 'g', 'l', 'p', 's', 'u', 'w', 'x'].contains c.toLower

/-- The length of a set up to its closing bracket. A bracket that comes first closes nothing. -/
def setSize? (first : Bool) : List Char → Option Nat
  | [] => none
  | '%' :: _ :: rest => (setSize? false rest).map (· + 2)
  | c :: rest => if c = ']' ∧ first = false then some 0 else (setSize? false rest).map (· + 1)

/-- The members of a set. A minus sign makes a range if it has a character on either side. -/
def members : List Char → List Member
  | [] => []
  | '%' :: c :: rest => (if namesClass c then .named c else .char c) :: members rest
  | first :: '-' :: last :: rest => .range first last :: members rest
  | c :: rest => .char c :: members rest

/-- A class or an escaped character, given what follows its percent sign, with the count of the characters behind that sign. -/
def escaped? : List Char → Option (Single × Nat)
  | [] => none
  | c :: _ =>
    if namesClass c then some (.named c, 1)
    else if c.isDigit || c = 'b' || c = 'f' then none
    else some (.char c, 1)

/-- A set, given what follows its opening bracket, with the count of the characters behind that bracket. -/
def set? : List Char → Option (Single × Nat)
  | '^' :: cs => (setSize? true cs).map fun n => (.set true (members (cs.take n)), n + 2)
  | cs => (setSize? true cs).map fun n => (.set false (members (cs.take n)), n + 1)

/-- The single character whose text starts with `c`, with the count of the characters behind it. -/
def single? (c : Char) (rest : List Char) : Option (Single × Nat) := if c = '.' then some (.any, 0)
  else if c = '%' then escaped? rest
  else if c = '[' then set? rest
  else if c = '(' ∨ c = ')' then none
  else some (.char c, 0)

/-- The suffix at the start of a text. -/
def suffix : List Char → Suffix
  | '?' :: _ => .optional
  | '+' :: _ => .plus
  | '*' :: _ => .star
  | '-' :: _ => .minus
  | _ => .once

def Suffix.text : Suffix → List Char
  | .once => []
  | .optional => ['?']
  | .plus => ['+']
  | .star => ['*']
  | .minus => ['-']

/-- The items of a text, and whether a dollar sign ends it, where `skip` characters belong to an item that was read. -/
def itemsFrom? (skip : Nat) : List Char → Option (List Item × Bool)
  | [] => some ([], false)
  | c :: rest =>
    match skip with
    | k + 1 => itemsFrom? k rest
    | 0 =>
      if c = '$' ∧ rest = [] then some ([], true)
      else (single? c rest).bind fun (single, n) =>
        let suffix := suffix (rest.drop n)
        (itemsFrom? (n + suffix.text.length) rest).map fun (items, atEnd) => (⟨single, suffix⟩ :: items, atEnd)

/-- The pattern that a text is read as. -/
def ofText? : List Char → Option LuaPattern
  | '^' :: cs => (itemsFrom? 0 cs).map fun (items, atEnd) => ⟨true, items, atEnd⟩
  | cs => (itemsFrom? 0 cs).map fun (items, atEnd) => ⟨false, items, atEnd⟩

/-! ### The text of a pattern -/

def Member.text : Member → List Char
  | .char c => escapeChar c
  | .range first last => [first, '-', last]
  | .named letter => ['%', letter]

def Single.text : Single → List Char
  | .any => ['.']
  | .char c => escapeChar c
  | .named letter => ['%', letter]
  | .set negated members => '[' :: (if negated then ['^'] else []) ++ members.flatMap Member.text ++ [']']

def Item.text (i : Item) : List Char := i.single.text ++ i.suffix.text

def text (p : LuaPattern) : List Char :=
  (if p.atStart then ['^'] else []) ++ p.items.flatMap Item.text ++ if p.atEnd then ['$'] else []

/-- Letters name a class, and the ends of a range have no meaning of their own. -/
def Member.isProper : Member → Bool
  | .char _ => true
  | .range first last => !isMagic first && !isMagic last
  | .named letter => namesClass letter

/-- A set has members. -/
def Single.isProper : Single → Bool
  | .any => true
  | .char _ => true
  | .named letter => namesClass letter
  | .set _ members => !members.isEmpty && members.all Member.isProper

/-! ### Reading a text back -/

/-- A character that stands for itself starts no other item, set or suffix. -/
theorem ne_of_plain {c : Char} (plain : isMagic c = false) {d : Char} (magic : isMagic d = true) : c ≠ d := by
  rintro rfl
  simp [plain] at magic

theorem namesClass_of_isMagic {c : Char} (magic : isMagic c = true) :
    namesClass c = false ∧ (c.isDigit || c = 'b' || c = 'f') = false := by
  simp only [isMagic, List.contains_eq_mem, List.mem_cons, List.not_mem_nil, or_false, decide_eq_true_eq] at magic
  rcases magic with rfl | rfl | rfl | rfl | rfl | rfl | rfl | rfl | rfl | rfl | rfl | rfl <;> decide

/-- The inside of a set: a closing bracket stands behind a percent sign only, and no percent sign stands at the end. -/
inductive SetText : List Char → Prop where
  | nil : SetText []
  | escape (c : Char) {cs : List Char} : SetText cs → SetText ('%' :: c :: cs)
  | char {c : Char} {cs : List Char} : c ≠ '%' → c ≠ ']' → SetText cs → SetText (c :: cs)

theorem SetText.append {ds : List Char} (front : SetText cs) (back : SetText ds) : SetText (cs ++ ds) := by
  induction front with
  | nil => exact back
  | escape c _ ih => exact .escape c ih
  | char percent bracket _ ih => exact .char percent bracket ih

theorem setText_escapeChar (c : Char) : SetText (escapeChar c) := by
  rw [escapeChar]
  by_cases magic : isMagic c = true
  · rw [if_pos magic]
    exact .escape c .nil
  · rw [if_neg magic]
    have plain : isMagic c = false := Bool.not_eq_true _ ▸ magic
    exact .char (ne_of_plain plain rfl) (ne_of_plain plain rfl) .nil

theorem Member.setText (proper : m.isProper = true) : SetText m.text := by
  cases m with
  | char c => exact setText_escapeChar c
  | range lower upper =>
    simp only [isProper, Bool.and_eq_true, Bool.not_eq_true'] at proper
    have other : ∀ {c : Char}, isMagic c = false → c ≠ '%' ∧ c ≠ ']' := fun plain => ⟨ne_of_plain plain rfl, ne_of_plain plain rfl⟩
    exact .char (other proper.1).1 (other proper.1).2 (.char (by decide) (by decide) (.char (other proper.2).1 (other proper.2).2 .nil))
  | named letter => exact .escape letter .nil

theorem setText_members (proper : ms.all Member.isProper = true) : SetText (ms.flatMap Member.text) := by
  induction ms with
  | nil => exact .nil
  | cons m ms ih =>
    rw [List.all_cons, Bool.and_eq_true] at proper
    exact (Member.setText proper.1).append (ih proper.2)

/-- A set ends at the first bracket that is not inside it. -/
theorem setSize?_setText (inside : SetText cs) {first : Bool} (nonempty : first = true → cs ≠ []) (rest : List Char) :
    setSize? first (cs ++ ']' :: rest) = some cs.length := by
  induction inside generalizing first with
  | nil =>
    cases first with
    | false => rfl
    | true => exact absurd rfl (nonempty rfl)
  | @escape c cs _ ih =>
    rw [List.cons_append, List.cons_append, setSize?, ih (by rintro ⟨⟩), Option.map_some, List.length_cons, List.length_cons]
  | @char c cs percent bracket _ ih =>
    rw [List.cons_append, setSize?.eq_3 first c _ fun _ _ same => absurd same percent, if_neg fun both => bracket both.1,
      ih (by rintro ⟨⟩), Option.map_some, List.length_cons]

theorem set?_setText {negated : Bool} (inside : SetText cs) (nonempty : cs ≠ [])
    (caret : negated = false → cs.head? ≠ some '^') (rest : List Char) :
    set? ((if negated then ['^'] else []) ++ (cs ++ ']' :: rest)) =
      some (.set negated (members cs), ((if negated then ['^'] else []) ++ cs ++ [']']).length) := by
  have size : setSize? true (cs ++ ']' :: rest) = some cs.length := setSize?_setText inside (fun _ => nonempty) rest
  cases negated with
  | false =>
    have unmarked : ∀ ds, cs ++ ']' :: rest = '^' :: ds → False := by
      intro ds same
      obtain ⟨c, cs, rfl⟩ := List.exists_cons_of_ne_nil nonempty
      exact caret rfl (congrArg some (List.cons.inj same).1)
    rw [if_neg Bool.false_ne_true, List.nil_append, set?.eq_2 _ unmarked, size, Option.map_some, List.take_left]
    simp
  | true =>
    rw [if_pos rfl, List.singleton_append, set?, size, Option.map_some, List.take_left]
    simp

theorem exists_escapeChar (c : Char) : ∃ d more, escapeChar c = d :: more ∧ (isMagic d = false ∨ d = '%') := by
  rw [escapeChar]
  by_cases magic : isMagic c = true
  · exact ⟨'%', [c], if_pos magic, .inr rfl⟩
  · exact ⟨c, [], if_neg magic, .inl (Bool.not_eq_true _ ▸ magic)⟩

theorem Member.exists_text (proper : m.isProper = true) : ∃ d more, m.text = d :: more ∧ (isMagic d = false ∨ d = '%') := by
  cases m with
  | char c => exact exists_escapeChar c
  | range lower upper =>
    simp only [isProper, Bool.and_eq_true, Bool.not_eq_true'] at proper
    exact ⟨lower, ['-', upper], rfl, .inl proper.1⟩
  | named letter => exact ⟨'%', [letter], rfl, .inr rfl⟩

theorem head?_members (proper : ms.all Member.isProper = true) {d : Char} (magic : isMagic d = true)
    (other : d ≠ '%') (behind : rest.head? ≠ some d) : (ms.flatMap Member.text ++ rest).head? ≠ some d := by
  cases ms with
  | nil => exact behind
  | cons m ms =>
    rw [List.all_cons, Bool.and_eq_true] at proper
    obtain ⟨c, more, text, plain⟩ := Member.exists_text proper.1
    rw [List.flatMap_cons, text, List.cons_append, List.cons_append, List.head?_cons, ne_eq, Option.some_inj]
    rcases plain with plain | rfl
    · exact ne_of_plain plain magic
    · exact other.symm

theorem Member.members_text (proper : m.isProper = true) (apart : rest.head? ≠ some '-') :
    members (m.text ++ rest) = m :: members rest := by
  cases m with
  | char c =>
    rw [text, escapeChar]
    by_cases magic : isMagic c = true
    · rw [if_pos magic]
      change members ('%' :: c :: rest) = _
      rw [members.eq_2, (namesClass_of_isMagic magic).1, if_neg Bool.false_ne_true]
    · rw [if_neg magic]
      refine members.eq_4 c rest (fun d more mark => ?_) fun d more behind => apart (by rw [behind, List.head?_cons])
      exact absurd mark (ne_of_plain (Bool.not_eq_true _ ▸ magic) rfl)
  | range lower upper =>
    simp only [isProper, Bool.and_eq_true, Bool.not_eq_true'] at proper
    exact members.eq_3 lower upper rest fun mark => absurd mark (ne_of_plain proper.1 rfl)
  | named letter =>
    have names : namesClass letter = true := proper
    change members ('%' :: letter :: rest) = _
    rw [members.eq_2, if_pos names]

theorem members_text (proper : ms.all Member.isProper = true) : members (ms.flatMap Member.text) = ms := by
  induction ms with
  | nil => rfl
  | cons m ms ih =>
    rw [List.all_cons, Bool.and_eq_true] at proper
    have apart : (ms.flatMap Member.text).head? ≠ some '-' := by
      have none : ([] : List Char).head? ≠ some '-' := by simp
      simpa using head?_members proper.2 rfl (by decide) none
    rw [List.flatMap_cons, Member.members_text proper.1 apart, ih proper.2]

theorem set?_text {negated : Bool} (proper : (Single.set negated ms).isProper = true) (rest : List Char) :
    set? ((if negated then ['^'] else []) ++ (ms.flatMap Member.text ++ ']' :: rest)) =
      some (.set negated ms, ((if negated then ['^'] else []) ++ ms.flatMap Member.text ++ [']']).length) := by
  simp only [Single.isProper, Bool.and_eq_true, Bool.not_eq_true', List.isEmpty_eq_false_iff] at proper
  have nonempty : ms.flatMap Member.text ≠ [] := by
    obtain ⟨m, ms, rfl⟩ := List.exists_cons_of_ne_nil proper.1
    obtain ⟨c, more, text, -⟩ := Member.exists_text (List.all_eq_true.mp proper.2 m List.mem_cons_self)
    simp [text]
  have caret : (ms.flatMap Member.text).head? ≠ some '^' := by
    have none : ([] : List Char).head? ≠ some '^' := by simp
    simpa using head?_members proper.2 rfl (by decide) none
  rw [set?_setText (setText_members proper.2) nonempty (fun _ => caret), members_text proper.2]

/-- The text of a single character is read as that character, whatever follows, and starts with none of the characters that
end an item. -/
theorem Single.exists_text {s : Single} (proper : s.isProper = true) : ∃ c more, s.text = c :: more ∧
    c ∉ ['$', '^', '?', '+', '*', '-'] ∧ ∀ rest, single? c (more ++ rest) = some (s, more.length) := by
  cases s with
  | any => exact ⟨'.', [], rfl, by decide, fun rest => rfl⟩
  | char c =>
    rw [text, escapeChar]
    by_cases magic : isMagic c = true
    · obtain ⟨noClass, noOther⟩ := namesClass_of_isMagic magic
      refine ⟨'%', [c], if_pos magic, by decide, fun rest => ?_⟩
      change escaped? (c :: rest) = _
      rw [escaped?, noClass, noOther]
      rfl
    · have plain : isMagic c = false := Bool.not_eq_true _ ▸ magic
      have other : ∀ d, isMagic d = true → c ≠ d := fun d => ne_of_plain plain
      refine ⟨c, [], if_neg magic, ?_, fun rest => ?_⟩
      · simp only [List.mem_cons, List.not_mem_nil, or_false, not_or]
        exact ⟨other _ rfl, other _ rfl, other _ rfl, other _ rfl, other _ rfl, other _ rfl⟩
      · rw [single?, if_neg (other _ rfl), if_neg (other _ rfl), if_neg (other _ rfl), if_neg]
        · rfl
        · rintro (same | same)
          · exact other _ rfl same
          · exact other _ rfl same
  | named letter =>
    have names : namesClass letter = true := proper
    refine ⟨'%', [letter], rfl, by decide, fun rest => ?_⟩
    change escaped? (letter :: rest) = _
    rw [escaped?, if_pos names]
    rfl
  | set negated ms =>
    refine ⟨'[', (if negated then ['^'] else []) ++ ms.flatMap Member.text ++ [']'], rfl, by decide, fun rest => ?_⟩
    rw [List.append_assoc, List.append_assoc, List.singleton_append]
    exact set?_text proper rest

theorem itemsFrom?_drop (skip : Nat) (cs : List Char) : itemsFrom? skip cs = itemsFrom? 0 (cs.drop skip) :=
  Text.skip_eq_drop skip cs (fun _ => rfl) fun _ _ _ => rfl

theorem suffix_text (x : Suffix) (apart : suffix rest = .once) : suffix (x.text ++ rest) = x := by
  cases x with
  | once => exact apart
  | optional => rfl
  | plus => rfl
  | star => rfl
  | minus => rfl

/-- An item is read from its text if no other suffix follows. -/
theorem itemsFrom?_item {i : Item} (proper : i.single.isProper = true) (apart : suffix rest = .once) :
    itemsFrom? 0 (i.text ++ rest) = (itemsFrom? 0 rest).map fun (items, atEnd) => (i :: items, atEnd) := by
  obtain ⟨c, more, text, start, reads⟩ := Single.exists_text proper
  have ends : c ≠ '$' := by
    rintro rfl
    exact start (by decide)
  rw [Item.text, text, List.append_assoc, List.cons_append, itemsFrom?, if_neg fun both => ends both.1, reads, Option.bind_some]
  simp only [List.drop_left, suffix_text i.suffix apart, itemsFrom?_drop (_ + _)]
  rw [← List.append_assoc, ← List.length_append, List.drop_left]

theorem suffix_items {is : List Item} (proper : ∀ i ∈ is, i.single.isProper = true) (apart : suffix rest = .once) :
    suffix (is.flatMap Item.text ++ rest) = .once := by
  cases is with
  | nil => exact apart
  | cons i is =>
    obtain ⟨c, more, text, start, _⟩ := Single.exists_text (proper i List.mem_cons_self)
    rw [List.flatMap_cons, Item.text, text]
    unfold suffix
    split <;> simp_all

theorem itemsFrom?_items {is : List Item} (proper : ∀ i ∈ is, i.single.isProper = true) (atEnd : Bool) :
    itemsFrom? 0 (is.flatMap Item.text ++ if atEnd then ['$'] else []) = some (is, atEnd) := by
  have ends : suffix (if atEnd then ['$'] else []) = .once := by cases atEnd <;> rfl
  induction is with
  | nil => cases atEnd <;> rfl
  | cons i is ih =>
    have others : ∀ j ∈ is, j.single.isProper = true := fun j mem => proper j (List.mem_cons_of_mem i mem)
    rw [List.flatMap_cons, List.append_assoc, itemsFrom?_item (proper i List.mem_cons_self) (suffix_items others ends), ih others]
    rfl

/-- A pattern is read back from its text. -/
theorem ofText?_text {p : LuaPattern} (proper : ∀ i ∈ p.items, i.single.isProper = true) : ofText? p.text = some p := by
  obtain ⟨atStart, is, atEnd⟩ := p
  cases atStart with
  | true =>
    change (itemsFrom? 0 (is.flatMap Item.text ++ if atEnd then ['$'] else [])).map _ = _
    rw [itemsFrom?_items proper]
    rfl
  | false =>
    have unmarked : ∀ cs, is.flatMap Item.text ++ (if atEnd then ['$'] else []) = '^' :: cs → False := by
      intro cs same
      cases is with
      | nil => cases atEnd <;> cases same
      | cons i is =>
        obtain ⟨c, more, text, start, _⟩ := Single.exists_text (proper i List.mem_cons_self)
        rw [List.flatMap_cons, Item.text, text] at same
        cases same
        exact start (by decide)
    change ofText? (is.flatMap Item.text ++ if atEnd then ['$'] else []) = _
    rw [ofText?.eq_2 _ unmarked, itemsFrom?_items proper]
    rfl

end LuaPattern

end NoteScript

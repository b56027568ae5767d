import NoteScript.Proofs.RegularExpressions

/-!
# Classes as sets

A class becomes a set of the pattern, member by member. The set is read with the same members as long as each of them keeps its
meaning there: some escapes do not, and a minus sign that stands for itself makes a range if what is written in front of it can
start one.

* `Regex.Class`: a class, with its text and the characters that belong to it. `Regex.readMembers` says where it has ranges.
* `Pattern.set?_classPiece`: whatever class is converted, a set is written.
* `Regex.members_written_iff`: the set has the members of the class if and only if they are `Regex.Kept`.
-/

namespace NoteScript

open Pattern Text

/-! ### Sets that are written -/

namespace Pattern

open LuaPattern

theorem setText_classEscape (c : Char) : SetText (classEscape c) := by
  unfold classEscape
  split
  · exact .escape 'w' (.char (by decide) (by decide) .nil)
  · exact .escape 'd' .nil
  · exact .escape 's' .nil
  · exact setText_escapeChar c

theorem setText_classMembers (cs : List Char) : SetText (classMembers cs).1 := by
  fun_induction classMembers cs with
  | case1 | case3 => exact .nil
  | case2 c rest members n read ih =>
    rw [read] at ih
    exact (setText_classEscape c).append ih
  | case4 c rest notPair bracket members n read ih =>
    rw [read] at ih
    split
    · exact ih
    · split
      · exact .escape '%' ih
      · rename_i percent
        exact .char (by simpa using percent) (by simpa using bracket) ih

theorem exists_classEscape (c : Char) : ∃ d more, classEscape c = d :: more ∧ (isMagic d = false ∨ d = '%') := by
  unfold classEscape
  split
  · exact ⟨_, _, rfl, .inr rfl⟩
  · exact ⟨_, _, rfl, .inr rfl⟩
  · exact ⟨_, _, rfl, .inr rfl⟩
  · exact exists_escapeChar c

/-- Something is written for members, and a caret comes first only where it does in the class. -/
theorem Inside.exists_classMembers {members : List Char} (inside : Inside members) (nonempty : members ≠ []) (rest : List Char) :
    ∃ d more, (classMembers (members ++ rest)).1 = d :: more ∧ (d = '^' → members.head? = some '^') := by
  cases inside with
  | nil => exact absurd rfl nonempty
  | @pair c cs inside =>
    obtain ⟨d, more, text, plain⟩ := exists_classEscape c
    rw [List.cons_append, List.cons_append, classMembers_pair, text]
    refine ⟨d, _, rfl, ?_⟩
    rintro rfl
    rcases plain with plain | plain <;> cases plain
  | @char c cs pair bracket inside =>
    rw [List.cons_append, classMembers_char pair bracket]
    by_cases percent : c = '%'
    · exact ⟨'%', _, if_pos (beq_iff_eq.mpr percent), by rintro ⟨⟩⟩
    · exact ⟨c, _, if_neg (mt beq_iff_eq.mp percent), congrArg some⟩

/-- What is written for a class is a set, whatever follows it. -/
theorem set?_classPiece (negated bracket : Bool) {cs : List Char} (caret : negated = false → bracket = false → cs.head? ≠ some '^')
    (first : bracket = false → cs.head? ≠ some ']')
    (begins : bracket = false → ∃ d more, (classMembers cs).1 = d :: more ∧ (d = '^' → cs.head? = some '^')) :
    ∃ body, (classPiece (classLead negated bracket ++ cs)).1.toList = '[' :: body ∧ ∀ rest, set? (body ++ rest) =
      some (.set negated (members ((if bracket then ['%', ']'] else []) ++ (classMembers cs).1)), body.length) := by
  have inside : SetText ((if bracket then ['%', ']'] else []) ++ (classMembers cs).1) := by
    cases bracket with
    | false => exact setText_classMembers cs
    | true => exact .escape ']' (setText_classMembers cs)
  obtain ⟨d, more, text, mark⟩ : ∃ d more, (if bracket then ['%', ']'] else []) ++ (classMembers cs).1 = d :: more ∧
      (negated = false → d ≠ '^') := by
    cases bracket with
    | false =>
      obtain ⟨d, more, text, mark⟩ := begins rfl
      exact ⟨d, more, text, fun plain same => caret plain rfl (mark same)⟩
    | true => exact ⟨'%', _, rfl, fun _ => by decide⟩
  rw [classPiece_lead negated bracket caret first]
  refine ⟨_, String.toList_ofList, fun rest => ?_⟩
  rw [text] at inside ⊢
  have read := set?_setText inside (List.cons_ne_nil d more) (fun plain same => mark plain (Option.some_inj.mp same)) rest
  simpa using read

/-- A class with members is passed as a whole and becomes a set. -/
theorem classPiece_inside (negated : Bool) {inner : List Char} (inside : Inside inner) (nonempty : inner ≠ [])
    (caret : negated = false → inner.head? ≠ some '^') (rest : List Char) :
    (∃ body, (classPiece ((if negated then ['^'] else []) ++ (inner ++ ']' :: rest))).1.toList = '[' :: body ∧
      ∀ more, set? (body ++ more) = some (.set negated (members (classMembers (inner ++ ']' :: rest)).1), body.length)) ∧
    (classPiece ((if negated then ['^'] else []) ++ (inner ++ ']' :: rest))).2 =
      ((if negated then ['^'] else []) ++ (inner ++ [']'])).length := by
  have lead : (if negated then ['^'] else []) = classLead negated false := (List.append_nil _).symm
  have head : (inner ++ ']' :: rest).head? = inner.head? := List.head?_append_of_ne_nil _ nonempty
  have noCaret : negated = false → false = false → (inner ++ ']' :: rest).head? ≠ some '^' := fun plain _ => head ▸ caret plain
  have noBracket : false = false → (inner ++ ']' :: rest).head? ≠ some ']' := fun _ => head ▸ inside.head?_ne
  constructor
  · rw [lead]
    exact set?_classPiece negated false noCaret noBracket fun _ => head ▸ inside.exists_classMembers nonempty _
  · rw [lead, classPiece_lead negated false noCaret noBracket, classMembers_size inside]
    simp

end Pattern

namespace Regex

variable {a : ClassAtom} {c : Char} {atoms : List ClassAtom} {m : ClassMember} {ms : List ClassMember}

/-! ### Classes -/

/-- All characters that are no digits, or no white space. -/
inductive Complement where
  | digit | space

def Complement.shorthand : Complement → Shorthand
  | .digit => .digit
  | .space => .space

def Complement.letter : Complement → Char
  | .digit => 'D'
  | .space => 'S'

/-- What is written between square brackets. -/
inductive ClassAtom where
  | char (c : { c : Char // c ≠ '\\' ∧ c ≠ ']' })
  | shorthand (s : Shorthand)
  | complement (s : Complement)
  | control (c : Control)
  | escaped (c : Punctuation)

def ClassAtom.text : ClassAtom → List Char
  | .char c => [c.val]
  | .shorthand s => ['\\', s.letter]
  | .complement s => ['\\', s.letter]
  | .control c => ['\\', c.letter]
  | .escaped c => ['\\', c.val]

/-- The character that is meant, if it is a single one. -/
def ClassAtom.single? : ClassAtom → Option Char
  | .char c => some c.val
  | .shorthand _ => none
  | .complement _ => none
  | .control c => some c.char
  | .escaped c => some c.val

/-- A minus sign without a backslash. -/
def ClassAtom.isMinus (a : ClassAtom) : Bool := a.text == ['-']

inductive ClassMember where
  | atom (a : ClassAtom)
  | range (lower upper : Char)

/-- The members of a class. A minus sign that is neither the first nor the last stands for a range, unless there is no single
character on one of its sides. -/
def readMembers : List ClassAtom → List ClassMember
  | [] => []
  | a :: minus :: b :: rest =>
    if minus.isMinus then
      match a.single?, b.single? with
      | some lower, some upper => .range lower upper :: readMembers rest
      | _, _ => .atom a :: .atom minus :: .atom b :: readMembers rest
    else .atom a :: readMembers (minus :: b :: rest)
  | a :: rest => .atom a :: readMembers rest

/-- The ends of a range are letters or numerals. -/
def ClassMember.isProper : ClassMember → Bool
  | .atom _ => true
  | .range lower upper => isAlphanumeric lower && isAlphanumeric upper

structure Class where
  negated : Bool
  atoms : List ClassAtom
  /-- A caret that comes first is the mark of negation. -/
  caret : negated = false → atoms.head?.map ClassAtom.text ≠ some ['^']
  ranges : (readMembers atoms).all ClassMember.isProper = true

/-- What stands between the brackets. -/
def Class.text (cls : Class) : List Char := (if cls.negated then ['^'] else []) ++ cls.atoms.flatMap ClassAtom.text

def Class.members (cls : Class) : List ClassMember := readMembers cls.atoms

def ClassAtom.accepts (k : CharClasses) (c : Char) : ClassAtom → Bool
  | .char d => c == d.val
  | .shorthand s => s.accepts k c
  | .complement s => !s.shorthand.accepts k c
  | .control d => c == d.char
  | .escaped d => c == d.val

def ClassMember.accepts (k : CharClasses) (c : Char) : ClassMember → Bool
  | .atom a => a.accepts k c
  | .range lower upper => lower ≤ c && c ≤ upper

def Class.accepts (k : CharClasses) (c : Char) (cls : Class) : Bool := cls.members.any (·.accepts k c) != cls.negated

/-! ### Members of the set -/

def ClassAtom.lua : ClassAtom → List LuaPattern.Member
  | .char c => [.char c.val]
  | .shorthand s => s.lua
  | .complement s => [.named s.letter]
  | .control c => [.char c.char]
  | .escaped c => [.char c.val]

/-- The members of a set that stand for the same characters. -/
def ClassMember.lua : ClassMember → List LuaPattern.Member
  | .atom a => a.lua
  | .range lower upper => [.range lower upper]

theorem ClassAtom.any_lua (k : CharClasses) (c : Char) (a : ClassAtom) : a.lua.any (·.accepts k c) = a.accepts k c := by
  cases a with
  | char d | control d | escaped d => exact Bool.or_false _
  | shorthand s => exact s.any_lua k c
  | complement s =>
    cases s with
    | digit | space => exact Bool.or_false _

theorem ClassMember.any_lua (k : CharClasses) (c : Char) (m : ClassMember) : m.lua.any (·.accepts k c) = m.accepts k c := by
  cases m with
  | atom a => exact a.any_lua k c
  | range lower upper => exact Bool.or_false _

/-- A set with these members has the same characters as the class. -/
theorem Class.accepts_lua (k : CharClasses) (c : Char) (cls : Class) :
    (LuaPattern.Single.set cls.negated (cls.members.flatMap ClassMember.lua)).accepts k c = cls.accepts k c := by
  rw [LuaPattern.Single.accepts, List.any_flatMap, accepts]
  simp only [ClassMember.any_lua]

/-! ### What is written for a member -/

def ClassAtom.written : ClassAtom → List Char
  | .char c => if c.val = '%' then ['%', '%'] else [c.val]
  | .shorthand s => classEscape s.letter
  | .complement s => classEscape s.letter
  | .control c => classEscape c.letter
  | .escaped c => classEscape c.val

def ClassMember.written : ClassMember → List Char
  | .atom a => a.written
  | .range lower upper => [lower, '-', upper]

/-- What is written for it ends with a character that a minus sign makes the start of a range. -/
def ClassAtom.isOpen : ClassAtom → Bool
  | .char c => c.val != '%'
  | .shorthand .word => true
  | .shorthand _ => false
  | .complement _ => true
  | .control _ => true
  | .escaped c => !isMagic c.val

def ClassMember.isOpen : ClassMember → Bool
  | .atom a => a.isOpen
  | .range _ _ => false

/-- Of these escapes the letter alone is written. -/
def ClassMember.isLost : ClassMember → Bool
  | .atom (.complement _) => true
  | .atom (.control _) => true
  | _ => false

/-- No escape is lost, and no minus sign stands between an open member and another one. -/
structure Kept (ms : List ClassMember) : Prop where
  escapes : ∀ m ∈ ms, m.isLost = false
  minus : ∀ front m minus m' back, ms = front ++ m :: .atom minus :: m' :: back → minus.isMinus = true → m.isOpen = false

theorem classMembers_atom (a : ClassAtom) (rest : List Char) :
    classMembers (a.text ++ rest) = (a.written ++ (classMembers rest).1, a.text.length + (classMembers rest).2) := by
  cases a with
  | char c =>
    change classMembers (c.val :: rest) = _
    rw [classMembers_char c.property.1 c.property.2, ClassAtom.written]
    by_cases percent : c.val = '%'
    · rw [if_pos (beq_iff_eq.mpr percent), if_pos percent]
      rfl
    · rw [if_neg (mt beq_iff_eq.mp percent), if_neg percent]
      rfl
  | shorthand s => exact classMembers_pair s.letter rest
  | complement s | control c | escaped c => exact classMembers_pair _ rest

theorem classMembers_atoms (atoms : List ClassAtom) (rest : List Char) :
    classMembers (atoms.flatMap ClassAtom.text ++ ']' :: rest) =
      (atoms.flatMap ClassAtom.written, (atoms.flatMap ClassAtom.text).length + 1) := by
  induction atoms with
  | nil => rfl
  | cons a atoms ih =>
    rw [List.flatMap_cons, List.append_assoc, classMembers_atom, ih, List.flatMap_cons, List.length_append, Nat.add_assoc]

/-- A single character that is a letter or a numeral is written as it is. -/
theorem ClassAtom.written_of_single? (single : a.single? = some c)
    (alphanumeric : isAlphanumeric c = true) : a.written = [c] := by
  cases a with
  | char d =>
    cases single
    exact if_neg (ne_of_isAlphanumeric alphanumeric (by decide))
  | shorthand s | complement s => cases single
  | control d =>
    cases single
    cases d <;> exact absurd alphanumeric (by decide)
  | escaped d =>
    cases single
    rw [written, classEscape_punctuation, escapeChar, isMagic_of_isAlphanumeric alphanumeric, if_neg Bool.false_ne_true]

theorem ClassAtom.isMinus_iff : a.isMinus = true ↔ a = .char ⟨'-', by decide⟩ := by
  rw [isMinus, beq_iff_eq]
  cases a with
  | char c =>
    rw [text, List.cons.injEq, ClassAtom.char.injEq, Subtype.ext_iff]
    exact and_iff_left rfl
  | shorthand s | complement s | control c | escaped c => simp [text]

theorem flatMap_readMembers (proper : (readMembers atoms).all ClassMember.isProper = true) :
    (readMembers atoms).flatMap ClassMember.written = atoms.flatMap ClassAtom.written := by
  fun_induction readMembers atoms with
  | case1 => rfl
  | case2 a minus b rest isMinus lower upper upperSingle lowerSingle ih =>
    simp only [List.all_cons, ClassMember.isProper, Bool.and_eq_true] at proper
    have lowerText : a.written = [lower] := ClassAtom.written_of_single? lowerSingle proper.1.1
    have upperText : b.written = [upper] := ClassAtom.written_of_single? upperSingle proper.1.2
    simp only [List.flatMap_cons, ih proper.2, lowerText, upperText, ClassAtom.isMinus_iff.mp isMinus]
    rfl
  | case3 a minus b rest isMinus notBoth ih =>
    simp only [List.all_cons, ClassMember.isProper, Bool.true_and] at proper
    simp only [List.flatMap_cons, ih proper]
    rfl
  | case4 a minus b rest isMinus ih | case5 a rest notTriple ih =>
    simp only [List.all_cons, ClassMember.isProper, Bool.true_and] at proper
    rw [List.flatMap_cons, ih proper]
    rfl

/-! ### What the set is read as -/

/-- A character that is no percent sign starts a range if a minus sign and another character follow. -/
theorem members_cons (percent : c ≠ '%') (rest : List Char) :
    (∃ last more, rest = '-' :: last :: more ∧ LuaPattern.members (c :: rest) = .range c last :: LuaPattern.members more) ∨
      (∀ last more, rest ≠ '-' :: last :: more) ∧ LuaPattern.members (c :: rest) = .char c :: LuaPattern.members rest := by
  by_cases range : ∃ last more, rest = '-' :: last :: more
  · obtain ⟨last, more, rfl⟩ := range
    exact .inl ⟨last, more, rfl, LuaPattern.members.eq_3 c last more percent⟩
  · have none : ∀ last more, rest ≠ '-' :: last :: more := fun last more same => range ⟨last, more, same⟩
    exact .inr ⟨none, LuaPattern.members.eq_4 c rest (fun d more same => absurd same percent) none⟩

/-- A member that is not open is read as it is meant, whatever follows. -/
def ClassMember.Closed (m : ClassMember) : Prop :=
  m.isOpen = false ∧ m.isLost = false ∧ ∀ rest, LuaPattern.members (m.written ++ rest) = m.lua ++ LuaPattern.members rest

/-- What is written for an open member ends with a character of its own, which is read as it is meant unless the escape is lost. -/
def ClassMember.Opens (m : ClassMember) : Prop :=
  m.isOpen = true ∧ ∃ front c read last, m.written = front ++ [c] ∧ c ≠ '%' ∧ m.lua = read ++ [last] ∧
    (∀ rest, LuaPattern.members (front ++ rest) = read ++ LuaPattern.members rest) ∧
    (last = .char c ↔ m.isLost = false) ∧ ∀ upper, last ≠ .range c upper

theorem ClassAtom.opens {last : LuaPattern.Member} (isOpen : a.isOpen = true) (written : a.written = [c])
    (percent : c ≠ '%') (lua : a.lua = [last]) (kept : last = .char c ↔ ClassMember.isLost (.atom a) = false)
    (range : ∀ upper, last ≠ .range c upper) : ClassMember.Opens (.atom a) :=
  ⟨isOpen, [], c, [], last, written, percent, lua, fun _ => rfl, kept, range⟩

theorem ClassAtom.closed_or_opens (a : ClassAtom) : ClassMember.Closed (.atom a) ∨ ClassMember.Opens (.atom a) := by
  cases a with
  | char c =>
    obtain ⟨c, other⟩ := c
    by_cases percent : c = '%'
    · subst percent
      exact .inl ⟨rfl, rfl, fun rest => rfl⟩
    · exact .inr (opens (bne_iff_ne.mpr percent) (if_neg percent) percent rfl (iff_of_true rfl rfl) (by rintro _ ⟨⟩))
  | shorthand s =>
    cases s with
    | word =>
      exact .inr ⟨rfl, ['%', 'w'], '_', [.named 'w'], .char '_', rfl, by decide, rfl, fun rest => rfl, by decide, by rintro _ ⟨⟩⟩
    | digit | space => exact .inl ⟨rfl, rfl, fun rest => rfl⟩
  | complement s => cases s <;> exact .inr (opens rfl rfl (by decide) rfl (by decide) (by rintro _ ⟨⟩))
  | control c => cases c <;> exact .inr (opens rfl rfl (by decide) rfl (by decide) (by rintro _ ⟨⟩))
  | escaped c =>
    by_cases magic : isMagic c.val = true
    · have written : (escaped c).written = ['%', c.val] := by
        rw [ClassAtom.written, classEscape_punctuation, escapeChar, if_pos magic]
      refine .inl ⟨?_, rfl, fun rest => ?_⟩
      · change (!isMagic c.val) = false
        rw [magic]
        rfl
      · change LuaPattern.members ((escaped c).written ++ rest) = _
        rw [written]
        change LuaPattern.members ('%' :: c.val :: rest) = _
        rw [LuaPattern.members.eq_2, (LuaPattern.namesClass_of_isMagic magic).1]
        rfl
    · have plain : isMagic c.val = false := Bool.not_eq_true _ ▸ magic
      refine .inr (opens (c := c.val) ?_ ?_ (LuaPattern.ne_of_plain plain rfl) rfl (iff_of_true rfl rfl) (by rintro _ ⟨⟩))
      · change (!isMagic c.val) = true
        rw [plain]
        rfl
      · rw [ClassAtom.written, classEscape_punctuation, escapeChar, if_neg magic]

theorem ClassMember.closed_or_opens (proper : m.isProper = true) : m.Closed ∨ m.Opens := by
  cases m with
  | atom a => exact a.closed_or_opens
  | range lower upper =>
    rw [isProper, Bool.and_eq_true] at proper
    exact .inl ⟨rfl, rfl, fun rest => LuaPattern.members.eq_3 lower upper rest (ne_of_isAlphanumeric proper.1 (by decide))⟩

theorem ClassMember.written_ne_nil (proper : m.isProper = true) : m.written ≠ [] := by
  cases m with
  | atom a =>
    have escape : ∀ c, classEscape c ≠ [] := by
      intro c
      obtain ⟨d, more, text, -⟩ := exists_classEscape c
      rw [text]
      exact List.cons_ne_nil d more
    cases a with
    | char c =>
      change (if c.val = '%' then ['%', '%'] else [c.val]) ≠ []
      split <;> exact List.cons_ne_nil _ _
    | shorthand s | complement s | control c | escaped c => exact escape _
  | range lower upper => exact List.cons_ne_nil _ _

/-- A minus sign comes first only for a minus sign. -/
theorem ClassMember.exists_minus (proper : m.isProper = true) {more : List Char}
    (written : m.written = '-' :: more) : ∃ a, m = .atom a ∧ a.isMinus = true := by
  have escape : ∀ c, classEscape c ≠ '-' :: more := by
    intro c same
    obtain ⟨d, more, text, plain⟩ := exists_classEscape c
    rw [text] at same
    cases same
    rcases plain with plain | plain <;> cases plain
  cases m with
  | atom a =>
    cases a with
    | char c =>
      change (if c.val = '%' then ['%', '%'] else [c.val]) = _ at written
      split at written
      · cases written
      · exact ⟨_, rfl, beq_iff_eq.mpr (congrArg (· :: []) (List.cons.inj written).1)⟩
    | shorthand s | complement s | control c | escaped c => exact absurd written (escape _)
  | range lower upper =>
    rw [isProper, Bool.and_eq_true] at proper
    exact absurd (List.cons.inj written).1 (ne_of_isAlphanumeric proper.1 (by decide))

/-- A minus sign comes first and is not the last. -/
def minusFirst : List ClassMember → Bool
  | .atom a :: _ :: _ => a.isMinus
  | _ => false

theorem minusFirst_iff : minusFirst ms = true ↔ ∃ a m back, ms = .atom a :: m :: back ∧ a.isMinus = true := by
  constructor
  · intro minus
    unfold minusFirst at minus
    split at minus
    · exact ⟨_, _, _, rfl, minus⟩
    · cases minus
  · rintro ⟨a, m, back, rfl, minus⟩
    exact minus

theorem kept_nil : Kept [] := ⟨List.forall_mem_nil _, fun front m a m' back shape => by simp at shape⟩

theorem kept_cons : Kept (m :: ms) ↔ m.isLost = false ∧ (m.isOpen = true → ¬minusFirst ms = true) ∧ Kept ms := by
  rw [minusFirst_iff]
  constructor
  · intro kept
    refine ⟨kept.escapes m List.mem_cons_self, ?_, fun m' mem => kept.escapes m' (List.mem_cons_of_mem m mem), ?_⟩
    · rintro isOpen ⟨a, m', back, rfl, minus⟩
      simp [kept.minus [] m a m' back rfl minus] at isOpen
    · rintro front m' a m'' back rfl minus
      exact kept.minus (m :: front) m' a m'' back rfl minus
  · rintro ⟨escape, apart, kept⟩
    refine ⟨List.forall_mem_cons.mpr ⟨escape, kept.escapes⟩, ?_⟩
    rintro front m' a m'' back shape minus
    cases front with
    | nil =>
      cases shape
      exact Bool.eq_false_iff.mpr fun isOpen => apart isOpen ⟨a, m'', back, rfl, minus⟩
    | cons first front => exact kept.minus front m' a m'' back (List.cons.inj shape).2 minus

instance decidableKept : (ms : List ClassMember) → Decidable (Kept ms)
  | [] => isTrue kept_nil
  | m :: ms =>
    have := decidableKept ms
    decidable_of_iff _ (@kept_cons m ms).symm

/-- What is written for members makes a range of what comes before if a minus sign comes first and is not the last. -/
theorem written_minus_iff (proper : ms.all ClassMember.isProper = true) :
    (∃ last more, ms.flatMap ClassMember.written = '-' :: last :: more) ↔ minusFirst ms = true := by
  rw [minusFirst_iff]
  constructor
  · rintro ⟨last, more, shape⟩
    cases ms with
    | nil => cases shape
    | cons m ms =>
      rw [List.all_cons, Bool.and_eq_true] at proper
      obtain ⟨c, front, text⟩ := List.exists_cons_of_ne_nil (m.written_ne_nil proper.1)
      rw [List.flatMap_cons, text, List.cons_append, List.cons.injEq] at shape
      obtain ⟨rfl, shape⟩ := shape
      obtain ⟨a, rfl, minus⟩ := m.exists_minus proper.1 text
      rw [ClassAtom.isMinus_iff.mp minus] at text
      cases text
      cases ms with
      | nil => cases shape
      | cons m back => exact ⟨a, m, back, rfl, minus⟩
  · rintro ⟨a, m, back, rfl, minus⟩
    simp only [List.all_cons, Bool.and_eq_true] at proper
    obtain ⟨c, front, text⟩ := List.exists_cons_of_ne_nil (m.written_ne_nil proper.2.1)
    rw [ClassAtom.isMinus_iff.mp minus, List.flatMap_cons, List.flatMap_cons, text]
    exact ⟨c, _, rfl⟩

/-- The set is read with the members of the class if and only if these are kept. -/
theorem members_written_iff (proper : ms.all ClassMember.isProper = true) :
    LuaPattern.members (ms.flatMap ClassMember.written) = ms.flatMap ClassMember.lua ↔ Kept ms := by
  induction ms with
  | nil => exact iff_of_true rfl kept_nil
  | cons m ms ih =>
    rw [List.all_cons, Bool.and_eq_true] at proper
    rw [List.flatMap_cons, List.flatMap_cons, kept_cons, ← ih proper.2, ← written_minus_iff proper.2]
    -- what follows matters behind an open member only: there the two readings part at a minus sign
    rcases ClassMember.closed_or_opens proper.1 with
      ⟨isClosed, escape, reads⟩ | ⟨isOpen, front, c, read, last, text, percent, lua, reads, kept, range⟩
    · rw [reads, List.append_cancel_left_eq]
      simp [isClosed, escape]
    · rw [text, List.append_assoc, reads, lua, List.append_assoc, List.append_cancel_left_eq, List.singleton_append,
        List.singleton_append]
      rcases members_cons percent (ms.flatMap ClassMember.written) with ⟨upper, more, shape, same⟩ | ⟨none, same⟩
      · rw [same]
        refine iff_of_false (fun same => range upper (List.cons.inj same).1.symm) ?_
        rintro ⟨-, apart, -⟩
        exact apart isOpen ⟨upper, more, shape⟩
      · rw [same, List.cons.injEq, eq_comm, kept]
        refine and_congr_right fun _ => (and_iff_right fun _ => ?_).symm
        rintro ⟨upper, more, shape⟩
        exact none upper more shape

/-! ### The whole class -/

theorem ofText?_set {body : List Char} {single : LuaPattern.Single} (set : LuaPattern.set? body = some (single, body.length)) :
    LuaPattern.ofText? ('[' :: body) = some ⟨false, [⟨single, .once⟩], false⟩ := by
  have ends : LuaPattern.itemsFrom? body.length body = some ([], false) := by
    rw [LuaPattern.itemsFrom?_drop, List.drop_length]
    rfl
  have start : LuaPattern.single? '[' body = some (single, body.length) := set
  rw [LuaPattern.ofText?.eq_2 _ (by rintro cs ⟨⟩), LuaPattern.itemsFrom?, if_neg (by rintro ⟨⟨⟩, -⟩), start, Option.bind_some]
  simp [LuaPattern.suffix, LuaPattern.Suffix.text, ends]

theorem inside_atoms (atoms : List ClassAtom) : Inside (atoms.flatMap ClassAtom.text) := by
  induction atoms with
  | nil => exact .nil
  | cons a atoms ih =>
    cases a with
    | char c => exact .char c.property.1 c.property.2 ih
    | shorthand s | complement s | control c | escaped c => exact .pair ih

theorem head?_atoms (caret : atoms.head?.map ClassAtom.text ≠ some ['^']) : (atoms.flatMap ClassAtom.text).head? ≠ some '^' := by
  cases atoms with
  | nil => simp
  | cons a atoms =>
    cases a with
    | char c => exact fun same => caret (congrArg (fun c => some [c]) (Option.some_inj.mp same))
    | shorthand s | complement s | control c | escaped c => simp [ClassAtom.text]

theorem flatMap_text_ne_nil (nonempty : atoms ≠ []) : atoms.flatMap ClassAtom.text ≠ [] := by
  obtain ⟨a, atoms, rfl⟩ := List.exists_cons_of_ne_nil nonempty
  cases a <;> exact List.cons_ne_nil _ _

/-- A class that is not empty is passed as a whole, and its members are written. -/
theorem classPiece_atoms (cls : Class) (nonempty : cls.atoms ≠ []) (rest : List Char) :
    (∃ body, (classPiece (cls.text ++ ']' :: rest)).1.toList = '[' :: body ∧ LuaPattern.set? body =
      some (.set cls.negated (LuaPattern.members (cls.members.flatMap ClassMember.written)), body.length)) ∧
    (classPiece (cls.text ++ ']' :: rest)).2 = (cls.text ++ [']']).length := by
  rw [Class.text, List.append_assoc, List.append_assoc]
  obtain ⟨⟨body, piece, set⟩, size⟩ := classPiece_inside cls.negated (inside_atoms cls.atoms) (flatMap_text_ne_nil nonempty)
    (fun plain => head?_atoms (cls.caret plain)) rest
  have set := set []
  rw [List.append_nil, classMembers_atoms, ← flatMap_readMembers cls.ranges] at set
  exact ⟨⟨body, piece, set⟩, size⟩

/-- An empty class takes the bracket that closes it for a member. -/
theorem classPiece_empty (cls : Class) (empty : cls.atoms = []) (rest : List Char) :
    ∃ body ms, (classPiece (cls.text ++ ']' :: rest)).1.toList = '[' :: body ∧ LuaPattern.set? body =
      some (.set cls.negated (.char ']' :: ms), body.length) := by
  have text : cls.text ++ ']' :: rest = classLead cls.negated true ++ rest := by simp [Class.text, empty, classLead]
  obtain ⟨body, piece, set⟩ := @set?_classPiece cls.negated true rest (by rintro _ ⟨⟩) (by rintro ⟨⟩) (by rintro ⟨⟩)
  have set := set []
  rw [List.append_nil] at set
  exact ⟨body, _, text ▸ piece, set⟩

/-- A class is converted to a set, which has the members that are meant if and only if the class is not empty and its members
are kept. Then the class is passed as a whole and the same characters belong to the set, whatever the shorthands stand for. -/
theorem accepts_classPiece (cls : Class) (rest : List Char) : ∃ ms : List LuaPattern.Member,
    LuaPattern.ofText? (classPiece (cls.text ++ ']' :: rest)).1.toList = some ⟨false, [⟨.set cls.negated ms, .once⟩], false⟩ ∧
    (cls.atoms ≠ [] → (classPiece (cls.text ++ ']' :: rest)).2 = (cls.text ++ [']']).length) ∧
    (ms = cls.members.flatMap ClassMember.lua ↔ cls.atoms ≠ [] ∧ Kept cls.members) ∧
    (cls.atoms ≠ [] → Kept cls.members → ∀ k c, (LuaPattern.Single.set cls.negated ms).accepts k c = cls.accepts k c) := by
  by_cases empty : cls.atoms = []
  · obtain ⟨body, ms, piece, set⟩ := classPiece_empty cls empty rest
    refine ⟨_, by rw [piece, ofText?_set set], fun nonempty => absurd empty nonempty, ?_, fun nonempty => absurd empty nonempty⟩
    have none : cls.members = [] := by rw [Class.members, empty, readMembers]
    rw [none]
    exact iff_of_false (List.cons_ne_nil _ _) fun both => both.1 empty
  · obtain ⟨⟨body, piece, set⟩, size⟩ := classPiece_atoms cls empty rest
    have kept : LuaPattern.members (cls.members.flatMap ClassMember.written) = cls.members.flatMap ClassMember.lua ↔
        Kept cls.members := members_written_iff cls.ranges
    refine ⟨_, by rw [piece, ofText?_set set], fun _ => size, ?_, fun _ isKept k c => ?_⟩
    · rw [and_iff_right empty]
      exact kept
    · rw [kept.mpr isKept, cls.accepts_lua]

theorem accepts_classPiece_ranges : ∃ ms : List LuaPattern.Member,
    LuaPattern.ofText? (classPiece "^\\w.a-f-]x".toList).1.toList = some ⟨false, [⟨.set true ms, .once⟩], false⟩ ∧
    ∀ k c, (LuaPattern.Single.set true ms).accepts k c =
      Class.accepts k c ⟨true, [.shorthand .word, .char ⟨'.', by decide⟩, .char ⟨'a', by decide⟩, .char ⟨'-', by decide⟩,
        .char ⟨'f', by decide⟩, .char ⟨'-', by decide⟩], by decide, by decide⟩ := by
  obtain ⟨ms, read, -, -, same⟩ := accepts_classPiece ⟨true, [.shorthand .word, .char ⟨'.', by decide⟩, .char ⟨'a', by decide⟩,
    .char ⟨'-', by decide⟩, .char ⟨'f', by decide⟩, .char ⟨'-', by decide⟩], by decide, by decide⟩ ['x']
  exact ⟨ms, read, same (by decide) (by decide)⟩

/-- The line feed of an escape belongs to the class, and not to the set. -/
theorem not_accepts_lineFeed : Pattern.ofRegex "/[\\n]/" = ⟨some "[n]", false⟩ ∧
    LuaPattern.ofText? "[n]".toList = some ⟨false, [⟨.set false [.char 'n'], .once⟩], false⟩ ∧
    ∀ k, Class.accepts k '\n' ⟨false, [.control .lineFeed], by decide, by decide⟩ = true ∧
      (LuaPattern.Single.set false [.char 'n']).accepts k '\n' = false :=
  ⟨by decide, by decide, fun _ => ⟨rfl, rfl⟩⟩

end Regex

end NoteScript

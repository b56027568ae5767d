import NoteScript.Proofs.Course
import NoteScript.Rules.Nesting

/-!
# The course of single units

What one unit of an expression does at a spot, for the units that need no rule inside them: blanks,
numbers, names, operators and brackets. A unit looks at its neighbours: `following` is the next token that
is no trivia.
-/

namespace NoteScript

open Edit

/-- The first token of a list that is no trivia. -/
def following (tokens : List Token) : Token := (tokens.dropWhile Token.isTrivia).headD .eof

theorem following_cons {t : Token} (rest : List Token) (h : t.isTrivia = false) : following (t :: rest) = t := by
  simp [following, h]

theorem following_trivia {t : Token} (rest : List Token) (h : t.isTrivia = true) : following (t :: rest) = following rest := by
  simp [following, h]

theorem Token.kind_of_isTrivia {t : Token} (h : t.isTrivia = true) : t.kind = .space ∨ t.kind = .newline ∨ t.kind = .comment := by
  unfold isTrivia at h
  split at h <;> simp_all

theorem Token.bracketDepth_trivia {ts : List Token} (trivia : ∀ t ∈ ts, t.isTrivia = true) : bracketDepth ts = 0 := by
  induction ts with
  | nil => rfl
  | cons t ts ih =>
    obtain ⟨first, others⟩ := List.forall_mem_cons.mp trivia
    have plain : t.isOpener = false ∧ t.isCloser = false := by
      rcases kind_of_isTrivia first with kind | kind | kind <;> simp [isOpener, isCloser, isPunct, kind]
    simp [bracketDepth, plain, ih others]

/-- The text with a piece of trivia behind it. A comment is kept apart from text in front of it. -/
def Buffer.addTrivia (out : Buffer) (t : Token) : Buffer := if t.kind == .comment then
    (if out.getLast?.any Buffer.endsWithText then out ++ [" "] else out) ++ [Literal.comment t.text]
  else out ++ [t.text]

theorem Buffer.addTrivia_blank (out : Buffer) {t : Token} (blank : t.kind = .space ∨ t.kind = .newline) :
    out.addTrivia t = out ++ [t.text] := by
  have noComment : (t.kind == .comment) = false := by rcases blank with h | h <;> rw [h] <;> rfl
  rw [addTrivia, noComment]
  rfl

namespace Rules

variable {r : Rules} {before rest : List Token} {out : Buffer} {loops : LoopState} {t : Token} {text : String}

/-! ### Trivia and literals -/

theorem takes_emitTrivia : Takes emitTrivia ⟨before, t :: rest, out, loops⟩ () ⟨t :: before, rest, out.addTrivia t, loops⟩ := by
  refine (Takes.next t).bind ?_
  unfold Buffer.addTrivia
  cases comment : t.kind == .comment with
  | false => exact .emit t.text
  | true =>
    refine Takes.written.bind ?_
    cases text : out.getLast?.any Buffer.endsWithText with
    | false => exact .emit (Literal.comment t.text)
    | true => exact (Takes.emit " ").bind (.emit (Literal.comment t.text))

theorem takes_trivia (trivia : t.isTrivia = true) :
    Takes r.unit ⟨before, t :: rest, out, loops⟩ () ⟨t :: before, rest, out.addTrivia t, loops⟩ := by
  refine Takes.cursor.bind ?_
  rcases Token.kind_of_isTrivia trivia with kind | kind | kind <;> simp only [Spot.current_mk, kind] <;> exact takes_emitTrivia

theorem takes_triviaStatement (trivia : t.isTrivia = true) :
    Takes r.anyStatement ⟨before, t :: rest, out, loops⟩ () ⟨t :: before, rest, out.addTrivia t, loops⟩ := by
  refine Takes.cursor.bind ?_
  rcases Token.kind_of_isTrivia trivia with kind | kind | kind <;> simp only [Spot.current_mk, kind] <;> exact takes_emitTrivia

theorem takes_number : Takes r.unit ⟨before, ⟨.number, text⟩ :: rest, out, loops⟩ ()
    ⟨⟨.number, text⟩ :: before, rest, out ++ [text], loops⟩ :=
  Takes.cursor.bind ((Takes.skip_one _).bind (.emit text))

theorem takes_string : Takes r.unit ⟨before, ⟨.string, text⟩ :: rest, out, loops⟩ ()
    ⟨⟨.string, text⟩ :: before, rest, out ++ [Literal.ofString text], loops⟩ :=
  Takes.cursor.bind ((Takes.skip_one _).bind (.emit (Literal.ofString text)))

/-! ### Names -/

theorem arrow?_name (noArrow : (following rest).isOperator ["=>"] = false) :
    (Cursor.mk before (.word text :: rest) 0).arrow? = none := by
  have next : ((Cursor.mk before (.word text :: rest) 0).ahead 1).1 = following rest := rfl
  have found : (Cursor.mk before (.word text :: rest) 0).current.isIdentifier = true := rfl
  simp only [Cursor.arrow?, found, if_true, next, noArrow]
  rfl

/-- A unit that starts with a name is that name, unless an arrow follows. -/
theorem takes_name_of_unit {s' : Spot} (noArrow : (following rest).isOperator ["=>"] = false)
    (taken : Takes r.name ⟨before, .word text :: rest, out, loops⟩ () s') :
    Takes r.unit ⟨before, .word text :: rest, out, loops⟩ () s' := by
  refine Takes.cursor.bind (Takes.cursor.bind ?_)
  simp only [Spot.cursor, arrow?_name noArrow]
  exact taken

theorem takes_constant {lua : String} (found : constant? text = some lua) (noArrow : (following rest).isOperator ["=>"] = false) :
    Takes r.unit ⟨before, .word text :: rest, out, loops⟩ ()
      ⟨.word text :: before, rest, out ++ [lua], loops⟩ := by
  refine takes_name_of_unit noArrow (Takes.cursor.bind ?_)
  simp only [Spot.current_mk, found]
  exact (Takes.skip_one _).bind (.emit lua)

/-- The names that are operators or start a function. -/
def prefixNames : List String := ["typeof", "new", "function"]

theorem member?_eq_none {t : Token} (noPoint : (following rest).isOperator ["."] = false) :
    (Cursor.mk before (t :: rest) 0).member? = none := by
  have next : ((Cursor.mk before (t :: rest) 0).ahead 1).1 = following rest := rfl
  simp only [Cursor.member?, next, noPoint]
  rfl

/-- A name that is neither a constant nor an operator, with no member of a global object behind it. -/
theorem takes_ownName (noConstant : constant? text = none) (plain : text ∉ prefixNames)
    (noArrow : (following rest).isOperator ["=>"] = false)
    (noGlobal : (Cursor.mk before (.word text :: rest) 0).member?.all
      (fun member => (r.global? text member.1).isNone) = true) :
    Takes r.unit ⟨before, .word text :: rest, out, loops⟩ ()
      ⟨.word text :: before, rest, out ++ [plainName text ((following rest).isPunct ["("])], loops⟩ := by
  refine takes_name_of_unit noArrow (Takes.cursor.bind ?_)
  simp only [Spot.current_mk, noConstant]
  have noMember : ((Spot.mk before (.word text :: rest) out loops).cursor.member?.bind fun member =>
      (r.global? text member.1).map (·, member.2)) = none := by
    rw [Spot.cursor]
    generalize (Cursor.mk before (.word text :: rest) 0).member? = found at noGlobal ⊢
    rcases found with _ | ⟨member, offset⟩
    · rfl
    · simpa using noGlobal
  simp only [prefixNames, List.mem_cons, List.not_mem_nil, or_false, not_or] at plain
  split
  · rename_i impossible
    cases impossible
  · exact absurd rfl plain.1
  · exact absurd rfl plain.2.1
  · exact absurd rfl plain.2.2
  · simp only [noMember]
    exact (Takes.skip_one _).bind (.emit _)

/-- A name that is neither a constant nor an operator nor one of the global objects. -/
theorem takes_plainName (noConstant : constant? text = none) (plain : text ∉ prefixNames)
    (noArrow : (following rest).isOperator ["=>"] = false)
    (noGlobal : (∀ member, r.global? text member = none) ∨ (following rest).isOperator ["."] = false) :
    Takes r.unit ⟨before, .word text :: rest, out, loops⟩ ()
      ⟨.word text :: before, rest, out ++ [plainName text ((following rest).isPunct ["("])], loops⟩ := by
  refine takes_ownName noConstant plain noArrow ?_
  rcases noGlobal with noGlobal | noPoint
  · simp [noGlobal]
  · rw [member?_eq_none noPoint, Option.all_none]

/-! ### Operators -/

/-- The operators with a rule of their own. -/
def specialOperators : List String := ["++", "--", ".", "+=", "-="]

theorem arrow?_operator : (Cursor.mk before (.sign text :: rest) 0).arrow? = none := rfl

/-- A binary operator keeps the blanks around it. -/
theorem takes_binary {lua : String} (binary : text ∉ specialOperators)
    (spelled : (if text == "+" then plusSign out.lastWritten (following rest) else luaOperator text) = lua)
    (apart : lua ∈ spacedOperators → before.head?.any Token.isTrivia = true ∧ rest.head?.any Token.isTrivia = true) :
    Takes r.unit ⟨before, .sign text :: rest, out, loops⟩ ()
      ⟨.sign text :: before, rest, out ++ [lua], loops⟩ := by
  refine Takes.cursor.bind (Takes.cursor.bind ?_)
  simp only [Spot.cursor, arrow?_operator]
  refine Takes.cursor.bind ?_
  simp only [specialOperators, List.mem_cons, List.not_mem_nil, or_false, not_or] at binary
  have taken : Takes (binaryOperator text) ⟨before, .sign text :: rest, out, loops⟩ ()
      ⟨.sign text :: before, rest, out ++ [lua], loops⟩ := by
    refine Takes.cursor.bind ((Takes.skip_one _).bind (Takes.written.bind ?_))
    have next : ((Spot.mk before (.sign text :: rest) out loops).cursor.ahead 1).1 = following rest := rfl
    simp only [next, spelled]
    by_cases spaces : lua ∈ spacedOperators
    · obtain ⟨blank, blank'⟩ := apart spaces
      rcases before with _ | ⟨t, before⟩
      · cases blank
      · rcases rest with _ | ⟨t', rest⟩
        · cases blank'
        · have left : (Spot.mk (t :: before) (.sign text :: t' :: rest) out loops).cursor.peek (-1) = t := rfl
          have right : (Spot.mk (t :: before) (.sign text :: t' :: rest) out loops).cursor.peek 1 = t' := rfl
          have trivia : t.isTrivia = true := blank
          have trivia' : t'.isTrivia = true := blank'
          rw [if_pos (by simpa using spaces), left, right, spaced, trivia, trivia']
          simpa using Takes.emit lua
    · rw [if_neg (by simpa using spaces)]
      exact .emit lua
  rw [Spot.current_mk]
  dsimp only
  split
  · exact absurd rfl binary.1
  · exact absurd rfl binary.2.1
  · exact absurd rfl binary.2.2.1
  · exact absurd rfl binary.2.2.2.1
  · exact absurd rfl binary.2.2.2.2
  · exact taken

/-! ### Marks -/

/-- The marks that are written as they are. -/
def plainMarks : List String := ["(", ")", "]", "\x7b", "\x7d", ","]

/-- A unit that starts with a mark is taken by the rule for it, unless the mark opens the parameters of an arrow. -/
theorem takes_mark_of_unit {s' : Spot} (noArrow : (Cursor.mk before (.mark text :: rest) 0).arrow? = none)
    (taken : Takes r.punctuation ⟨before, .mark text :: rest, out, loops⟩ () s') :
    Takes r.unit ⟨before, .mark text :: rest, out, loops⟩ () s' := by
  refine Takes.cursor.bind (Takes.cursor.bind ?_)
  simp only [Spot.cursor, noArrow]
  exact taken

theorem takes_mark (plain : text ∈ plainMarks) (noArrow : (Cursor.mk before (.mark text :: rest) 0).arrow? = none) :
    Takes r.unit ⟨before, .mark text :: rest, out, loops⟩ ()
      ⟨.mark text :: before, rest, out ++ [text], loops⟩ := by
  refine takes_mark_of_unit noArrow (Takes.cursor.bind ?_)
  rw [Spot.current_mk]
  simp only [plainMarks, List.mem_cons, List.not_mem_nil, or_false] at plain
  rcases plain with rfl | rfl | rfl | rfl | rfl | rfl <;> exact (Takes.skip_one _).bind (.emit _)

theorem arrow?_mark (other : text ≠ "(") : (Cursor.mk before (.mark text :: rest) 0).arrow? = none := by
  have opens : (Cursor.mk before (.mark text :: rest) 0).atPunct ["("] = false := by
    simp [Cursor.atPunct, Cursor.current, Token.isPunct, other]
  have name : (Cursor.mk before (.mark text :: rest) 0).current.isIdentifier = false := rfl
  simp [Cursor.arrow?, name, opens]

/-- Brackets that are closed without an arrow behind them are no parameter list. -/
theorem arrow?_open {inside : List Token} (closed : Cursor.groupFrom "(" ")" 0 rest = some inside)
    (noArrow : (following (rest.drop (inside.length + 1))).isOperator ["=>"] = false) :
    (Cursor.mk before (.mark "(" :: rest) 0).arrow? = none := by
  have next : ((Cursor.mk before (.mark "(" :: rest) 0).ahead (inside.length + 2)).1 =
      following (rest.drop (inside.length + 1)) := rfl
  have name : (Cursor.mk before (.mark "(" :: rest) 0).current.isIdentifier = false := rfl
  have opens : (Cursor.mk before (.mark "(" :: rest) 0).atPunct ["("] = true := rfl
  have behind : (Cursor.mk before (.mark "(" :: rest) 0).advance.rest = rest := rfl
  simp [Cursor.arrow?, name, opens, behind, closed, next, noArrow]

end Rules

end NoteScript

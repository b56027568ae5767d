import NoteScript.Proofs.Desugaring
import NoteScript.Proofs.Lines

/-!
# Compound assignments

`x += e` is left in the text as it is, with brackets around `e` where it needs them, until the text is finished and a pass
spells it out. The pass sees no trees: it finds the whole target again only if that is spelled in the characters of a path.

* `Compound`: a compound assignment, with any expression on the left that is no conditional.
* `SpellsPaths.all_lua`: the trees whose translations are spelled in the characters of a path.
* `transpile_compound`: the translation of a compound assignment, and when the target is read back as a whole.
-/

namespace NoteScript

open Edit Buffer Text Token Polish

/-! ### The right side -/

/-- An operand behind a sign: in brackets, unless it holds together by itself. -/
def operandText (atomic : Bool) (value : String) : String := if atomic then value else "(" ++ value ++ ")"

theorem contains_joint {s : String} (pairs : NoDoubleMark s.toList) : contains " .. " s = false := by
  have joint : " .. ".toList = [' ', '.', '.', ' '] := rfl
  rw [contains, joint]
  generalize s.toList = cs at pairs
  induction cs with
  | nil => rfl
  | cons c cs ih =>
    rw [occursIn, ih (List.IsChain.suffix pairs (List.suffix_cons c cs)), Bool.or_false, Bool.eq_false_iff, ne_eq,
      List.isPrefixOf_iff_prefix]
    rintro ⟨rest, split⟩
    rw [← split] at pairs
    have pair : NoDoubleMark ['.', '.'] := List.IsChain.infix pairs ⟨[' '], ' ' :: rest, rfl⟩
    exact absurd pair (by decide)

/-- The last entry of a value is part of it. -/
theorem isTrailing_eq_false {entry : String} (ends : endsSolid entry = true) (pairs : NoDoubleMark entry.toList) :
    Rules.isTrailing entry = false := by
  have dashes : "--".toList = ['-', '-'] := rfl
  rw [Rules.isTrailing, not_isBlank_of_endsSolid ends, Bool.false_or, beginsWith, dashes, stripStart, String.toList_ofList,
    Bool.eq_false_iff, ne_eq, List.isPrefixOf_iff_prefix]
  rintro ⟨rest, split⟩
  have pair : NoDoubleMark ['-', '-'] := by
    refine List.IsChain.infix pairs (List.IsInfix.trans ⟨[], rest, split⟩ ?_)
    exact (List.dropWhile_suffix isSpace).isInfix
  exact absurd pair (by decide)

/-- What is written for a right side that is an expression. -/
theorem compoundText_written (op : String) (e : Expr .expression) :
    Rules.compoundText op false e.written = [op ++ " " ++ operandText (isSimpleOperand e.lua) e.lua] := by
  obtain ⟨last, found, ends⟩ : ∃ last, e.written.getLast? = some last ∧ endsSolid last = true := by
    have ends := e.written_ends rfl
    rwa [Option.any_eq_true] at ends
  obtain ⟨front, split⟩ := List.getLast?_eq_some_iff.mp found
  have pairs : NoDoubleMark last.toList := by
    have whole := e.smooth_lua.pairs
    rw [← e.text_written, split, text_append, text_singleton, String.toList_append] at whole
    exact List.IsChain.right_of_append whole
  have kept : Rules.isTrailing last = false := isTrailing_eq_false ends pairs
  have trailing : e.written.reverse.takeWhile Rules.isTrailing = [] := by simp [split, kept]
  have bare : e.written.reverse.dropWhile Rules.isTrailing = e.written.reverse := by simp [split, kept]
  have nonempty : e.lua.isEmpty = false := by simpa using e.lua_ne_empty rfl
  have unquoted : Literal.isQuoted e.lua = false := by
    rw [Literal.isQuoted]
    split
    · rename_i rest shape
      exact (e.smooth_lua.quotes '"' (by rw [shape]; exact List.mem_cons_self) (by decide)).elim
    · rfl
  simp only [Rules.compoundText, Rules.isAtomic, trailing, bare, List.reverse_reverse, e.text_written, e.strip_lua rfl,
    nonempty, contains_joint e.smooth_lua.pairs, unquoted, operandText, Bool.or_false, Bool.and_false, Bool.false_eq_true,
    if_false, List.reverse_nil]

/-! ### Statements -/

/-- The unit of a compound assignment: the sign, and the right side up to the semicolon. -/
theorem Rules.takes_compound {r : Rules} (change : Change) (e : Expr .expression) {before rest : List Token} {out : Buffer}
    {loops : LoopState} (value : Walk r Rules.endsOperand 0
      ⟨.blank :: .sign change.operator :: before, e.tokens ++ Token.mark ";" :: rest, [], loops⟩ 0
      ⟨e.tokens.reverse ++ Token.blank :: .sign change.operator :: before, .mark ";" :: rest, e.written, loops⟩) :
    Takes r.unit ⟨before, .sign change.operator :: .blank :: (e.tokens ++ Token.mark ";" :: rest), out, loops⟩ ()
      ⟨e.tokens.reverse ++ Token.blank :: .sign change.operator :: before, .mark ";" :: rest,
        out ++ [change.operator ++ " " ++ operandText (isSimpleOperand e.lua) e.lua], loops⟩ := by
  have captured : Takes r.rightSide _ () _ := value.takes_units (.inr rfl)
  have assignment : Takes (r.compoundAssignment change.operator)
      ⟨.sign change.operator :: before, .blank :: (e.tokens ++ Token.mark ";" :: rest), out, loops⟩ ()
      ⟨e.tokens.reverse ++ Token.blank :: .sign change.operator :: before, .mark ";" :: rest,
        out ++ Rules.compoundText change.operator false e.written, loops⟩ := by
    obtain ⟨t, ts, shape, begins⟩ := e.head_tokens rfl
    have first : t.isTrivia = false ∧ t.isStringLike = false := by cases begins <;> exact ⟨rfl, rfl⟩
    have next : following (.blank :: (e.tokens ++ Token.mark ";" :: rest)) = t := by
      rw [following_trivia _ rfl, shape]
      exact following_cons _ first.1
    refine Takes.cursor.bind ((Takes.skipTrivia [.blank] (by simp [shape, first.1]) rfl).bind ?_)
    refine (Takes.capture captured).bind ?_
    have joins : (following (.blank :: (e.tokens ++ Token.mark ";" :: rest))).isStringLike = false := by rw [next, first.2]
    rw [← joins]
    exact .rework _
  rw [compoundText_written] at assignment
  refine Takes.cursor.bind (Takes.cursor.bind ?_)
  simp only [Spot.cursor, arrow?_operator]
  refine Takes.cursor.bind ?_
  cases change with
  | add | subtract => exact (Takes.skip_one _).bind assignment

/-- `l += r;` or `l -= r;` -/
structure Compound where
  left : Expr .simple
  change : Change
  right : Expr .expression

namespace Compound

def tokens (a : Compound) : List Token :=
  a.left.tokens ++ .blank :: .sign a.change.operator :: .blank :: (a.right.tokens ++ [.mark ";"])

/-- The text of a compound assignment with its semicolon. -/
def line (a : Compound) : String := sourceText a.tokens

/-- What is written for the operator and the right side. -/
def entry (a : Compound) : String := a.change.operator ++ " " ++ operandText (isSimpleOperand a.right.lua) a.right.lua

theorem legible (a : Compound) : AlwaysLegible a.tokens := by
  have readable : Readable true (.sign a.change.operator) = true := by cases a.change <;> decide
  have value : AlwaysLegible (.blank :: (a.right.tokens ++ [Token.mark ";"])) :=
    a.right.legible_blank rfl _ (a.right.legible.before_mark alwaysLegible_nil ";" rfl)
  apply a.left.legible_before_blank rfl a.left.legible
  refine ⟨rfl, ?_, readable, ?_, value _⟩
  · rintro u ⟨⟩
    rfl
  · rintro u ⟨⟩
    rfl

theorem grouped_tokens (a : Compound) : Grouped false a.tokens := by
  have value : Grouped false (a.right.tokens ++ [Token.mark ";"]) := a.right.grouped_tokens.append (.plain rfl .nil)
  exact a.left.grouped_tokens.append (.plain rfl (.plain rfl (.plain rfl value)))

theorem statements (a : Compound) {d : Nat} (enough : a.left.depth ≤ d + 1) (enough' : a.right.depth ≤ d) (loops : LoopState) :
    ∃ before, Statements (Rules.within (d + 2)) ⟨[], a.tokens ++ [Token.eof], [], loops⟩
      ⟨before, [Token.eof], a.left.written ++ [" "] ++ [a.entry], loops⟩ := by
  have right : Grouped false (.sign a.change.operator :: .blank :: a.right.tokens) :=
    .plain rfl (.plain rfl a.right.grouped_tokens)
  have sign : Reads 0 (a.right.depth + 1) (.sign a.change.operator :: .blank :: a.right.tokens) (ending true ++ [Token.eof])
      (a.left.written ++ [" "]) (a.left.written ++ [" "] ++ [a.entry]) := by
    refine .unit (fun d before loops deeper => ?_) rfl right.bracketDepth_eq
    have value := ExpressionRuns.reads a.right.runs (.nil true) (.nil false) (by decide : Terminal (.mark ";")) [.eof]
    have taken : Takes (Rules.within d).unit ⟨before, .sign a.change.operator :: .blank :: (a.right.tokens ++ Token.mark ";" :: [.eof]),
        a.left.written ++ [" "], loops⟩ () _ :=
      Rules.takes_compound a.change a.right (value.walk deeper (calm_of_mem (by simp)))
    simpa [ending, entry] using taken
  have target : Reads 0 a.left.depth a.left.tokens
      ([.blank] ++ (.sign a.change.operator :: .blank :: a.right.tokens) ++ (ending true ++ [Token.eof])) [] ([] ++ a.left.written) :=
    a.left.runs _ [] (.nil true) (by cases a.change <;> rfl) (.inr rfl)
  have whole := (target.mono enough).append ((Reads.blank.mono (by omega)).append (sign.mono (by omega)))
  have taken := whole.takes_ending (Nat.le_refl _) (.inl rfl) false [] loops
  obtain ⟨t, ts, shape, begins⟩ := a.left.head_tokens rfl
  have first : t.isEof = false ∧ t.isPunct ["\x7d"] = false := by cases begins <;> exact ⟨rfl, rfl⟩
  have tokens : a.tokens ++ [Token.eof] = t :: (ts ++ [.blank] ++ (.sign a.change.operator :: .blank :: a.right.tokens) ++
      (ending true ++ [Token.eof])) := by simp [Compound.tokens, shape, ending]
  rw [tokens]
  simp only [shape, List.cons_append, List.append_assoc] at taken ⊢
  exact ⟨_, .step a.tokens first.1 first.2 (begins.takes_anyStatement taken) (by simp [Compound.tokens, shape, ending])
    (by simp [Compound.tokens, shape, ending]) (by simp [Compound.tokens]) .done⟩

end Compound

/-! ### Paths -/

/-- Is a tree a number, or a name with members behind it and, if they are allowed, with indices that are such trees? The
names consist of certain characters. -/
def Expr.isPath (indices : Bool) (inName : Char → Bool) {cat : Category} : Expr cat → Bool
  | plain e => e.isPath indices inName
  | operand p => p.isPath indices inName
  | number _ => true
  | name x => x.text.toList.all inName
  | field p f => p.isPath indices inName && f.text.toList.all inName
  | index p e => indices && (p.isPath indices inName && e.isPath indices inName)
  | _ => false

/-- The characters that paths are spelled in. -/
structure SpellsPaths (p : Char → Bool) (indices : Bool) (inName : Char → Bool) : Prop where
  digit : ∀ c, c.isDigit = true → inName c = true
  name : ∀ c, continuesName c = true → p c = inName c
  point : p '.' = true
  brackets : p '[' = indices ∧ p ']' = indices
  others : ∀ c ∈ ['(', ' ', '#'], p c = false

namespace SpellsPaths

variable {p : Char → Bool} {indices : Bool} {inName : Char → Bool}

theorem all_word (h : SpellsPaths p indices inName) {s : String} (word : IsWord s) : s.toList.all p = s.toList.all inName := by
  rw [Bool.eq_iff_iff, List.all_eq_true, List.all_eq_true]
  exact forall₂_congr fun c hc => by rw [h.name c (word.2 c hc)]

/-- The trees whose translations are spelled in such characters are the paths. -/
theorem all_lua (h : SpellsPaths p indices inName) {cat : Category} (e : Expr cat) (body : cat.isBody = true) :
    e.lua.toList.all p = e.isPath indices inName := by
  have other : ∀ {s : String} {c : Char}, c ∈ ['(', ' ', '#'] → c ∈ s.toList → s.toList.all p = false :=
    fun known mem => List.all_eq_false.mpr ⟨_, mem, by simp [h.others _ known]⟩
  induction e with
  | plain e ih | operand p ih => exact ih rfl
  | number n => exact (h.all_word n.isWord).trans (List.all_eq_true.mpr fun c hc => h.digit c (n.digits c hc))
  | name x => exact h.all_word x.isWord
  | field q f ih =>
    have point : ".".toList.all p = true := by simp [h.point]
    simp only [Expr.lua, Expr.isPath, String.toList_append, List.all_append, ih rfl, point, h.all_word f.isWord, Bool.and_true]
  | index q e ih ih' =>
    have brackets : "[".toList.all p = indices ∧ "]".toList.all p = indices := by simp [h.brackets]
    simp only [Expr.lua, Expr.isPath, String.toList_append, List.all_append, ih rfl, ih' rfl, brackets]
    cases indices <;> simp
  | choice test yes no =>
    change (Expr.choiceText test.lua yes.lua no.lua).toList.all p = false
    delta Expr.choiceText
    exact other (c := '(') (by decide) (by simp)
  | length q =>
    change (Expr.lengthText q.lua).toList.all p = false
    unfold Expr.lengthText
    split
    · exact other (c := '#') (by decide) (by simp)
    · exact other (c := '#') (by decide) (by simp)
  | negation e | binary sign left right => exact other (c := ' ') (by decide) (by simp [Expr.lua])
  | parens | call | link | toText => exact other (c := '(') (by decide) (by simp [Expr.lua])
  | unaryCall q m e =>
    change (m.lua q.lua e.lua).toList.all p = false
    rw [m.lua_eq]
    exact other (c := '(') (by decide) (by simp)
  | _ => cases body

/-- No mark that paths are spelled with is part of a name. -/
theorem beq_mark {c : Char} (inside : continuesName c = true) {mark : Char} (known : mark ∈ ['.', ':', '[', ']', '"', '\'']) :
    (c == mark) = false := by
  have marks : ∀ mark ∈ ['.', ':', '[', ']', '"', '\''], continuesName mark = false := by decide
  exact beq_eq_false_iff_ne.mpr (ne_of_continuesName inside mark (marks mark known))

theorem target : SpellsPaths isTargetChar true isWord := by
  constructor
  · exact fun c => isWord_of_isDigit
  · intro c inside
    simp [isTargetChar, beq_mark inside]
  all_goals decide

theorem simpleOperand : SpellsPaths (fun c => isWord c || c == '.' || c == ':') false isWord := by
  constructor
  · exact fun c => isWord_of_isDigit
  · intro c inside
    simp [beq_mark inside]
  all_goals decide

theorem anyName : SpellsPaths (fun c => continuesName c || c == '.') false fun _ => true := by
  constructor
  · exact fun _ _ => rfl
  · intro c inside
    rw [inside, Bool.true_or]
  all_goals decide

end SpellsPaths

/-! ### Whole scripts -/

theorem Expr.isLine_lua {cat : Category} (e : Expr cat) (present : cat.isPresent = true) : IsLine e.lua :=
  ⟨e.smooth_lua, e.paired_lua.line, e.lua_starts present, e.lua_ends present⟩

theorem isLine_operandText (atomic : Bool) (e : Expr .expression) : IsLine (operandText atomic e.lua) := by
  cases atomic with
  | true => exact e.isLine_lua rfl
  | false => exact (Expr.parens e).isLine_lua rfl

/-- Brackets around an operand change nothing inside. -/
theorem indices_operandText (atomic : Bool) (e : Expr .expression) :
    Pass.indices.run (operandText atomic e.lua) = operandText atomic (polish e.lua) := by
  cases atomic with
  | true => exact (e.isLine_lua rfl).polish_eq.symm
  | false =>
    have inner : Shifts (some '(') e.lua.toList (polish e.lua).toList := (e.isLine_lua rfl).shifts_polish.of_none (by decide)
    have opened : Shifts none ('(' :: e.lua.toList) ('(' :: (polish e.lua).toList) := .char (by rintro ⟨⟩) inner
    have closed : Shifts none ('(' :: e.lua.toList ++ [')']) ('(' :: (polish e.lua).toList ++ [')']) :=
      opened.append (.refl (by decide)) (by decide)
    have whole := (Settles.whole (isLine_operandText false e)).shifts
    have chars : (operandText false e.lua).toList = '(' :: e.lua.toList ++ [')'] := by simp [operandText]
    rw [chars] at whole
    rw [← String.toList_inj, whole.eq closed]
    simp [operandText]

theorem Expr.isSimpleOperand_lua (e : Expr .expression) : isSimpleOperand e.lua = e.isPath false isWord := by
  have nonempty : e.lua.isEmpty = false := by simpa using e.lua_ne_empty rfl
  rw [isSimpleOperand, nonempty, Bool.not_false, Bool.true_and]
  exact SpellsPaths.simpleOperand.all_lua e rfl

theorem Expr.isPath_any {indices : Bool} {inName : Char → Bool} {cat : Category} (e : Expr cat)
    (h : e.isPath indices inName = true) : e.isPath indices (fun _ => true) = true := by
  induction e with
  | plain e ih | operand p ih => exact ih h
  | number => rfl
  | name x => simp [isPath]
  | field p f ih =>
    rw [isPath, Bool.and_eq_true] at h
    simp [isPath, ih h.1]
  | index p e ih ih' =>
    rw [isPath, Bool.and_eq_true, Bool.and_eq_true] at h
    rw [isPath, ih h.2.1, ih' h.2.2, h.1]
    rfl
  | _ => cases h

/-- A path has no layout. -/
theorem Expr.isTrivia_of_isPath {indices : Bool} {inName : Char → Bool} {cat : Category} (e : Expr cat)
    (h : e.isPath indices inName = true) : ∀ t ∈ e.tokens, t.isTrivia = false := by
  induction e with
  | plain e ih | operand p ih => exact ih h
  | number | name =>
    rintro t (_ | ⟨_, ⟨⟩⟩)
    rfl
  | field p f ih =>
    rw [isPath, Bool.and_eq_true] at h
    simp only [tokens, List.forall_mem_append, List.forall_mem_cons]
    exact ⟨ih h.1, rfl, rfl, List.forall_mem_nil _⟩
  | index p e ih ih' =>
    rw [isPath, Bool.and_eq_true, Bool.and_eq_true] at h
    simp only [tokens, List.forall_mem_append, List.forall_mem_cons]
    exact ⟨⟨ih h.2.1, rfl, ih' h.2.2⟩, rfl, List.forall_mem_nil _⟩
  | _ => cases h

/-- Nothing but the target itself is repeated as the target. -/
theorem Change.eq_of_lua_eq (change : Change) {target read value : String}
    (same : target ++ change.lua read ++ value = target ++ " = " ++ target ++ " " ++ change.sign ++ " " ++ value) :
    read = target := by
  have parts : target ++ " = " ++ target ++ " " ++ change.sign ++ " " =
      target ++ (" = " ++ target ++ " " ++ change.sign ++ " ") := by simp only [String.append_assoc]
  rw [parts, String.append_left_inj, String.append_right_inj, Change.lua] at same
  by_cases nothing : read = ""
  · rw [if_pos nothing] at same
    have sign : change.char = '=' := by
      have second := congrArg (·.toList.tail.head?) same
      simpa [change.toList_operator] using second
    exact absurd (sign ▸ change.char_mem) (by decide)
  · rw [if_neg nothing] at same
    simpa only [String.append_left_inj, String.append_right_inj] using same

/-- A text shows by its end whether an operand has brackets. -/
theorem Expr.isPath_eq_of_operandText (e : Expr .expression) {front front' : String}
    (same : front ++ operandText (e.isPath false isWord) (polish e.lua) =
      front' ++ operandText (e.isPath false fun _ => true) (polish e.lua)) :
    e.isPath false isWord = e.isPath false fun _ => true := by
  cases word : e.isPath false isWord with
  | true => exact (e.isPath_any word).symm
  | false =>
    symm
    rw [Bool.eq_false_iff]
    intro path
    rw [word, path] at same
    obtain ⟨last, found⟩ : ∃ last, e.lua.toList.getLast? = some last :=
      Option.isSome_iff_exists.mp (List.getLast?_isSome.mpr (mt String.toList_eq_nil_iff.mp (e.lua_ne_empty rfl)))
    have ends := (e.isLine_lua rfl).shifts_polish.getLast?.trans found
    generalize polish e.lua = value at same ends
    obtain rfl : ')' = last := by simpa [operandText, List.getLast?_cons, ends] using congrArg (·.toList.getLast?) same
    have inside := (SpellsPaths.anyName.all_lua e rfl).trans path
    rw [List.all_eq_true] at inside
    exact absurd (inside ')' (List.mem_of_getLast? found)) (by decide)

theorem reachText_eq_iff (l : Expr .simple) : reachText l.lua = l.lua ↔ l.isPath true isWord = true := by
  rw [← SpellsPaths.target.all_lua l rfl, ← reach_eq_iff, reachText, ← String.toList_inj, String.toList_ofList]

namespace Compound

/-- The translation of a compound assignment. -/
def lua (a : Compound) : String := polish a.left.lua ++ a.change.lua (Pass.indices.run (reachText a.left.lua)) ++
    operandText (a.right.isPath false isWord) (polish a.right.lua)

theorem transpile_line (a : Compound) : transpile a.line = ⟨.ok a.lua, []⟩ := by
  have size := length_le_textSize (a.legible false)
  have enough : a.left.depth ≤ 2 * textSize (a.tokens ++ [Token.eof]) + 1 ∧
      a.right.depth ≤ 2 * textSize (a.tokens ++ [Token.eof]) := by
    have depth := a.left.depth_le
    have depth' := a.right.depth_le
    rw [textSize_append]
    simp only [tokens, List.length_append, List.length_cons] at size ⊢
    omega
  obtain ⟨before, run⟩ := a.statements enough.1 enough.2 ⟨0, []⟩
  have whole := run.transpile_eq (.of_legible a.legible) (by simp [tokens]) a.grouped_tokens
  have written : Buffer.text (a.left.written ++ [" "] ++ [a.entry]) = a.left.lua ++ " " ++ a.entry := by
    rw [text_append, text_append, text_singleton, text_singleton, a.left.text_written]
  rwa [written, entry, polish_compound a.change (a.left.isLine_lua rfl) (isLine_operandText _ a.right), indices_operandText,
    a.right.isSimpleOperand_lua, ← (a.left.isLine_lua rfl).polish_eq] at whole

/-- The whole left side is repeated, and the right side has brackets unless it is a name, a number or a path. -/
def desugared (a : Compound) : String := polish a.left.lua ++ " = " ++ polish a.left.lua ++ " " ++ a.change.sign ++ " " ++
    operandText (a.right.isPath false fun _ => true) (polish a.right.lua)

theorem lua_eq_iff (a : Compound) : a.lua = a.desugared ↔ a.left.isPath true isWord = true ∧
    (a.right.isPath false (fun _ => true) = true → a.right.isPath false isWord = true) := by
  constructor
  · intro same
    have bracket : isTargetChar '[' = true ∧ isTargetChar ']' = true := by decide
    have digit : ∀ d, isDecimal d = true ∨ d.isDigit = true → isTargetChar d = true := by
      rintro d (decimal | digit)
      · simp [isTargetChar, isWord_of_isDecimal decimal]
      · simp [isTargetChar, isWord_of_isDigit digit]
    have atomic := a.right.isPath_eq_of_operandText same
    refine ⟨?_, fun any => atomic.trans any⟩
    rw [lua, desugared, atomic] at same
    have whole := a.change.eq_of_lua_eq same
    have read := (Settles.suffix (a.left.isLine_lua rfl) (reach_suffix a.left.lua.toList)).shifts.all_eq bracket digit
    have kept := (a.left.isLine_lua rfl).shifts_polish.all_eq bracket digit
    rw [all_reach] at read
    rw [← SpellsPaths.target.all_lua a.left rfl, ← kept, ← whole]
    exact read
  · rintro ⟨path, atomic⟩
    have same : a.right.isPath false isWord = a.right.isPath false fun _ => true :=
      Bool.eq_iff_iff.mpr ⟨a.right.isPath_any, atomic⟩
    have nonempty : polish a.left.lua ≠ "" := by
      intro empty
      have head := (a.left.isLine_lua rfl).shifts_polish.head?
      rw [empty, String.toList_empty, List.head?_nil, eq_comm, List.head?_eq_none_iff, String.toList_eq_nil_iff] at head
      exact a.left.lua_ne_empty rfl head
    rw [lua, desugared, same, (reachText_eq_iff a.left).mpr path, ← (a.left.isLine_lua rfl).polish_eq, Change.lua,
      if_neg nonempty]
    simp only [String.append_assoc]

end Compound

/-- The translation of a compound assignment beside those of its two sides. It repeats the whole left side, and has the right
side in brackets unless that is a name, a number or a path, exactly if the left side is itself a number or a path whose
indices are such, and no name in it, or in a right side that is a path, has a dollar sign. Such a left side has no layout. -/
theorem transpile_compound (a : Compound) :
    transpile (Sentence.line ⟨.alone, .plain a.left⟩) = ⟨.ok (polish a.left.lua), []⟩ ∧
      transpile (Sentence.line ⟨.alone, a.right⟩) = ⟨.ok (polish a.right.lua), []⟩ ∧
      transpile a.line = ⟨.ok a.lua, []⟩ ∧
      (a.lua = a.desugared ↔ a.left.isPath true isWord = true ∧
        (a.right.isPath false (fun _ => true) = true → a.right.isPath false isWord = true)) ∧
      (a.left.isPath true isWord = true → ∀ t ∈ a.left.tokens, t.isTrivia = false) := by
  have alone : ∀ e : Expr .expression, transpile (Sentence.line ⟨.alone, e⟩) = ⟨.ok (polish e.lua), []⟩ := by
    intro e
    have whole := transpile_ofLines ⟨.alone, e⟩ []
    simpa [Sentence.lua, Lead.lua] using whole
  exact ⟨alone (.plain a.left), alone a.right, a.transpile_line, a.lua_eq_iff, a.left.isTrivia_of_isPath⟩

/-- An index with blanks is not read back as a whole. -/
theorem transpile_spaced_index : (transpile "a[i + 1] += 2;").outcome = .ok "a[i + 1] = 1] + 2" := by
  decide +kernel

end NoteScript

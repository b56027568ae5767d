import NoteScript.Proofs.Expression
import NoteScript.Proofs.Hindsight
import NoteScript.Proofs.Places
import NoteScript.Proofs.Termination
import NoteScript.Proofs.Units

/-!
# The two forms of a function

A function without a name is written with an arrow behind its parameters or with a keyword in front of them. The
parameters are found in two ways, by looking ahead and by taking a group, and then the same block is taken. What has
been passed until then differs, but no rule looks behind the brace of the block.

* `FunctionParts`: the parts that both forms are made of, `arrow` and `keyword`: the two token lists.
* `unit_arrow`, `unit_keyword`: either form is a function literal in front of the block.
* `alike_unit`, `alike_unitsUpTo`, `alike_statementsUpTo`: a unit, a row of units and the statements of a value.
* `function_forms_alike`: with all the depth that the two texts ask for.
-/

namespace NoteScript

open Edit Token Pasts

/-! ### The parts of a function -/

/-- Tokens whose round brackets are balanced. -/
inductive Token.Parenthesized : List Token → Prop where
  | nil : Parenthesized []
  | atom {t : Token} : t.isPunct ["(", ")"] = false → Parenthesized [t]
  | append {ts us : List Token} : Parenthesized ts → Parenthesized us → Parenthesized (ts ++ us)
  | group {ts : List Token} : Parenthesized ts → Parenthesized (.mark "(" :: ts ++ [.mark ")"])

theorem Token.Parenthesized.closed {ts : List Token} (h : Parenthesized ts) (proper : ∀ t ∈ ts, t.isProper = true) :
    Cursor.Closed "(" ")" ts := by
  induction h with
  | nil => exact .flat (by simp)
  | @atom t other =>
    apply Cursor.Closed.flat
    intro u mem
    obtain rfl : u = t := by simpa using mem
    exact ⟨isEof_of_isProper (proper u mem), other⟩
  | append _ _ first second =>
    rw [List.forall_mem_append] at proper
    exact (first proper.1).append (second proper.2)
  | group _ inside => exact (inside fun t mem => proper t (by simp [mem])).group rfl rfl rfl

/-- The parts of a function without a name, with the trivia between them. -/
structure FunctionParts where
  /-- The tokens between the round brackets. -/
  params : List Token
  /-- What follows the brace that opens the body, up to the end of the token list. -/
  body : List Token
  beforeArrow : List Token
  afterArrow : List Token
  afterKeyword : List Token
  afterParams : List Token
  balanced : Parenthesized params
  complete : isComplete body = true
  proper : ∀ t ∈ params ++ beforeArrow ++ afterArrow ++ afterKeyword ++ afterParams, t.isProper = true
  trivia : ∀ t ∈ beforeArrow ++ afterArrow ++ afterKeyword ++ afterParams, t.isTrivia = true
  sameFeeds : feeds (beforeArrow ++ afterArrow) = feeds (afterKeyword ++ afterParams)

namespace FunctionParts

variable (f : FunctionParts)

/-- The parameters in their brackets. -/
def paramTokens : List Token := .mark "(" :: (f.params ++ [.mark ")"])

/-- The parameters and the arrow. -/
def arrowSign : List Token := f.paramTokens ++ f.beforeArrow ++ [.sign "=>"]

/-- The form with an arrow, up to its body. -/
def arrowHead : List Token := f.arrowSign ++ f.afterArrow

/-- The form with the keyword, up to its body. -/
def keywordHead : List Token := .word "function" :: f.afterKeyword ++ f.paramTokens ++ f.afterParams

/-- The block with all that follows it. -/
def block : List Token := .mark "\x7b" :: f.body

/-- The form with an arrow and all that follows it. -/
def arrow : List Token := f.arrowHead ++ f.block

/-- The form with the keyword and all that follows it. -/
def keyword : List Token := f.keywordHead ++ f.block

theorem closed : Cursor.Closed "(" ")" f.params := by
  apply f.balanced.closed
  intro t mem
  exact f.proper t (by simp [mem])

theorem feeds_heads : feeds f.arrowHead = feeds f.keywordHead := by
  have same := f.sameFeeds
  have arrow : (Token.sign "=>").lineFeeds = 0 := rfl
  have word : (Token.word "function").lineFeeds = 0 := rfl
  simp only [arrowHead, arrowSign, keywordHead, feeds_append, feeds_cons, feeds_nil] at same ⊢
  omega

theorem bracketDepth_heads : bracketDepth f.arrowHead = bracketDepth f.keywordHead := by
  have sign : bracketDepth [.sign "=>"] = 0 := rfl
  have word (ts : List Token) : bracketDepth (.word "function" :: ts) = bracketDepth ts := Int.zero_add _
  have trivia := f.trivia
  simp only [List.forall_mem_append] at trivia
  obtain ⟨⟨⟨beforeArrow, afterArrow⟩, afterKeyword⟩, afterParams⟩ := trivia
  simp only [arrowHead, arrowSign, keywordHead, List.cons_append, bracketDepth_append, sign, word,
    bracketDepth_trivia beforeArrow, bracketDepth_trivia afterArrow, bracketDepth_trivia afterKeyword,
    bracketDepth_trivia afterParams]
  omega

/-- Tokens of a script in front of the block are followed by the closing token. -/
theorem sound_of_proper {head : List Token} (proper : ∀ t ∈ head, t.isProper = true) (before : List Token) :
    (Cursor.mk before (head ++ f.block) 0).Sound := by
  obtain ⟨body, shape, inside⟩ := isComplete_iff.mp f.complete
  refine ⟨head ++ Token.mark "\x7b" :: body, by simp [block, shape], ?_, rfl⟩
  rw [List.forall_mem_append, List.forall_mem_cons]
  exact ⟨proper, rfl, inside⟩

theorem sound_arrow (before : List Token) : (Cursor.mk before f.arrow 0).Sound := by
  apply f.sound_of_proper
  have proper := f.proper
  simp only [arrowHead, arrowSign, paramTokens, List.forall_mem_append, List.forall_mem_cons] at proper ⊢
  exact ⟨⟨⟨⟨rfl, proper.1.1.1.1, rfl, by simp⟩, proper.1.1.1.2⟩, rfl, by simp⟩, proper.1.1.2⟩

theorem sound_keyword (before : List Token) : (Cursor.mk before f.keyword 0).Sound := by
  apply f.sound_of_proper
  have proper := f.proper
  simp only [keywordHead, paramTokens, List.forall_mem_append, List.forall_mem_cons] at proper ⊢
  exact ⟨⟨⟨rfl, proper.1.2⟩, rfl, proper.1.1.1.1, rfl, by simp⟩, proper.2⟩

/-- The tokens in front of the body, passed behind others. -/
def pasts (before : List Token) : Pasts where
  first := f.arrowHead.reverse ++ before
  second := f.keywordHead.reverse ++ before
  sameLine := by
    rw [Cursor.lineAfter_eq, Cursor.lineAfter_eq, feeds_append, feeds_append, feeds_reverse, feeds_reverse, f.feeds_heads]

end FunctionParts

/-- The desk with the cursor in front of some tokens, behind others. -/
def Desk.facing (d : Desk) (before tokens : List Token) : Desk := { d with cursor := ⟨before, tokens, 0⟩ }

namespace Edit

theorem move_apply (m : Cursor → Cursor) (d : Desk) : move m d = (.ok (), { d with cursor := m d.cursor }) := rfl

theorem cursor_bind_facing {α : Type} (g : Cursor → Edit α) (d : Desk) (before tokens : List Token) :
    (cursor >>= g) (d.facing before tokens) = g ⟨before, tokens, 0⟩ (d.facing before tokens) := rfl

theorem skip_facing (d : Desk) (before passed rest : List Token) :
    skip passed.length (d.facing before (passed ++ rest)) = (.ok (), d.facing (passed.reverse ++ before) rest) := by
  rw [skip, move_apply]
  simp only [Desk.facing, Cursor.advanceBy_append]

theorem skipTrivia_facing (d : Desk) (before : List Token) {passed rest : List Token}
    (trivia : ∀ t ∈ passed, t.isTrivia = true) (ends : rest.head?.all (!·.isTrivia) = true) :
    skipTrivia (d.facing before (passed ++ rest)) = (.ok (), d.facing (passed.reverse ++ before) rest) := by
  rw [skipTrivia, move_apply]
  simp only [Desk.facing, Cursor.skipTrivia, Cursor.run, Cursor.takeWhile_exact trivia ends, Cursor.advanceBy_append]

end Edit

namespace FunctionParts

variable (f : FunctionParts) (r : Rules) (d : Desk) (before : List Token)

/-- The parameters are what stands in the group behind the first bracket. -/
theorem groupFrom_params (rest : List Token) :
    Cursor.groupFrom "(" ")" 0 (Cursor.mk before (f.paramTokens ++ rest) 0).advance.rest = some f.params := by
  have behind : (Cursor.mk before (f.paramTokens ++ rest) 0).advance.rest = f.params ++ Token.mark ")" :: rest := by
    simp [paramTokens, Cursor.advance]
  rw [behind]
  exact f.closed.groupFrom_eq rfl rfl rest

theorem length_paramTokens : f.paramTokens.length = f.params.length + 2 := by simp [paramTokens]

theorem arguments_facing (rest : List Token) :
    arguments (d.facing before (f.paramTokens ++ rest)) = (.ok f.params, d.facing (f.paramTokens.reverse ++ before) rest) := by
  have opens : (Cursor.mk before (f.paramTokens ++ rest) 0).atPunct ["("] = true := rfl
  simp only [arguments, group, Desk.facing, Cursor.group, if_pos opens, f.groupFrom_params, ← f.length_paramTokens,
    Cursor.advanceBy_append]

theorem arrow?_facing (rest : List Token) :
    (Cursor.mk before (f.arrowSign ++ rest) 0).arrow? = some ⟨Cursor.paramList f.params, f.arrowSign.length⟩ := by
  have tokens : f.arrowSign ++ rest = f.paramTokens ++ (f.beforeArrow ++ Token.sign "=>" :: rest) := by simp [arrowSign]
  have trivia : ∀ t ∈ f.beforeArrow, t.isTrivia = true := fun t mem => f.trivia t (by simp [mem])
  have size : f.arrowSign.length = f.paramTokens.length + f.beforeArrow.length + 1 := by
    simp [arrowSign, Nat.add_assoc]
  have ahead : (Cursor.mk before (f.paramTokens ++ (f.beforeArrow ++ Token.sign "=>" :: rest)) 0).ahead (f.params.length + 2) =
      (.sign "=>", f.paramTokens.length + f.beforeArrow.length) := by
    rw [Cursor.ahead, ← f.length_paramTokens]
    simp [List.dropWhile_append_of_pos trivia, Cursor.takeWhile_exact trivia, isTrivia]
  have name : (Cursor.mk before (f.paramTokens ++ (f.beforeArrow ++ Token.sign "=>" :: rest)) 0).current.isIdentifier = false := rfl
  have opens : (Cursor.mk before (f.paramTokens ++ (f.beforeArrow ++ Token.sign "=>" :: rest)) 0).atPunct ["("] = true := rfl
  have sign : (Token.sign "=>").isOperator ["=>"] = true := rfl
  rw [tokens, size]
  simp only [Cursor.arrow?, name, opens, f.groupFrom_params, ahead, sign, Bool.false_eq_true, if_false, if_true]

/-- With an arrow, the parameters are found by looking ahead. -/
theorem unit_arrow : r.unit (d.facing before f.arrow) =
    r.functionLiteral "function" (Cursor.paramList f.params) (d.facing (f.arrowHead.reverse ++ before) f.block) := by
  have tokens : f.arrow = f.arrowSign ++ (f.afterArrow ++ f.block) := by simp [arrow, arrowHead]
  have past : f.afterArrow.reverse ++ (f.arrowSign.reverse ++ before) = f.arrowHead.reverse ++ before := by simp [arrowHead]
  have trivia : ∀ t ∈ f.afterArrow, t.isTrivia = true := fun t mem => f.trivia t (by simp [mem])
  have unit : r.unit (d.facing before f.arrow) = r.compoundUnit (d.facing before f.arrow) := rfl
  have opens : (Cursor.mk (f.arrowHead.reverse ++ before) f.block 0).atPunct ["\x7b"] = true := rfl
  rw [unit, tokens, Rules.compoundUnit, cursor_bind_facing, f.arrow?_facing]
  dsimp only
  rw [Rules.arrowFunction, bind_ok (skip_facing d before f.arrowSign _), bind_ok (skipTrivia_facing d _ trivia rfl),
    cursor_bind_facing, past, if_pos opens]

theorem ahead_keyword : ((Cursor.mk before f.keyword 0).ahead 1).1 = .mark "(" := by
  have trivia : ∀ t ∈ f.afterKeyword, t.isTrivia = true := fun t mem => f.trivia t (by simp [mem])
  simp [keyword, keywordHead, Cursor.ahead, List.dropWhile_append_of_pos trivia, paramTokens, isTrivia]

/-- With the keyword, the parameters are taken as a group. -/
theorem unit_keyword : r.unit (d.facing before f.keyword) =
    r.functionLiteral "function" (Cursor.paramList f.params) (d.facing (f.keywordHead.reverse ++ before) f.block) := by
  have tokens : f.keyword = [Token.word "function"] ++ (f.afterKeyword ++ (f.paramTokens ++ (f.afterParams ++ f.block))) := by
    simp [keyword, keywordHead]
  have past : f.afterParams.reverse ++ (f.paramTokens.reverse ++ (f.afterKeyword.reverse ++ (Token.word "function" :: before))) =
      f.keywordHead.reverse ++ before := by simp [keywordHead]
  have gap : ∀ t ∈ f.afterKeyword, t.isTrivia = true := fun t mem => f.trivia t (by simp [mem])
  have gap' : ∀ t ∈ f.afterParams, t.isTrivia = true := fun t mem => f.trivia t (by simp [mem])
  have noArrow : (Cursor.mk before f.keyword 0).arrow? = none := by
    have name : (Cursor.mk before f.keyword 0).current.isIdentifier = true := rfl
    have other : (Token.mark "(").isOperator ["=>"] = false := rfl
    simp only [Cursor.arrow?, name, f.ahead_keyword, other, Bool.false_eq_true, if_false, if_true]
  have unit : r.unit (d.facing before f.keyword) = r.compoundUnit (d.facing before f.keyword) := rfl
  have name : r.name (d.facing before f.keyword) = r.functionExpression (d.facing before f.keyword) := rfl
  have word (rest : List Token) : skip 1 (d.facing before ([Token.word "function"] ++ rest)) =
      (.ok (), d.facing (.word "function" :: before) rest) := skip_facing d before [.word "function"] rest
  have parameters (rest past : List Token) : Rules.parameters (d.facing past (f.paramTokens ++ rest)) =
      (.ok (Cursor.paramList f.params), d.facing (f.paramTokens.reverse ++ past) rest) := by
    have opens : (Cursor.mk past (f.paramTokens ++ rest) 0).atPunct ["("] = true := rfl
    rw [Rules.parameters, cursor_bind_facing, if_pos opens, bind_ok (f.arguments_facing d past rest)]
    rfl
  rw [unit, Rules.compoundUnit, cursor_bind_facing, noArrow]
  show r.name (d.facing before f.keyword) = _
  rw [name, tokens, Rules.functionExpression, bind_ok (word _), bind_ok (skipTrivia_facing d _ gap rfl), cursor_bind_facing]
  show (Rules.parameters >>= _) (d.facing _ (f.paramTokens ++ _)) = _
  rw [bind_ok (parameters _ _), bind_ok (skipTrivia_facing d _ gap' rfl), past]

end FunctionParts

/-! ### Behind the brace -/

namespace Rules

variable {p : Pasts} {r : Rules}

/-- Two runs that face the same block are twins once its brace is passed, which hides what lies behind it. The place of
the brace matters by its line only. -/
theorem alike_block (hr : r.Unaware p) (d : Desk) (body : List Token) :
    p.Alike (r.block (d.facing p.first (.mark "\x7b" :: body))) (r.block (d.facing p.second (.mark "\x7b" :: body))) := by
  have opens (past : List Token) : (Cursor.mk past (.mark "\x7b" :: body) 0).atPunct ["\x7b"] = true := rfl
  have brace (past : List Token) : skip 1 (d.facing past (.mark "\x7b" :: body)) =
      (.ok (), d.facing (.mark "\x7b" :: past) body) := skip_facing d past [.mark "\x7b"] body
  have twin : p.TwinDesk (d.facing (.mark "\x7b" :: p.first) body) (d.facing (.mark "\x7b" :: p.second) body) :=
    ⟨.intro [.mark "\x7b"] body 0 rfl, rfl⟩
  rw [block, cursor_bind_facing, cursor_bind_facing, if_pos (opens _), if_pos (opens _), bind_ok (brace _), bind_ok (brace _)]
  have statements : p.Unaware (r.blockUpTo (.mark "\x7b" :: body).length) := .of_holds (holds_blockUpTo hr.holds _)
  refine Same.asStatements (statements.bind fun _ => .ite rfl (.throw ?_) (.pure ())) twin
  exact Fault.message_congr rfl (congrArg some p.sameLine)

theorem alike_functionBody (hr : r.Unaware p) (d : Desk) (body : List Token) :
    p.Alike (r.functionBody (d.facing p.first (.mark "\x7b" :: body)))
      (r.functionBody (d.facing p.second (.mark "\x7b" :: body))) := by
  let inner : Desk := { d with enclosures := .function :: d.enclosures, journal := d.journal ++ [.entered .function] }
  let leave (e : Desk) : Desk := { e with enclosures := e.enclosures.tail, journal := e.journal ++ [.left .function] }
  have left (e e' : Desk) (later : p.TwinDesk e e') : p.TwinDesk (leave e) (leave e') :=
    .change (fun _ e => leave e) (fun _ _ _ _ => rfl) later later
  have entered (a : Edit Unit) (past : List Token) : enclosedBy .function a (d.facing past (.mark "\x7b" :: body)) =
      ((a (inner.facing past (.mark "\x7b" :: body))).1.map fun _ =>
        (a (inner.facing past (.mark "\x7b" :: body))).2.enclosures.headD .function,
        leave (a (inner.facing past (.mark "\x7b" :: body))).2) := rfl
  refine Alike.bind ?_ fun _ _ _ twin => .returned () twin
  rw [entered, entered]
  exact (alike_block hr inner body).leave leave leave (fun _ e => e.enclosures.headD .function) left fun _ _ _ => rfl

theorem alike_functionLiteral (hr : r.Unaware p) (head params : String) (d : Desk) (body : List Token) :
    p.Alike (r.functionLiteral head params (d.facing p.first (.mark "\x7b" :: body)))
      (r.functionLiteral head params (d.facing p.second (.mark "\x7b" :: body))) := by
  have opens (past : List Token) : (Cursor.mk past (.mark "\x7b" :: body) 0).atPunct ["\x7b"] = true := rfl
  have headed (past : List Token) : r.functionLiteral head params (d.facing past (.mark "\x7b" :: body)) =
      (do r.functionBody; rework (·.separateAt (d.out.length + 1)); rework (·.emitClause d.out.length "end") : Edit Unit)
        (Desk.facing { d with out := d.out.emit (head ++ "(" ++ params ++ ")") } past (.mark "\x7b" :: body)) := by
    have marked : mark (d.facing past (.mark "\x7b" :: body)) = (.ok d.out.length, d.facing past (.mark "\x7b" :: body)) := rfl
    have emitted : emit (head ++ "(" ++ params ++ ")") (d.facing past (.mark "\x7b" :: body)) =
        (.ok (), Desk.facing { d with out := d.out.emit (head ++ "(" ++ params ++ ")") } past (.mark "\x7b" :: body)) := rfl
    rw [functionLiteral, bind_ok marked, bind_ok emitted, cursor_bind_facing, if_pos (opens past)]
  rw [headed, headed]
  refine (alike_functionBody hr _ body).bind fun _ _ _ twin => ?_
  exact Unaware.of_holds ((Trait.Holds.rework _).bind fun _ => .rework _) twin

end Rules

namespace FunctionParts

open Rules

variable (f : FunctionParts) (d : Desk) (before : List Token)

/-- Both forms are the same unit. -/
theorem alike_unit {r : Rules} (hr : r.Unaware (f.pasts before)) :
    (f.pasts before).Alike (r.unit (d.facing before f.arrow)) (r.unit (d.facing before f.keyword)) := by
  rw [f.unit_arrow, f.unit_keyword]
  exact alike_functionLiteral hr _ _ d f.body

theorem alike_within (depth : Nat) : (f.pasts before).Alike
    ((within (depth + 1)).expression (d.facing before f.arrow)) ((within (depth + 1)).expression (d.facing before f.keyword)) :=
  f.alike_unit d before (unaware_within depth)

/-! ### Rows of units -/

end FunctionParts

namespace Rules

/-- The places at which the rows of units end: an expression statement, a declared value, the right side of an
assignment, the two branches of a conditional and a table. -/
def rowEnds : List (Cursor → Bool) :=
  [endsStatement false, endsStatement true, endsOperand, endsThenBranch, endsElseBranch, (·.atPunct ["]"])]

theorem rowEnds_eq {p : Pasts} {stops : Cursor → Bool} (row : stops ∈ rowEnds) ⦃c c' : Cursor⦄ (twin : p.trait.Twin c c') :
    stops c = stops c' := by
  simp only [rowEnds, List.mem_cons, List.not_mem_nil, or_false] at row
  rcases row with rfl | rfl | rfl | rfl | rfl | rfl
  · exact endsStatement_eq false twin
  · exact endsStatement_eq true twin
  · exact endsOperand_eq twin
  · exact Trait.ahead_eq (fun _ => rfl) twin
  · exact endsElseBranch_eq twin
  · exact Trait.atPunct_eq twin _

/-- No row ends where a function begins. -/
theorem rowEnds_function {stops : Cursor → Bool} (row : stops ∈ rowEnds) {c : Cursor}
    (first : c.current = .mark "(" ∨ c.current = .word "function") : c.atEnd = false ∧ stops c = false := by
  have feed : c.atLineEnd = false := by
    rcases first with first | first <;> rw [Cursor.atLineEnd, first] <;> rfl
  simp only [rowEnds, List.mem_cons, List.not_mem_nil, or_false] at row
  rcases first with first | first <;> rcases row with rfl | rfl | rfl | rfl | rfl | rfl <;>
    simp [endsStatement, endsOperand, endsThenBranch, endsElseBranch, Cursor.atEnd, Cursor.atPunct, first, feed, isEof,
      isCloser, isPunct, closers]

end Rules

namespace FunctionParts

open Rules

variable (f : FunctionParts) (d : Desk) (before : List Token)

/-- The tokens passed from the form on: its head and what the twins have in common. -/
theorem passedSince_head {head tokens near rest : List Token} {overrun : Nat}
    (moves : (Cursor.mk before tokens 0).Moves ⟨near ++ (head.reverse ++ before), rest, overrun⟩) :
    Cursor.passedSince ⟨near ++ (head.reverse ++ before), rest, overrun⟩ ⟨before, tokens, 0⟩ = head ++ near.reverse := by
  obtain ⟨passed, -, split, back, -⟩ := moves
  dsimp only at split back
  have reversed : near ++ head.reverse = passed.reverse := List.append_cancel_right (by simpa using back)
  have whole : passed = head ++ near.reverse := by
    rw [← List.reverse_reverse passed, ← reversed]
    simp
  rw [Cursor.passedSince, split, ← whole]
  simp

/-- Both forms leave as many brackets open. -/
theorem bracketDepth_passed {c c' : Cursor} (moves : (Cursor.mk before f.arrow 0).Moves c)
    (moves' : (Cursor.mk before f.keyword 0).Moves c') (twin : (f.pasts before).Twin c c') :
    bracketDepth (c.passedSince ⟨before, f.arrow, 0⟩) = bracketDepth (c'.passedSince ⟨before, f.keyword, 0⟩) := by
  obtain ⟨near, rest, overrun, -⟩ := twin
  have passed := passedSince_head before moves
  have passed' := passedSince_head before moves'
  simp only [pasts] at passed passed' ⊢
  rw [passed, passed', bracketDepth_append, bracketDepth_append, f.bracketDepth_heads]

/-- A row of units with the function as its next unit, by rules that get on from either form. -/
theorem alike_row {r : Rules} {n : Nat} (hr : r.Unaware (f.pasts before)) (expresses : r.Expresses n r)
    (room : (Cursor.mk before f.arrow 0).Below n) (room' : (Cursor.mk before f.keyword 0).Below n)
    (unit : (f.pasts before).Alike (r.expression (d.facing before f.arrow)) (r.expression (d.facing before f.keyword)))
    {stops : Cursor → Bool} (row : stops ∈ rowEnds) (limit : Nat) (depth : Int) : (f.pasts before).Alike
      (r.unitsUpTo stops (limit + 1) depth (d.facing before f.arrow))
      (r.unitsUpTo stops (limit + 1) depth (d.facing before f.keyword)) := by
  have goes := rowEnds_function row (c := ⟨before, f.arrow, 0⟩) (.inl rfl)
  have goes' := rowEnds_function row (c := ⟨before, f.keyword, 0⟩) (.inr rfl)
  have moves := (expresses _ room (d.facing before f.arrow) rfl).2.1
  have moves' := (expresses _ room' (d.facing before f.keyword) rfl).2.1
  simp only [unitsUpTo, cursor_bind_facing, goes, goes', Bool.and_false, Bool.or_false, Bool.false_eq_true, if_false]
  rw [bind_apply, bind_apply]
  generalize r.expression (d.facing before f.arrow) = out at unit moves ⊢
  generalize r.expression (d.facing before f.keyword) = out' at unit moves' ⊢
  cases unit with
  | stopped same twin => exact .stopped same twin
  | @returned _ e e' twin =>
    -- the row counts the brackets among the tokens passed, which are not the same tokens
    have depths := f.bracketDepth_passed before moves moves' twin.cursor
    show (f.pasts before).Alike (r.unitsUpTo stops limit (depth + bracketDepth (e.cursor.passedSince _)) e)
      (r.unitsUpTo stops limit (depth + bracketDepth (e'.cursor.passedSince _)) e')
    rw [depths]
    exact Unaware.of_holds (holds_unitsUpTo hr.holds (rowEnds_eq row) limit _) twin

/-! ### Rules with room for either text -/

/-- Rules of any two depths with room for their texts take the function as the same unit. -/
theorem alike_expression {n m : Nat} (room : (Cursor.mk before f.arrow 0).Below ((n + 1) / 2))
    (room' : (Cursor.mk before f.keyword 0).Below ((m + 1) / 2)) : (f.pasts before).Alike
      ((within n).expression (d.facing before f.arrow)) ((within m).expression (d.facing before f.keyword)) := by
  have size := room.size_lt
  obtain ⟨k, both⟩ : ∃ k, n + m = k + 1 := ⟨n + m - 1, by omega⟩
  have deeper := ((deep_within n m).expresses _ room (d.facing before f.arrow) rfl).1
  have deeper' := ((deep_within m n).expresses _ room' (d.facing before f.keyword) rfl).1
  rw [deeper, deeper', Nat.add_comm m n, both]
  exact f.alike_within d before k

/-- So they do in a row of units. -/
theorem alike_unitsUpTo {n m : Nat} (room : (Cursor.mk before f.arrow 0).Below ((n + 1) / 2))
    (room' : (Cursor.mk before f.keyword 0).Below ((m + 1) / 2)) {stops : Cursor → Bool} (row : stops ∈ rowEnds)
    {limit limit' : Nat} (enough : f.arrow.length ≤ limit) (enough' : f.keyword.length ≤ limit') (depth : Int) :
    (f.pasts before).Alike ((within n).unitsUpTo stops limit depth (d.facing before f.arrow))
      ((within m).unitsUpTo stops limit' depth (d.facing before f.keyword)) := by
  have size := room.size_lt
  have size' := room'.size_lt
  obtain ⟨k, both⟩ : ∃ k, n + m = k + 1 := ⟨n + m - 1, by omega⟩
  have more : f.arrow.length ≤ limit + limit' + 1 := by omega
  have more' : f.keyword.length ≤ limit + limit' + 1 := by omega
  -- the sum of the two depths and of the two limits is enough for both forms
  have deeper := proceeds_unitsUpTo (deep_within n m).expresses stops room enough more depth (d.facing before f.arrow) rfl
  have deeper' := proceeds_unitsUpTo (deep_within m n).expresses stops room' enough' more' depth (d.facing before f.keyword) rfl
  rw [deeper.1, deeper'.1, Nat.add_comm m n, both]
  have unit := f.alike_within d before k
  have expresses := (deep_within (k + 1) 0).expresses
  exact f.alike_row d before (unaware_within _) expresses ⟨room.sound, by omega⟩ ⟨room'.sound, by omega⟩ unit row _ depth

/-! ### Statements of a value -/

/-- On the sheet of a value a statement is not marked. -/
theorem markStatement_value {d : Desk} (value : d.inExpression = true) : markStatement d = (.ok (), d) := by
  show ((Except.ok (), d.onSheet d.toSheet.markStatement) : Except Fault Unit × Desk) = _
  rw [Sheet.markStatement, if_pos value]
  rfl

theorem anyStatement_arrow (r : Rules) (value : d.inExpression = true) :
    r.anyStatement (d.facing before f.arrow) = r.expressionStatement false (d.facing before f.arrow) := by
  have plain : r.anyStatement (d.facing before f.arrow) = r.plainStatement (d.facing before f.arrow) := rfl
  have marked : markStatement (d.facing before f.arrow) = (.ok (), d.facing before f.arrow) := markStatement_value value
  rw [plain, plainStatement, bind_ok marked]

theorem anyStatement_keyword (r : Rules) :
    r.anyStatement (d.facing before f.keyword) = r.expressionStatement false (d.facing before f.keyword) := by
  have declaration : r.anyStatement (d.facing before f.keyword) = r.functionDeclaration (d.facing before f.keyword) := rfl
  have unnamed : ¬ ((Cursor.mk before f.keyword 0).ahead 1).1.isIdentifier = true := by
    rw [f.ahead_keyword]
    decide
  rw [declaration, functionDeclaration, cursor_bind_facing]
  dsimp only
  rw [if_neg unnamed]

/-- On the sheet of a value the function begins the same statement. -/
theorem alike_statement {n m : Nat} (value : d.inExpression = true) (room : (Cursor.mk before f.arrow 0).Below (n / 2))
    (room' : (Cursor.mk before f.keyword 0).Below (m / 2)) : (f.pasts before).Alike
      ((within n).statement (d.facing before f.arrow)) ((within m).statement (d.facing before f.keyword)) := by
  have size := room.size_lt
  have size' := room'.size_lt
  obtain ⟨n, rfl⟩ : ∃ k, n = k + 1 := ⟨n - 1, by omega⟩
  obtain ⟨m, rfl⟩ : ∃ k, m = k + 1 := ⟨m - 1, by omega⟩
  have row : endsStatement false ∈ rowEnds := List.mem_cons_self
  show (f.pasts before).Alike ((within n).anyStatement _) ((within m).anyStatement _)
  rw [f.anyStatement_arrow d before _ value, f.anyStatement_keyword]
  refine Alike.bind ?_ fun _ _ _ twin => Unaware.of_holds (.skipPunct _) twin
  exact f.alike_unitsUpTo d before room room' row (Nat.le_refl _) (Nat.le_refl _) 0

/-- Twins are both behind the place where the function begins. -/
theorem pos_lt_of_twin {c c' : Cursor} (twin : (f.pasts before).Twin c c') : before.length < c.pos ∧ before.length < c'.pos := by
  obtain ⟨near, rest, overrun, seen⟩ := twin
  have nonempty : 0 < near.length := by
    rcases near with _ | ⟨t, near⟩
    · cases seen
    · exact Nat.zero_lt_succ _
  simp only [Cursor.pos, pasts, List.length_append]
  omega

/-- The statements of a value from the function on. -/
theorem alike_statementsUpTo {n m : Nat} (value : d.inExpression = true) (room : (Cursor.mk before f.arrow 0).Below (n / 2))
    (room' : (Cursor.mk before f.keyword 0).Below (m / 2)) {limit limit' : Nat} (enough : f.arrow.length ≤ limit)
    (enough' : f.keyword.length ≤ limit') : (f.pasts before).Alike
      ((within n).statementsUpTo limit (d.facing before f.arrow))
      ((within m).statementsUpTo limit' (d.facing before f.keyword)) := by
  have size := room.size_lt
  have size' := room'.size_lt
  have more : f.arrow.length ≤ limit + limit' + 1 := by omega
  have more' : f.keyword.length ≤ limit + limit' + 1 := by omega
  have deeper := (ends_statementsUpTo (deep_within n m).states room enough more (d.facing before f.arrow) rfl).1
  have deeper' := (ends_statementsUpTo (deep_within m n).states room' enough' more' (d.facing before f.keyword) rfl).1
  have statement : (f.pasts before).Alike ((within (n + m)).statement (d.facing before f.arrow))
      ((within (n + m)).statement (d.facing before f.keyword)) :=
    f.alike_statement d before value ⟨room.sound, by omega⟩ ⟨room'.sound, by omega⟩
  have others : (f.pasts before).Unaware ((within (n + m)).statementsUpTo (limit + limit')) :=
    Unaware.of_holds (holds_statementsUpTo (unaware_within (n + m)).holds _)
  have goes : (Cursor.mk before f.arrow 0).atEnd = false := rfl
  have goes' : (Cursor.mk before f.keyword 0).atEnd = false := rfl
  rw [deeper, deeper', Nat.add_comm m n]
  simp only [statementsUpTo, cursor_bind_facing, goes, goes', Bool.false_eq_true, if_false]
  refine statement.bind fun _ e e' twin => Same.cursor_bind (fun here here' seen => ?_) twin
  obtain ⟨further, further'⟩ := f.pos_lt_of_twin before seen
  have went : (here.pos == (Cursor.mk before f.arrow 0).pos) = (here'.pos == (Cursor.mk before f.keyword 0).pos) := by
    have start : (Cursor.mk before f.arrow 0).pos = before.length := rfl
    have start' : (Cursor.mk before f.keyword 0).pos = before.length := rfl
    rw [start, start', beq_false_of_ne (Nat.ne_of_gt further), beq_false_of_ne (Nat.ne_of_gt further')]
  refine .ite (congrArg (· = true) went) ?_ others
  exact Unaware.of_holds (Trait.Holds.next.bind fun _ => (Trait.Holds.emit _).bind fun _ => others)

end FunctionParts

/-- The two forms of a function come out alike wherever a unit of an expression is taken: with the same text written, the
same diagnostics, labels and journal, the same message if a fault stops the run, and twin cursors behind it. The same holds
of the row of units that the function stands in, for every place such a row may end at and any number of brackets open, and
of the statements of a value. No rule at any depth tells the two pasts apart afterwards, so the rest of the run is the same. -/
theorem function_forms_alike (f : FunctionParts) (d : Desk) (before : List Token) (extra extra' : Nat) :
    let p := f.pasts before
    let a := d.facing before f.arrow
    let b := d.facing before f.keyword
    let r := Rules.within (a.budget + extra)
    let r' := Rules.within (b.budget + extra')
    p.Alike (r.expression a) (r'.expression b) ∧
      (∀ stops ∈ Rules.rowEnds, ∀ depth limit limit', f.arrow.length ≤ limit → f.keyword.length ≤ limit' →
        p.Alike (r.unitsUpTo stops limit depth a) (r'.unitsUpTo stops limit' depth b)) ∧
      (d.inExpression = true → ∀ limit limit', f.arrow.length ≤ limit → f.keyword.length ≤ limit' →
        p.Alike (r.statementsUpTo limit a) (r'.statementsUpTo limit' b)) ∧
      ∀ depth, (Rules.within depth).Unaware p := by
  intro p a b r r'
  have room : a.cursor.Below ((a.budget + extra) / 2) := Desk.below_budget (Cursor.isSound_iff.mpr (f.sound_arrow before)) extra
  have room' : b.cursor.Below ((b.budget + extra') / 2) :=
    Desk.below_budget (Cursor.isSound_iff.mpr (f.sound_keyword before)) extra'
  have size := room.size_lt
  have size' := room'.size_lt
  have unitRoom : a.cursor.Below ((a.budget + extra + 1) / 2) := ⟨room.sound, by omega⟩
  have unitRoom' : b.cursor.Below ((b.budget + extra' + 1) / 2) := ⟨room'.sound, by omega⟩
  refine ⟨?_, ?_, ?_, Rules.unaware_within⟩
  · exact f.alike_expression d before unitRoom unitRoom'
  · intro stops row depth limit limit' enough enough'
    exact f.alike_unitsUpTo d before unitRoom unitRoom' row enough enough' depth
  · intro value limit limit' enough enough'
    exact f.alike_statementsUpTo d before value room room' enough enough'

/-- A function with a loop and a jump in its body and a line feed in front of it. -/
def waiting : FunctionParts where
  params := [.word "x"]
  body := [.word "while", .mark "(", .word "x", .mark ")", .blank, .word "continue", .mark "\x7d", .eof]
  beforeArrow := [.blank]
  afterArrow := [⟨.newline, "\n"⟩]
  afterKeyword := []
  afterParams := [⟨.newline, "\n"⟩]
  balanced := .atom rfl
  complete := by decide
  proper := by decide
  trivia := by decide
  sameFeeds := by decide

/-- It is alike as the first argument of a call, on a sheet of its own. -/
theorem function_forms_alike_argument :
    ({ toSheet := .nested [] } : Desk).inExpression = true ∧ waiting.arrow.length ≤ 20 ∧ waiting.keyword.length ≤ 20 ∧
      (waiting.pasts []).Alike
        ((Rules.within ((Desk.facing { toSheet := .nested [] } [] waiting.arrow).budget + 0)).statementsUpTo 20
          (Desk.facing { toSheet := .nested [] } [] waiting.arrow))
        ((Rules.within ((Desk.facing { toSheet := .nested [] } [] waiting.keyword).budget + 0)).statementsUpTo 20
          (Desk.facing { toSheet := .nested [] } [] waiting.keyword)) :=
  ⟨rfl, by decide, by decide,
    (function_forms_alike waiting { toSheet := .nested [] } [] 0 0).2.2.1 rfl 20 20 (by decide) (by decide)⟩

end NoteScript

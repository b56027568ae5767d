import NoteScript.Proofs.Advance
import NoteScript.Rules.Nesting

/-!
# The rules get on

Every rule is walked through once. If the two rules inside it get on wherever less is to be read, the rule gets on
where it stands; and if they do the same as two others there, it does the same under the others.

* `Rules.Expresses`, `Rules.States`: what is asked of the rules inside, for less than `n` characters.
* `proceeds_step`, `ends_statementsUpTo`, `proceeds_unitsUpTo`: the loops, whatever room they are given beyond the
  tokens at hand.
* `stays_value`: nested token lists are worked off on a sheet of their own. They are parts of the tokens read
  (`Token.Short`), or the tokens of an embedded expression.
* `gets_unit`: the rule for a unit of an expression.
-/

namespace NoteScript

open Edit

/-! ### Token lists inside -/

namespace Token

/-- A list of proper tokens with less than `n` characters. -/
structure Short (n : Nat) (ts : List Token) : Prop where
  proper : ∀ t ∈ ts, t.isProper = true
  size_lt : textSize ts < n

theorem textSize_sublist {ts us : List Token} (h : us.Sublist ts) : textSize us ≤ textSize ts := by
  induction h with
  | slnil => exact Nat.le_refl _
  | cons t _ ih => exact Nat.le_trans ih (Nat.le_add_left _ _)
  | cons_cons t _ ih => exact Nat.add_le_add_left ih _

theorem Short.sublist {n : Nat} {ts us : List Token} (short : Short n ts) (h : us.Sublist ts) : Short n us :=
  ⟨fun t mem => short.proper t (h.subset mem), Nat.lt_of_le_of_lt (textSize_sublist h) short.size_lt⟩

end Token

open Token (Short)

namespace Rules

variable {n : Nat} {r r' : Rules} {c : Cursor}
variable {limit limit' : Nat}

/-! ### What is asked of the rules inside -/

/-- At a token of the script, the rule for a unit gets on. -/
def Expresses (n : Nat) (r r' : Rules) : Prop :=
  ∀ c : Cursor, c.Below n → Proceeds r.expression r'.expression c fun _ c' => c.atEnd = false → c.Advances c'

/-- At a token of the script, the rule for a statement gets on or stays at a closing bracket. -/
def States (n : Nat) (r r' : Rules) : Prop := ∀ c : Cursor, c.Below n → Proceeds r.statement r'.statement c fun _ c' =>
    c.atEnd = false → c.Advances c' ∨ c' = c ∧ c.current.isCloser = true

/-- Both rules, where less than `n` characters are to be read. -/
structure Sure (n : Nat) (r r' : Rules) : Prop where
  states : r.States n r'
  expresses : r.Expresses n r'

/-! ### Trivia and what is passed over -/

theorem gets_emitTrivia (starts : c.Starts n) : Gets emitTrivia emitTrivia c := by
  refine Gets.bind ((gets_next starts.sound starts.inside).mono fun _ _ _ h => h.2) starts fun t c' below => ?_
  refine .ite (fun _ => stays_written.bind fun _ => ?_) fun _ => safe_emit _
  exact .ite (fun _ => (stays_emit _).bind fun _ => safe_emit _) fun _ => safe_emit _

theorem stays_unsupported (what : String) : Stays (unsupported what) (unsupported what) c :=
  (stays_warn _).bind fun _ => stays_emit _

/-- A statement that is passed over ends before the closing token; more room to look for its end changes nothing. -/
theorem moves_passStatement (sound : c.Sound) (enough : c.rest.length ≤ limit) (enough' : c.rest.length ≤ limit') (depth : Int) :
    c.Moves (passStatement limit depth c) ∧ passStatement limit depth c = passStatement limit' depth c := by
  induction limit generalizing c limit' depth with
  | zero => exact absurd sound.length_pos (by omega)
  | succ limit ih =>
    obtain ⟨limit', rfl⟩ := sound.exists_succ enough'
    unfold passStatement
    split_ifs with ended semicolon closes
    · exact ⟨.refl c, rfl⟩
    · exact ⟨(sound.advance (by simpa using ended)).1, rfl⟩
    · exact ⟨.refl c, rfl⟩
    · have advances := sound.advance (by simpa using ended)
      have shorter := advances.length_lt
      obtain ⟨moves, same⟩ := ih (advances.1.sound sound) (by omega) (by omega : c.advance.rest.length ≤ limit')
        (depth + Token.bracketDepth [c.current])
      exact ⟨advances.1.trans moves, same⟩

theorem safe_skipStatement (sound : c.Sound) : Safe skipStatement skipStatement c :=
  (Proceeds.move (m := fun c => passStatement c.rest.length 0 c)
    (moves_passStatement sound (Nat.le_refl _) (Nat.le_refl _) 0).1).safe

theorem safe_skipBody (below : c.Below n) : Safe skipBody skipBody c := by
  refine below.skipTrivia fun c below => .cursor_bind (.ite (fun _ => ?_) fun _ => ?_)
  · exact (gets_group below.sound _ _).before fun _ _ => .pure trivial
  · exact safe_skipStatement below.sound

theorem safe_skipToBlockUpTo (below : c.Below n) (enough : c.rest.length ≤ limit)
    (enough' : c.rest.length ≤ limit') : Safe (skipToBlockUpTo limit) (skipToBlockUpTo limit') c := by
  refine below.rounds (fun below later => ?_) enough enough'
  refine .cursor_bind (.ite (fun _ => .pure trivial) fun inside => .ite (fun _ => ?_) fun _ => .ite (fun _ => ?_) fun _ =>
    .ite (fun _ => .pure trivial) fun _ => ?_)
  · exact (gets_group below.sound _ _).before fun _ _ => .pure trivial
  · exact Proceeds.bind (gets_group below.sound _ _) fun _ c' _ taken => later c' taken.1
  · exact Proceeds.bind (gets_skip_one below.sound (by simpa using inside)) fun _ c' _ advances => later c' advances

theorem safe_skipToBlock (below : c.Below n) : Safe skipToBlock skipToBlock c :=
  .cursor_bind (safe_skipToBlockUpTo below (Nat.le_refl _) (Nat.le_refl _))

theorem safe_skipClausesUpTo (below : c.Below n) (enough : c.rest.length ≤ limit)
    (enough' : c.rest.length ≤ limit') : Safe (skipClausesUpTo limit) (skipClausesUpTo limit') c := by
  refine below.rounds (fun {_ _ c} below later => ?_) enough enough'
  refine .cursor_bind (.ite (fun clause => ?_) fun _ => .pure trivial)
  have inside : (c.ahead 0).1.isEof = false := by
    rcases Bool.or_eq_true_iff.mp clause with word | word <;> exact Token.isEof_of_isWord word
  refine Proceeds.bind (gets_skip below.sound (below.sound.ahead inside) (Nat.succ_pos _)) fun _ c' _ advances => ?_
  exact Proceeds.bind (safe_skipToBlock (below.moves advances.1)) fun _ c'' moves _ => later c'' (advances.trans_moves moves)

theorem gets_unsupportedStatement (starts : c.Starts n) : Gets unsupportedStatement unsupportedStatement c := by
  refine Gets.bind ((gets_next starts.sound starts.inside).mono fun _ _ _ h => h.2) starts fun _ c below => ?_
  refine (stays_unsupported _).bind fun _ => (safe_skipToBlock below).bind below fun _ c below => ?_
  exact .ite (fun _ => .cursor_bind (safe_skipClausesUpTo below (Nat.le_refl _) (Nat.le_refl _))) fun _ => .pure trivial

/-! ### Statements, values and blocks -/

section

variable (states : r.States n r') (below : c.Below n)
include states below

/-- A statement, and the token it stays at where it gets nowhere, and what follows. -/
theorem proceeds_step {α : Type} {k k' : Edit α} {Q : α → Cursor → Prop} (inside : c.atEnd = false)
    (later : ∀ c', c.Advances c' → Proceeds k k' c' Q) :
    Proceeds (do r.statement; if (← cursor).pos == c.pos then emit (← Edit.next).text
                 k)
      (do r'.statement; if (← cursor).pos == c.pos then emit (← Edit.next).text
          k') c Q := by
  refine Proceeds.bind (states c below) fun _ c' moves got => .cursor_bind (.ite (fun stayed => ?_) fun went => ?_)
  · rcases got inside with advances | ⟨rfl, -⟩
    · exact absurd (eq_of_beq stayed) (Nat.ne_of_gt advances.2)
    · refine Proceeds.bind (gets_next below.sound inside) fun _ c' _ taken => (stays_emit _).bind fun _ => ?_
      exact later c' taken.2
  · refine later c' ((got inside).resolve_right ?_)
    rintro ⟨rfl, -⟩
    exact went (beq_self_eq_true _)

/-- All statements are taken, up to the closing token. -/
theorem ends_statementsUpTo (enough : c.rest.length ≤ limit) (enough' : c.rest.length ≤ limit') :
    Proceeds (r.statementsUpTo limit) (r'.statementsUpTo limit') c fun _ c' => c'.atEnd = true := by
  refine below.rounds (fun below later => ?_) enough enough'
  refine .cursor_bind (.ite (fun ended => .pure ended) fun inside => ?_)
  exact proceeds_step states below (by simpa using inside) later

theorem ends_statements : Proceeds r.statements r'.statements c fun _ c' => c'.atEnd = true :=
  .cursor_bind (ends_statementsUpTo states below (Nat.le_refl _) (Nat.le_refl _))

omit below in
/-- A nested token list is worked off on a sheet of its own. -/
theorem stays_value {tokens : List Token} (short : Short n tokens) : Stays (r.value tokens) (r'.value tokens) c := by
  refine Proceeds.nested (ends_statements states ⟨⟨tokens, rfl, short.proper, rfl⟩, ?_⟩)
  have size : (Cursor.ofTokens (tokens ++ [.eof])).size = Token.textSize tokens := by
    rw [Cursor.size, Cursor.ofTokens, Token.textSize_append]
    rfl
  rw [size]
  exact short.size_lt

theorem safe_blockUpTo
    (enough : c.rest.length ≤ limit) (enough' : c.rest.length ≤ limit') : Safe (r.blockUpTo limit) (r'.blockUpTo limit') c := by
  refine below.rounds (fun below later => ?_) enough enough'
  refine .cursor_bind (.ite (fun _ => .pure trivial) fun inside => .ite (fun closes => ?_) fun _ => ?_)
  · exact below.skip (Token.isEof_of_isPunct closes) fun _ _ => .pure trivial
  · exact proceeds_step states below (by simpa using inside) later

theorem safe_block : Safe r.block r'.block c := by
  refine .cursor_bind (.ite (fun opens => ?_) fun _ => .pure trivial)
  refine Proceeds.bind (gets_skip_one below.sound (Token.isEof_of_isPunct opens)) fun _ c' _ advances => ?_
  have shorter := advances.length_lt
  refine Safe.asStatements (Safe.bind (safe_blockUpTo states (below.moves advances.1) (by omega) (by omega))
    (below.moves advances.1) fun _ _ _ => ?_)
  exact .ite (fun _ => .throw (by simp)) fun _ => .pure trivial

end

/-! ### Units in a row -/

/-- Units are taken one after the other. The first one gets on, and where the walk stops at once the cursor stays. -/
theorem proceeds_unitsUpTo (expresses : r.Expresses n r') (stops : Cursor → Bool) (below : c.Below n)
    (enough : c.rest.length ≤ limit) (enough' : c.rest.length ≤ limit') (depth : Int) :
    Proceeds (r.unitsUpTo stops limit depth) (r'.unitsUpTo stops limit' depth) c fun _ c' =>
      if c.atEnd || (depth == 0 && stops c) then c' = c else c.Advances c' := by
  induction limit generalizing c limit' depth with
  | zero => exact absurd below.sound.length_pos (by omega)
  | succ limit ih =>
    obtain ⟨limit', rfl⟩ := below.sound.exists_succ enough'
    refine .cursor_bind (.ite (fun stop => .pure ?_) fun goes => ?_)
    · rw [if_pos stop]
    · have inside : c.atEnd = false := by
        simp only [Bool.or_eq_true, not_or] at goes
        simpa using goes.1
      refine Proceeds.bind (expresses c below) fun _ c' _ got => .cursor_bind ?_
      have advances := got inside
      have shorter := advances.length_lt
      refine (ih (below.moves advances.1) (by omega) (by omega) _).mono fun _ c'' moves _ => ?_
      rw [if_neg goes]
      exact advances.trans_moves moves

theorem proceeds_units (expresses : r.Expresses n r') (stops : Cursor → Bool) (below : c.Below n) :
    Proceeds (r.units stops) (r'.units stops) c fun _ c' => if c.atEnd || stops c then c' = c else c.Advances c' :=
  .cursor_bind ((proceeds_unitsUpTo expresses stops below (Nat.le_refl _) (Nat.le_refl _) 0).mono fun _ _ _ got => by
    simpa using got)

theorem safe_expressionStatement (expresses : r.Expresses n r') (below : c.Below n) (atComma : Bool) :
    Safe (r.expressionStatement atComma) (r'.expressionStatement atComma) c :=
  Safe.bind (proceeds_units expresses _ below).safe below fun _ _ below => safe_skipPunct below.sound _

/-! ### Functions -/

theorem safe_functionBody (states : r.States n r') (below : c.Below n) : Safe r.functionBody r'.functionBody c :=
  ((safe_block states below).enclosedBy .function).before fun _ _ => .pure trivial

theorem safe_functionLiteral (states : r.States n r') (below : c.Below n) (head params : String) :
    Safe (r.functionLiteral head params) (r'.functionLiteral head params) c := by
  refine stays_mark.bind fun start => (stays_emit _).bind fun _ => .cursor_bind ?_
  have closing : ∀ c, Safe (do rework (·.separateAt (start + 1)); rework (·.emitClause start "end"))
      (do rework (·.separateAt (start + 1)); rework (·.emitClause start "end")) c :=
    fun _ => (stays_rework _).bind fun _ => (stays_rework _).safe
  exact .ite (fun _ => (safe_functionBody states below).before fun _ => closing) fun _ => closing c

theorem safe_parameters (below : c.Below n) : Safe parameters parameters c := by
  refine .cursor_bind (.ite (fun _ => ?_) fun _ => .pure trivial)
  exact (gets_group below.sound _ _).before fun _ _ => .pure trivial

theorem gets_functionExpression (states : r.States n r') (starts : c.Starts n) :
    Gets r.functionExpression r'.functionExpression c := by
  have rest : ∀ c : Cursor, c.Below n → Safe (do let params ← parameters; skipTrivia; r.functionLiteral "function" params)
      (do let params ← parameters; skipTrivia; r'.functionLiteral "function" params) c := by
    intro c below
    refine (safe_parameters below).bind below fun _ c below => ?_
    exact below.skipTrivia fun c below => safe_functionLiteral states below _ _
  refine starts.skip fun c below => ?_
  refine below.skipTrivia fun c below => .cursor_bind (.ite (fun name => ?_) fun _ => rest c below)
  refine below.skip (Token.isEof_of_isIdentifier name) fun c below => ?_
  exact below.skipTrivia fun c below => rest c below

/-- The head of an arrow function ends before the closing token. -/
theorem arrow?_size {arrow : Cursor.Arrow} (sound : c.Sound) (found : c.arrow? = some arrow) :
    arrow.size < c.rest.length ∧ 0 < arrow.size := by
  have behind : ∀ k, (c.ahead k).1.isOperator ["=>"] = true → (c.ahead k).2 + 1 < c.rest.length :=
    fun k arrow => sound.ahead (Token.isEof_of_isOperator arrow)
  unfold Cursor.arrow? at found
  split at found
  · dsimp only at found
    split at found
    · cases found
      exact ⟨behind _ ‹_›, Nat.succ_pos _⟩
    · cases found
  · split at found
    · split at found
      · cases found
      · dsimp only at found
        split at found
        · cases found
          exact ⟨behind _ ‹_›, Nat.succ_pos _⟩
        · cases found
    · cases found

theorem gets_arrowFunction (sure : r.Sure n r') (starts : c.Starts n) {arrow : Cursor.Arrow} (found : c.arrow? = some arrow) :
    Gets (r.arrowFunction arrow) (r'.arrowFunction arrow) c := by
  obtain ⟨inside, positive⟩ := arrow?_size starts.sound found
  refine Gets.bind (gets_skip starts.sound inside positive) starts fun _ c below => ?_
  refine below.skipTrivia fun c below => .cursor_bind (.ite (fun _ => ?_) fun _ => ?_)
  · exact safe_functionLiteral sure.states below _ _
  · exact (stays_emit _).bind fun _ => (proceeds_units sure.expresses _ below).before fun _ _ => safe_emit _

/-! ### Operands of prefix operators -/

/-- A group with its brackets is what was passed. -/
theorem gets_bracketed (sound : c.Sound) (opener closer : String) :
    Proceeds (bracketed opener closer) (bracketed opener closer) c fun ts c' => c.Advances c' ∧ c.rest = ts ++ c'.rest := by
  refine .cursor_bind (Proceeds.bind (gets_group sound _ _) fun _ c' moves taken => .cursor_bind (.pure ?_))
  exact ⟨taken.1, moves.passedSince⟩

theorem advances_passMember (sound : c.Sound) (inside : c.atEnd = false) : c.Advances (passMember c) := by
  have advances := sound.advance inside
  have moves := (advances.1.sound sound).skipSpace
  have behind := (advances.1.trans moves).sound sound
  unfold passMember
  dsimp only
  split
  · exact (advances.trans_moves moves).trans_moves (behind.advance (Token.isEof_of_isIdentifier ‹_›)).1
  · exact advances.trans_moves moves

theorem safe_operandSuffixes (sound : c.Sound) (enough : c.rest.length ≤ limit) (enough' : c.rest.length ≤ limit') :
    Proceeds (operandSuffixes limit) (operandSuffixes limit') c fun ts c' => c.rest = ts ++ c'.rest := by
  induction limit generalizing c limit' with
  | zero => exact absurd sound.length_pos (by omega)
  | succ limit ih =>
    obtain ⟨limit', rfl⟩ := sound.exists_succ enough'
    have later : ∀ ts c', c.Advances c' → c.rest = ts ++ c'.rest →
        Proceeds (do let more ← operandSuffixes limit; return ts ++ more) (do let more ← operandSuffixes limit'; return ts ++ more)
          c' fun ts c' => c.rest = ts ++ c'.rest := by
      intro ts c' advances split
      have shorter := advances.length_lt
      refine Proceeds.bind (ih (advances.1.sound sound) (by omega) (by omega)) fun more c'' _ rest => .pure ?_
      rw [split, rest, List.append_assoc]
    refine .cursor_bind (.ite (fun point => ?_) fun _ => .ite (fun _ => ?_) fun _ => .ite (fun _ => ?_) fun _ => .pure rfl)
    · have advances := advances_passMember sound (Token.isEof_of_isOperator point)
      refine Proceeds.bind (.move advances.1) fun _ c' moves same => .cursor_bind ?_
      exact later _ _ (same ▸ advances) moves.passedSince
    · exact Proceeds.bind (gets_bracketed sound _ _) fun ts c' _ taken => later ts c' taken.1 taken.2
    · exact Proceeds.bind (gets_bracketed sound _ _) fun ts c' _ taken => later ts c' taken.1 taken.2

/-- An operand has proper tokens and is no longer than what was to be read. -/
theorem safe_operandTokens (below : c.Below n) : Proceeds operandTokens operandTokens c fun ts _ => Short n ts := by
  have passed : Proceeds operandTokens operandTokens c fun ts c' => c.rest = ts ++ c'.rest := by
    refine .cursor_bind (.ite (fun _ => (gets_bracketed below.sound _ _).mono fun _ _ _ taken => taken.2) fun _ =>
      .ite (fun _ => .pure rfl) fun inside => ?_)
    refine Proceeds.bind (gets_next below.sound (by simpa using inside)) fun t c' moves taken => ?_
    have shorter := taken.2.length_lt
    refine Proceeds.bind (safe_operandSuffixes (moves.sound below.sound) (by omega) (by omega)) fun more c'' _ rest => .pure ?_
    rw [taken.1, rest, List.cons_append]
  refine passed.mono fun ts c' moves split => ?_
  obtain ⟨passed, proper, split', -, -⟩ := moves.parts below.sound
  obtain rfl : passed = ts := List.append_cancel_right (split'.symm.trans split)
  refine ⟨proper, Nat.lt_of_le_of_lt ?_ below.size_lt⟩
  rw [Cursor.size, split, Token.textSize_append]
  exact Nat.le_add_right _ _

/-! ### Operators and conditionals -/

theorem gets_binaryOperator (starts : c.Starts n) (op : String) : Gets (binaryOperator op) (binaryOperator op) c := by
  refine .cursor_bind (starts.skip fun c below => ?_)
  refine stays_written.bind fun _ => .ite (fun _ => safe_emit _) fun _ => safe_emit _

theorem safe_compoundAssignment (expresses : r.Expresses n r') (below : c.Below n) (op : String) :
    Safe (r.compoundAssignment op) (r'.compoundAssignment op) c := by
  refine .cursor_bind (below.skipTrivia fun c below => ?_)
  exact (proceeds_units expresses _ below).safe.capture.before fun _ _ => (stays_rework _).safe

theorem gets_update (states : r.States n r') (starts : c.Starts n) : Gets r.update r'.update c := by
  refine .cursor_bind (Gets.bind ((gets_next starts.sound starts.inside).mono fun _ _ _ h => h.2) starts fun _ c below => ?_)
  refine .ite (fun _ => safe_emit _) fun _ => below.skipSpace fun c below => ?_
  refine Proceeds.bind (safe_operandTokens below) fun ts c _ short => ?_
  exact (stays_value states short).bind fun _ => safe_emit _

theorem gets_conditional (expresses : r.Expresses n r') (starts : c.Starts n) : Gets r.conditional r'.conditional c := by
  have yes : ∀ c : Cursor, c.Below n → Safe r.thenBranch r'.thenBranch c := by
    intro c below
    refine Safe.bind (Safe.capture ?_) below fun _ _ _ => .pure trivial
    exact Safe.bind (proceeds_units expresses _ below).safe below fun _ _ below => safe_skipPunct below.sound _
  have no : ∀ c : Cursor, c.Below n → Safe r.elseBranch r'.elseBranch c := fun c below =>
    (proceeds_units expresses _ below).safe.capture.before fun _ _ => .pure trivial
  refine starts.skip fun c below => ?_
  refine (stays_takeOperand _).bind fun _ => (yes c below).bind below fun _ c below => ?_
  exact (no c below).before fun _ _ => safe_emit _

/-! ### Method calls -/

theorem stays_regexLiteral (literal : String) : Stays (regexLiteral literal) (regexLiteral literal) c := by
  unfold regexLiteral
  split
  · exact .pure rfl
  · exact (stays_warn _).bind fun _ => .pure rfl

/-- The arguments of a call are shorter than what was to be read. -/
theorem safe_arguments (below : c.Below n) : Proceeds arguments arguments c fun inside _ => Short n inside :=
  (gets_group below.sound _ _).mono fun _ _ _ taken => ⟨taken.2.1, Nat.lt_trans taken.2.2 below.size_lt⟩

theorem safe_arguments_bind {α : Type} {f g : List Token → Edit α} (below : c.Below n)
    (later : ∀ inside (c' : Cursor), c'.Below n → Short n inside → Safe (f inside) (g inside) c') :
    Safe (arguments >>= f) (arguments >>= g) c :=
  Proceeds.bind (safe_arguments below) fun inside c' moves short => later inside c' (below.moves moves) short

theorem stays_afterMapName : Stays afterMapName afterMapName c := stays_get.bind fun _ => .pure rfl

theorem safe_takePlainSort (below : c.Below n) : Safe takePlainSort takePlainSort c := by
  refine .cursor_bind ?_
  split
  · rename_i size found
    have inside : size < c.rest.length := by
      unfold Cursor.plainSort? at found
      dsimp only at found
      split at found
      · rename_i sort
        cases found
        simp only [Bool.and_eq_true] at sort
        exact below.sound.ahead (Token.isEof_of_isPunct sort.2)
      · cases found
    exact (safe_skip below.sound inside).before fun _ _ => .pure trivial
  · exact .pure trivial

theorem safe_callKeys (below : c.Below n) : Safe callKeys callKeys c := by
  refine safe_arguments_bind below fun _ _ below _ => (stays_takeOperand _).bind fun _ => ?_
  exact (safe_takePlainSort below).before fun _ _ => safe_emit _

theorem safe_callToString (below : c.Below n) : Safe callToString callToString c :=
  safe_arguments_bind below fun _ _ _ _ => (stays_takeOperand _).bind fun _ => safe_emit _

theorem stays_sortBy (list order note : String) : Stays (sortBy list order note) (sortBy list order note) c :=
  stays_get.bind fun _ => .ite (fun _ => stays_emit _) fun _ => stays_emit _

section

variable (states : r.States n r') (below : c.Below n)
include states below

theorem safe_argument : Safe r.argument r'.argument c :=
  safe_arguments_bind below fun _ _ _ short => (stays_value states short).safe

theorem safe_argument_emit (f : String → String) : Safe (do emit (f (← r.argument))) (do emit (f (← r'.argument))) c :=
  (safe_argument states below).before fun _ _ => safe_emit _

omit below in
theorem stays_valueList {groups : List (List Token)} (short : ∀ tokens ∈ groups, Short n tokens) :
    Stays (r.valueList groups) (r'.valueList groups) c := by
  induction groups with
  | nil => exact .pure rfl
  | cons tokens groups ih =>
    obtain ⟨first, later⟩ := List.forall_mem_cons.mp short
    exact (stays_value states first).bind fun _ => (ih later).bind fun _ => .pure rfl

theorem safe_callPush : Safe r.callPush r'.callPush c := by
  refine (stays_takeOperand _).bind fun _ => safe_arguments_bind below fun inside _ _ short => ?_
  have groups : ∀ tokens ∈ (Token.splitOn "," inside).filter Token.hasContent, Short n tokens :=
    fun tokens mem => short.sublist (Token.infix_of_mem_splitOn (List.mem_of_mem_filter mem)).sublist
  exact (stays_valueList states groups).bind fun _ => safe_emit _

theorem safe_callSet : Safe r.callSet r'.callSet c := by
  refine safe_arguments_bind below fun inside _ _ short => ?_
  obtain ⟨key, value⟩ := Token.infix_splitFirst inside
  refine (stays_value states (short.sublist key.sublist)).bind fun _ => ?_
  exact (stays_value states (short.sublist value.sublist)).bind fun _ => safe_emit _

theorem safe_callDelete : Safe r.callDelete r'.callDelete c := by
  refine stays_afterMapName.bind fun _ => .ite (fun _ => ?_) fun _ => safe_emit _
  exact safe_argument_emit states below fun key => "[" ++ key ++ "] = nil"

omit below in
theorem stays_replacement {tokens : List Token} (short : Short n tokens) :
    Stays (r.replacement tokens) (r'.replacement tokens) c := by
  unfold replacement
  split
  · exact .ite (fun _ => .pure rfl) fun _ => stays_value states short
  · exact stays_value states short

theorem safe_callReplace (all : Bool) : Safe (r.callReplace all) (r'.callReplace all) c := by
  refine safe_arguments_bind below fun inside c' _ short => ?_
  obtain ⟨pattern, replacement⟩ := Token.infix_splitFirst inside
  have value : Stays (r.value (Token.splitFirst inside).1) (r'.value (Token.splitFirst inside).1) c' :=
    stays_value states (short.sublist pattern.sublist)
  refine (stays_replacement states (short.sublist replacement.sublist)).bind fun _ => ?_
  dsimp only
  split
  · refine .ite (fun _ => ?_) fun _ => .ite (fun _ => safe_emit _) fun _ => ?_
    · exact (stays_regexLiteral _).bind fun _ => safe_emit _
    · exact value.bind fun _ => safe_emit _
  · exact value.bind fun _ => safe_emit _

/-- A call that takes its argument first and its receiver then. -/
theorem safe_argumentReceiver (f : String → String → String) :
    Safe (do let part ← r.argument; let list ← receiver; emit (f part list))
      (do let part ← r'.argument; let list ← receiver; emit (f part list)) c :=
  (safe_argument states below).before fun _ _ => (stays_takeOperand _).bind fun _ => safe_emit _

theorem safe_callSort : Safe r.callSort r'.callSort c := by
  refine safe_arguments_bind below fun _ _ _ short => .ite (fun _ => ?_) fun _ => safe_emit _
  refine (stays_value states short).bind fun _ => (stays_takeOperand _).bind fun _ => ?_
  split
  · exact (stays_sortBy _ _ _).safe
  · exact (stays_warn _).bind fun _ => (stays_sortBy _ _ _).safe

theorem safe_call (method : Method) (name : String) : Safe (r.call method name) (r'.call method name) c := by
  cases method with
  | push => exact safe_callPush states below
  | has | get => exact safe_argument_emit states below fun key => "[" ++ key ++ "]"
  | set => exact safe_callSet states below
  | delete => exact safe_callDelete states below
  | keys => exact safe_callKeys below
  | trim | toLowerCase | toUpperCase => exact safe_arguments_bind below fun _ _ _ _ => safe_emit _
  | replace | replaceAll => exact safe_callReplace states below _
  | split => exact safe_argument_emit states below fun separator => ":split(" ++ separator ++ ")"
  | join | includes | startsWith | endsWith => exact safe_argumentReceiver states below _
  | toString => exact safe_callToString below
  | sort => exact safe_callSort states below
  | filter | chain => exact safe_emit _

theorem safe_member : Safe r.member r'.member c := by
  refine below.skipTrivia fun c below => .cursor_bind (.ite (fun _ => safe_emit _) fun name => ?_)
  have inside : c.atEnd = false := Token.isEof_of_isIdentifier (by simpa using name)
  have passed : ∀ {α : Type} {f g : Unit → Edit α}, (∀ c : Cursor, c.Below n → Safe (f ()) (g ()) c) →
      Safe (skip 1 >>= f) (skip 1 >>= g) c :=
    fun later => below.skip inside fun c below => later c below
  refine .ite (fun _ => passed fun c _ => (stays_takeOperand _).bind fun _ => safe_emit _) fun _ => ?_
  -- the test for a map variable is an action of its own, made only behind the name `size`
  refine stays_afterMapName.bind fun _ => .ite (fun _ => ?_) fun _ => ?_
  · exact passed fun c _ => (stays_takeOperand _).bind fun _ => safe_emit _
  · split
    · exact passed fun c below => below.skipTrivia fun c below => safe_call states below _ _
    · exact passed fun c _ => safe_emit _

end

/-! ### Names -/

section

variable (states : r.States n r')
include states

theorem gets_typeOf (starts : c.Starts n) : Gets r.typeOf r'.typeOf c := by
  refine starts.skip fun c below => ?_
  refine below.skipTrivia fun c below => ?_
  refine Proceeds.bind (safe_operandTokens below) fun ts c _ short => ?_
  exact (stays_value states short).bind fun _ => safe_emit _

theorem gets_construct (starts : c.Starts n) : Gets r.construct r'.construct c := by
  refine starts.skip fun c below => ?_
  refine below.skipTrivia fun c below => .cursor_bind ?_
  refine .ite (fun known => ?_) fun _ => .ite (fun failure => ?_) fun _ => (stays_warn _).safe
  · rw [Bool.and_eq_true] at known
    refine below.skip (Token.isEof_of_isIdentifier known.1) fun c below => ?_
    refine below.skipSpace fun c below => .cursor_bind (.ite (fun _ => ?_) fun _ => safe_emit _)
    refine safe_arguments_bind below fun _ _ _ _ => .ite (fun _ => ?_) fun _ => safe_emit _
    exact (stays_warn _).bind fun _ => safe_emit _
  · rw [Bool.and_eq_true] at failure
    refine below.skip (Token.isEof_of_isIdentifier failure.1) fun c below => ?_
    refine below.skipSpace fun c below => .cursor_bind (.ite (fun _ => ?_) fun _ => ?_)
    · exact (safe_argument states below).before fun _ _ => safe_emit _
    · exact Stays.bind (.pure rfl) fun _ => safe_emit _

theorem safe_laterArgument (below : c.Below n) : Safe r.laterArgument r'.laterArgument c :=
  below.skipTrivia fun _ below => safe_argument states below

theorem safe_arrayFrom (below : c.Below n) : Safe r.arrayFrom r'.arrayFrom c := by
  refine (safe_laterArgument states below).bind below fun _ c below => ?_
  split
  · refine (safe_takePlainSort below).before fun _ _ => ?_
    exact .ite (fun _ => safe_emit _) fun _ => safe_emit _
  · exact safe_emit _

/-- The same members of global objects have rules, and these get on. -/
theorem safe_global (object name : String) :
    Option.Rel (fun rule rule' => ∀ c, Cursor.Below n c → Safe rule rule' c) (r.global? object name) (r'.global? object name) := by
  have written : ∀ (f : String → String) (c : Cursor), c.Below n →
      Safe (do emit (f (← r.laterArgument))) (do emit (f (← r'.laterArgument))) c :=
    fun _ _ below => (safe_laterArgument states below).before fun _ _ => safe_emit _
  unfold global?
  split
  · refine .some fun c below => ?_
    refine below.skipSpace fun c below => .cursor_bind (.ite (fun _ => ?_) fun _ => safe_emit _)
    exact (safe_argument states below).before fun _ _ => safe_emit _
  · exact .some (written _)
  · exact .some (written _)
  · exact .some (written _)
  · exact .some fun _ below => safe_arrayFrom states below
  · exact .some (written _)
  · rcases plainGlobal? object name with _ | lua
    · exact .none
    · exact .some fun _ _ => safe_emit lua

theorem gets_name (starts : c.Starts n) : Gets r.name r'.name c := by
  refine .cursor_bind ?_
  dsimp only
  split
  · exact starts.skip fun _ _ => safe_emit _
  · exact gets_typeOf states starts
  · exact gets_construct states starts
  · exact gets_functionExpression states starts
  · have plain : Gets (do skip 1; emit (plainName c.current.text ((c.ahead 1).1.isPunct ["("])))
        (do skip 1; emit (plainName c.current.text ((c.ahead 1).1.isPunct ["("]))) c :=
      starts.skip fun _ _ => safe_emit _
    rcases found : c.member? with _ | ⟨member, offset⟩
    · exact plain
    · have inside : offset + 1 < c.rest.length := by
        unfold Cursor.member? at found
        dsimp only at found
        split at found
        · rename_i named
          cases found
          rw [Bool.and_eq_true] at named
          exact starts.sound.ahead (Token.isEof_of_isIdentifier named.2)
        · cases found
      have rules := safe_global states c.current.text member
      simp only [Option.bind_some]
      generalize r.global? c.current.text member = rule, r'.global? c.current.text member = rule' at rules ⊢
      cases rules with
      | none => exact plain
      | some safe => exact Gets.bind (gets_skip starts.sound inside (Nat.succ_pos _)) starts fun _ => safe

end

/-! ### Units of an expression -/

theorem stays_templateSegments (states : r.States n r') {parts : List TemplatePart}
    (short : ∀ source, .expr source ∈ parts → source.length < n) :
    Stays (r.templateSegments parts) (r'.templateSegments parts) c := by
  induction parts with
  | nil => exact .pure rfl
  | cons part parts ih =>
    have later := ih fun source mem => short source (List.mem_cons_of_mem _ mem)
    cases part with
    | text raw => exact later.bind fun _ => .pure rfl
    | expr source =>
      have scanned : Short n (Token.scan source) :=
        ⟨Token.proper_scan source, by rw [Token.textSize_scan]; exact short source List.mem_cons_self⟩
      exact (stays_value states scanned).bind fun _ => later.bind fun _ => .pure rfl

theorem gets_operator (sure : r.Sure n r') (starts : c.Starts n) : Gets r.operator r'.operator c := by
  refine .cursor_bind ?_
  dsimp only
  split
  · exact gets_update sure.states starts
  · exact gets_update sure.states starts
  · exact starts.skip fun _ below => safe_member sure.states below
  · exact starts.skip fun _ below => safe_compoundAssignment sure.expresses below _
  · exact starts.skip fun _ below => safe_compoundAssignment sure.expresses below _
  · exact gets_binaryOperator starts _

theorem gets_squareBracket (expresses : r.Expresses n r') (starts : c.Starts n) : Gets r.squareBracket r'.squareBracket c := by
  refine .cursor_bind (starts.skip fun c below => ?_)
  refine .ite (fun _ => safe_emit _) fun _ => (stays_emit _).bind fun _ => ?_
  refine Safe.bind (proceeds_units expresses _ below).safe below fun _ c below => ?_
  exact (safe_skipPunct below.sound _).before fun _ _ => safe_emit _

theorem gets_nullish (starts : c.Starts n) (double : (c.peek 1).isPunct ["?"] = true) : Gets nullish nullish c := by
  have inside : 2 < c.rest.length := starts.sound.succ_lt_length (Token.isEof_of_isPunct double)
  refine .cursor_bind (Gets.bind (gets_skip starts.sound inside (by omega)) starts fun _ _ _ => ?_)
  exact (stays_warn _).bind fun _ => safe_emit _

theorem gets_colon (starts : c.Starts n) : Gets colon colon c := by
  refine starts.skip fun _ _ => stays_written.bind fun _ => ?_
  split
  · exact (stays_rework _).bind fun _ => safe_emit _
  · exact safe_emit _

theorem gets_punctuation (expresses : r.Expresses n r') (starts : c.Starts n) : Gets r.punctuation r'.punctuation c := by
  refine .cursor_bind ?_
  split
  · exact gets_skip_one starts.sound starts.inside
  · exact .ite (fun double => gets_nullish starts double) fun _ => gets_conditional expresses starts
  · exact gets_squareBracket expresses starts
  · exact gets_colon starts
  · exact starts.skip fun _ _ => safe_emit _

theorem gets_compoundUnit (sure : r.Sure n r') (starts : c.Starts n) : Gets r.compoundUnit r'.compoundUnit c := by
  refine .cursor_bind ?_
  split
  · exact gets_arrowFunction sure starts ‹_›
  · split
    · exact gets_operator sure starts
    · exact gets_punctuation sure.expresses starts
    · exact gets_name sure.states starts

/-- A unit gets on, if the rules inside get on where less is to be read. -/
theorem gets_unit (sure : r.Sure c.size r') (sound : c.Sound) (inside : c.atEnd = false) : Gets r.unit r'.unit c := by
  have starts : c.Starts c.size := ⟨sound, Nat.le_refl _, inside⟩
  have passed : ∀ {α : Type} {f g : Unit → Edit α}, (∀ c' : Cursor, Safe (f ()) (g ()) c') →
      Gets (skip 1 >>= f) (skip 1 >>= g) c :=
    fun later => Gets.bind (gets_skip_one sound inside) starts fun _ c' _ => later c'
  refine .cursor_bind ?_
  dsimp only
  split
  · rename_i ended
    simp [Cursor.atEnd, Token.isEof, ended] at inside
  · exact gets_emitTrivia starts
  · exact gets_emitTrivia starts
  · exact gets_emitTrivia starts
  · rename_i parts template
    have short : ∀ source, .expr source ∈ parts → source.length < c.size := by
      intro source mem
      obtain ⟨t, ts, shape, first, current⟩ := Cursor.Sound.cons_of_inside inside
      rw [current] at template
      have proper := sound.proper (by rw [shape]; exact List.mem_cons_self) first
      have embedded := Token.embedded_of_isProper proper template mem
      rw [Cursor.size, shape, Token.textSize]
      omega
    refine passed fun c' => Stays.bind ?_ fun _ => safe_emit _
    exact (stays_templateSegments sure.states short).bind fun _ => .pure rfl
  · exact passed fun _ => safe_emit _
  · exact passed fun _ => safe_emit _
  · exact passed fun _ => (stays_regexLiteral _).bind fun _ => safe_emit _
  · exact gets_compoundUnit sure starts
  · exact gets_compoundUnit sure starts
  · exact gets_compoundUnit sure starts

end Rules

end NoteScript

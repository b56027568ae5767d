import NoteScript.Proofs.Progress

/-!
# Runs end

The rules for statements get on as those for units do, and from there the argument goes through all depths of
nesting: a rule hands less text to the rules inside it, but that a statement may hand its text to a unit once. So the
budget of a desk, two for each character, is never used up.

* `proceeds_anyStatement`: the rule for a statement.
* `Rules.Deep`, `deep_within`: rules of a depth get on where the text leaves room, and more depth changes nothing.
* `Rules.withinWatched`: the rules with a check at each call. `deep_withinWatched`: no check ever fails.
* `run_progress`: whole runs.
-/

namespace NoteScript

open Edit

open Token (Short)

namespace Rules

variable {n : Nat} {r r' : Rules} {c : Cursor}

/-! ### Declarations -/

theorem stays_declareBare (separator : String) (names : List String) :
    Stays (declareBare separator names) (declareBare separator names) c :=
  .ite (fun _ => .pure rfl) fun _ => stays_emit _

theorem safe_endDeclaration (sound : c.Sound) (separator : String) (names : List String) :
    Safe (endDeclaration separator names) (endDeclaration separator names) c :=
  (stays_declareBare _ _).bind fun _ => safe_skipPunct sound _

theorem safe_declareValue (expresses : r.Expresses n r') (below : c.Below n) (separator name : String) :
    Safe (r.declareValue separator name) (r'.declareValue separator name) c := by
  have rest : Safe (do emit (separator ++ "local " ++ name ++ " = "); r.expressionStatement true)
      (do emit (separator ++ "local " ++ name ++ " = "); r'.expressionStatement true) c :=
    (stays_emit _).bind fun _ => safe_expressionStatement expresses below _
  exact .cursor_bind (.ite (fun _ => (stays_ledger (·.addMapName name)).bind fun _ => rest) fun _ => rest)

theorem safe_declareUpTo (expresses : r.Expresses n r') {limit limit' : Nat} (below : c.Below n) (inside : c.atEnd = false)
    (enough : c.rest.length ≤ limit) (enough' : c.rest.length ≤ limit') (separator : String) (names : List String) :
    Safe (r.declareUpTo limit separator names) (r'.declareUpTo limit' separator names) c := by
  induction limit generalizing c limit' separator names with
  | zero => exact absurd below.sound.length_pos (by omega)
  | succ limit ih =>
    obtain ⟨limit', rfl⟩ := below.sound.exists_succ enough'
    have later : ∀ c', c.Advances c' → c'.atEnd = false → ∀ separator names,
        Safe (r.declareUpTo limit separator names) (r'.declareUpTo limit' separator names) c' := by
      intro c' advances inside
      have shorter := advances.length_lt
      exact ih (below.moves advances.1) inside (by omega) (by omega)
    refine Proceeds.bind (gets_next below.sound inside) fun name c₁ _ taken => ?_
    have below₁ := below.moves taken.2.1
    refine Proceeds.bind (safe_skipSpace below₁.sound) fun _ c₂ moves₂ _ => .cursor_bind (.ite (fun assigns => ?_) fun _ => ?_)
    · have below₂ := below₁.moves moves₂
      refine (stays_declareBare _ _).bind fun _ => ?_
      refine Proceeds.bind (safe_skip below₂.sound (below₂.sound.ahead (Token.isEof_of_isOperator assigns))) fun _ c₃ moves₃ _ => ?_
      have below₃ := below₂.moves moves₃
      refine Proceeds.bind (safe_skipTrivia below₃.sound) fun _ c₄ moves₄ _ => ?_
      have below₄ := below₃.moves moves₄
      refine Proceeds.bind (safe_declareValue expresses below₄ _ _) fun _ c₅ moves₅ _ => .cursor_bind ?_
      have below₅ := below₄.moves moves₅
      have advances₅ := taken.2.trans_moves (moves₂.trans (moves₃.trans (moves₄.trans moves₅)))
      refine .ite (fun _ => .ite (fun named => ?_) fun _ => safe_endDeclaration below₅.sound _ _) fun _ => .pure trivial
      refine Proceeds.bind (safe_skip_ahead below₅.sound (Token.isEof_of_isIdentifier named)) fun _ c₆ moves₆ inside => ?_
      exact later c₆ (advances₅.trans_moves moves₆) inside _ _
    · have below₂ := below₁.moves moves₂
      refine .ite (fun listed => ?_) fun _ => safe_endDeclaration below₂.sound _ _
      rw [Bool.and_eq_true] at listed
      refine Proceeds.bind (safe_skip_ahead below₂.sound (Token.isEof_of_isIdentifier listed.2)) fun _ c₃ moves₃ inside => ?_
      exact later c₃ (taken.2.trans_moves (moves₂.trans moves₃)) inside _ _

theorem gets_declaration (expresses : r.Expresses n r') (starts : c.Starts n) : Gets r.declaration r'.declaration c := by
  refine starts.skip fun c below => ?_
  refine below.skipTrivia fun c below => .cursor_bind (.ite (fun named => ?_) fun _ => ?_)
  · exact safe_declareUpTo expresses below (Token.isEof_of_isIdentifier named) (Nat.le_refl _) (Nat.le_refl _) _ _
  · exact (stays_unsupported _).bind fun _ => safe_skipStatement below.sound

/-! ### Branches and loops -/

theorem stays_closeLoop (start : Nat) (label keyword : String) :
    Stays (closeLoop start label keyword) (closeLoop start label keyword) c :=
  (stays_rework _).bind fun _ => stays_record _

theorem safe_jumpEnd (below : c.Below n) : Safe (do skipSpace; skipPunct ";") (do skipSpace; skipPunct ";") c :=
  below.skipSpace fun _ below => safe_skipPunct below.sound _

section

variable (states : r.States n r')
include states

theorem safe_condition (below : c.Below n) : Safe r.condition r'.condition c :=
  below.skipTrivia fun _ below => safe_argument states below

theorem safe_body (below : c.Below n) : Safe r.body r'.body c := by
  refine below.skipTrivia fun c below => stays_mark.bind fun _ => .cursor_bind ?_
  refine .ite (fun _ => ?_) fun _ => ?_
  · exact (safe_block states below).before fun _ _ => (stays_rework _).safe
  · exact (states c below).before fun _ _ => (stays_rework _).safe

theorem safe_elseBranches {limit limit' : Nat} (below : c.Below n)
    (enough : c.rest.length ≤ limit) (enough' : c.rest.length ≤ limit') (start : Nat) :
    Safe (r.elseBranches start limit) (r'.elseBranches start limit') c := by
  refine below.rounds (fun below later => ?_) enough enough'
  refine .cursor_bind (.ite (fun word => ?_) fun _ => .pure trivial)
  have inside := below.sound.ahead (Token.isEof_of_isWord word)
  refine Proceeds.bind (gets_skip below.sound inside (Nat.succ_pos _)) fun _ c₁ _ advances => ?_
  have below₁ := below.moves advances.1
  refine Proceeds.bind (safe_skipTrivia below₁.sound) fun _ c₂ moves₂ _ => .cursor_bind (.ite (fun again => ?_) fun _ => ?_)
  · have below₂ := below₁.moves moves₂
    refine Proceeds.bind (gets_skip_one below₂.sound (Token.isEof_of_isWord again)) fun _ c₃ moves₃ _ => ?_
    have below₃ := below₂.moves moves₃
    refine Proceeds.bind (safe_condition states below₃) fun _ c₄ moves₄ _ => (stays_rework _).bind fun _ => ?_
    refine Proceeds.bind (safe_body states (below₃.moves moves₄)) fun _ c₅ moves₅ _ => ?_
    exact later c₅ (advances.trans_moves (moves₂.trans (moves₃.trans (moves₄.trans moves₅))))
  · exact (stays_rework _).bind fun _ => safe_body states (below₁.moves moves₂)

theorem gets_ifStatement (starts : c.Starts n) : Gets r.ifStatement r'.ifStatement c := by
  refine stays_mark.bind fun _ => starts.skip fun c below => ?_
  refine (safe_condition states below).bind below fun _ c below => (stays_emit _).bind fun _ => ?_
  refine (safe_body states below).bind below fun _ c below => .cursor_bind ?_
  exact (safe_elseBranches states below (Nat.le_refl _) (Nat.le_refl _) _).before fun _ _ => (stays_rework _).safe

theorem safe_loop (below : c.Below n) (head : String) : Safe (r.loop head) (r'.loop head) c := by
  refine stays_nextLabel.bind fun _ => stays_written.bind fun _ => (stays_emit _).bind fun _ => ?_
  refine stays_mark.bind fun _ => ((safe_body states below).enclosedBy _).before fun _ _ => ?_
  split
  · exact Stays.bind ((stays_rework _).bind fun _ => stays_record _) fun _ => .pure trivial
  · exact .pure trivial

/-- What a loop goes over stands in its head. -/
theorem gets_forStatement (starts : c.Starts n) : Gets r.forStatement r'.forStatement c := by
  refine stays_mark.bind fun _ => starts.skip fun c below => ?_
  refine below.skipTrivia fun c below => safe_arguments_bind below fun head c below short => ?_
  split
  · rename_i each found
    refine (stays_value states (short.sublist (suffix_forEach found).sublist)).bind fun _ => ?_
    exact (safe_loop states below _).before fun _ _ => (stays_closeLoop _ _ _).safe
  · exact (stays_unsupported _).bind fun _ => safe_skipBody below

theorem gets_whileStatement (starts : c.Starts n) : Gets r.whileStatement r'.whileStatement c := by
  refine stays_mark.bind fun _ => starts.skip fun c below => ?_
  refine (safe_condition states below).bind below fun _ c below => ?_
  exact (safe_loop states below _).before fun _ _ => (stays_closeLoop _ _ _).safe

theorem gets_doStatement (starts : c.Starts n) : Gets r.doStatement r'.doStatement c := by
  refine stays_mark.bind fun _ => starts.skip fun c below => ?_
  refine (safe_loop states below _).bind below fun _ c below => .cursor_bind (.ite (fun word => ?_) fun _ => .throw (by simp))
  refine (safe_skip below.sound (below.sound.ahead (Token.isEof_of_isWord word))).bind below fun _ c below => ?_
  refine (safe_condition states below).bind below fun _ c below => ?_
  exact (stays_closeLoop _ _ _).bind fun _ => safe_jumpEnd below

end

/-! ### Jumps -/

theorem gets_returnStatement (expresses : r.Expresses n r') (starts : c.Starts n) :
    Gets r.returnStatement r'.returnStatement c := by
  refine starts.skip fun c below => (stays_emit _).bind fun _ => ?_
  refine below.skipSpace fun c below => .cursor_bind (.ite (fun semicolon => ?_) fun _ =>
    .ite (fun _ => .pure trivial) fun _ => ?_)
  · exact (gets_skip_one below.sound (Token.isEof_of_isPunct semicolon)).safe
  · exact (stays_emit _).bind fun _ => safe_expressionStatement expresses below _

theorem gets_breakStatement (starts : c.Starts n) : Gets breakStatement breakStatement c :=
  starts.skip fun _ below => (stays_emit _).bind fun _ => safe_jumpEnd below

theorem gets_continueStatement (starts : c.Starts n) : Gets continueStatement continueStatement c := by
  refine starts.skip fun c below => stays_get.bind fun d => ?_
  split
  · refine (stays_ledger (·.markContinued)).bind fun _ => (stays_emit _).bind fun _ => ?_
    exact (stays_record _).bind fun _ => safe_jumpEnd below
  · exact (stays_unsupported _).bind fun _ => (stays_record _).bind fun _ => safe_jumpEnd below

theorem gets_throwStatement (expresses : r.Expresses n r') (starts : c.Starts n) : Gets r.throwStatement r'.throwStatement c := by
  refine starts.skip fun c below => ?_
  refine below.skipSpace fun c below => ?_
  exact (safe_expressionStatement expresses below _).capture.before fun _ _ => safe_emit _

/-! ### Any statement -/

/-- An expression statement gets on, unless it starts at a closing bracket or the end of a line. -/
theorem proceeds_expressionStatement (expresses : r.Expresses (c.size + 1) r') (sound : c.Sound) (inside : c.atEnd = false)
    (same : c.current.isNewline = false) :
    Proceeds (r.expressionStatement false) (r'.expressionStatement false) c fun _ c' =>
      c.Advances c' ∨ c' = c ∧ c.current.isCloser = true := by
  have below : c.Below (c.size + 1) := ⟨sound, Nat.lt_succ_self _⟩
  refine Proceeds.bind (proceeds_units expresses _ below) fun _ c' moves got => ?_
  simp only [inside, Bool.false_or] at got
  by_cases stop : endsStatement false c = true
  · rw [if_pos stop] at got
    subst got
    refine .cursor_bind (.ite (fun semicolon => ?_) fun other => .pure (.inr ⟨rfl, ?_⟩))
    · exact (gets_skip_one sound inside).mono fun _ _ _ advances => .inl advances
    · simpa [endsStatement, other, Cursor.atLineEnd, same] using stop
  · rw [if_neg stop] at got
    exact (safe_skipPunct (moves.sound sound) _).mono fun _ _ moves' _ => .inl (got.trans_moves moves')

theorem gets_functionDeclaration (states : r.States c.size r') (expresses : r.Expresses (c.size + 1) r') (sound : c.Sound)
    (word : c.current.isIdentifier = true) : Gets r.functionDeclaration r'.functionDeclaration c := by
  have inside : c.atEnd = false := Token.isEof_of_isIdentifier word
  have starts : c.Starts c.size := ⟨sound, Nat.le_refl _, inside⟩
  have kind : c.current.kind = .identifier := by simpa [Token.isIdentifier] using word
  refine .cursor_bind (.ite (fun named => ?_) fun _ => ?_)
  · refine Gets.bind (gets_skip sound (sound.ahead (Token.isEof_of_isIdentifier named)) (Nat.succ_pos _)) starts fun _ c below => ?_
    refine below.skipTrivia fun c below => (safe_parameters below).bind below fun _ c below => ?_
    exact below.skipTrivia fun _ below => safe_functionLiteral states below _ _
  · refine (proceeds_expressionStatement expresses sound inside (by simp [Token.isNewline, kind])).mono fun _ c' _ got => ?_
    refine got.resolve_right ?_
    rintro ⟨-, closer⟩
    simp [Token.isCloser, Token.isPunct, kind] at closer

/-- The same words have rules, and these get on. -/
theorem gets_keyword (states : r.States c.size r') (expresses : r.Expresses (c.size + 1) r') (sound : c.Sound)
    (word : c.current.isIdentifier = true) (text : String) :
    Option.Rel (Gets · · c) (r.keyword? text) (r'.keyword? text) := by
  have inside : c.atEnd = false := Token.isEof_of_isIdentifier word
  have starts : c.Starts c.size := ⟨sound, Nat.le_refl _, inside⟩
  have within : r.Expresses c.size r' := fun c' below => expresses c' ⟨below.sound, Nat.lt_succ_of_lt below.size_lt⟩
  unfold keyword?
  split
  · exact .some (gets_declaration within starts)
  · exact .some (gets_declaration within starts)
  · exact .some (gets_declaration within starts)
  · exact .some (gets_functionDeclaration states expresses sound word)
  · exact .some (gets_ifStatement states starts)
  · exact .some (gets_forStatement states starts)
  · exact .some (gets_whileStatement states starts)
  · exact .some (gets_doStatement states starts)
  · exact .some (gets_returnStatement within starts)
  · exact .some (gets_breakStatement starts)
  · exact .some (gets_continueStatement starts)
  · exact .some (gets_throwStatement within starts)
  · exact .some (gets_unsupportedStatement starts)
  · exact .some (gets_unsupportedStatement starts)
  · exact .some (gets_unsupportedStatement starts)
  · exact .none

/-- A statement gets on or stays at a closing bracket, if the rules inside get on: that for statements where less is
to be read, that for units where no more is. -/
theorem proceeds_anyStatement (states : r.States c.size r') (expresses : r.Expresses (c.size + 1) r') (sound : c.Sound)
    (inside : c.atEnd = false) :
    Proceeds r.anyStatement r'.anyStatement c fun _ c' => c.Advances c' ∨ c' = c ∧ c.current.isCloser = true := by
  have starts : c.Starts c.size := ⟨sound, Nat.le_refl _, inside⟩
  have trivia : Proceeds emitTrivia emitTrivia c fun _ c' => c.Advances c' ∨ c' = c ∧ c.current.isCloser = true :=
    (gets_emitTrivia starts).mono fun _ _ _ advances => .inl advances
  have plain : c.current.isNewline = false →
      Proceeds r.plainStatement r'.plainStatement c fun _ c' => c.Advances c' ∨ c' = c ∧ c.current.isCloser = true :=
    fun same => stays_markStatement.bind fun _ => proceeds_expressionStatement expresses sound inside same
  refine .cursor_bind ?_
  dsimp only
  split
  · rename_i ended
    simp [Cursor.atEnd, Token.isEof, ended] at inside
  · exact trivia
  · exact trivia
  · exact trivia
  · rename_i kind
    have word : c.current.isIdentifier = true := by simp [Token.isIdentifier, kind]
    have rules := gets_keyword states expresses sound word c.current.text
    generalize r.keyword? c.current.text = rule, r'.keyword? c.current.text = rule' at rules ⊢
    cases rules with
    | none => exact plain (by simp [Token.isNewline, kind])
    | some gets => exact gets.mono fun _ _ _ advances => .inl advances
  · exact plain (beq_eq_false_iff_ne.mpr ‹_›)

/-! ### All rules at all depths -/

/-- Rules for nesting up to the depth `n` get on where the text to be read leaves room: a unit needs one depth for each
two characters, a statement one more. -/
structure Deep (n : Nat) (r r' : Rules) : Prop where
  states : r.States (n / 2) r'
  expresses : r.Expresses ((n + 1) / 2) r'

theorem States.mono {m : Nat} (states : r.States n r') (le : m ≤ n) : r.States m r' :=
  fun c below => states c ⟨below.sound, Nat.lt_of_lt_of_le below.size_lt le⟩

theorem Expresses.mono {m : Nat} (expresses : r.Expresses n r') (le : m ≤ n) : r.Expresses m r' :=
  fun c below => expresses c ⟨below.sound, Nat.lt_of_lt_of_le below.size_lt le⟩

/-- At the closing token both rules do nothing. -/
theorem safe_atEnd (ended : c.atEnd = true) : Safe r.anyStatement r'.anyStatement c ∧ Safe r.unit r'.unit c := by
  have kind : c.current.kind = .endOfText := by simpa [Cursor.atEnd, Token.isEof] using ended
  refine ⟨.cursor_bind ?_, .cursor_bind ?_⟩ <;> simp only [kind] <;> exact .pure trivial

/-- Each depth rests on the one below. -/
theorem Deep.next (deep : r.Deep n r') : r.next.Deep (n + 1) r'.next where
  states := by
    intro c below
    have room := below.size_lt
    rcases ended : c.atEnd with _ | _
    · have states : r.States c.size r' := deep.states.mono (by omega)
      exact (proceeds_anyStatement states (deep.expresses.mono (by omega)) below.sound ended).mono fun _ _ _ got _ => got
    · exact (safe_atEnd ended).1.mono fun _ _ _ _ inside => absurd inside (by simp)
  expresses := by
    intro c below
    have room := below.size_lt
    rcases ended : c.atEnd with _ | _
    · have sure : r.Sure c.size r' := ⟨deep.states.mono (by omega), deep.expresses.mono (by omega)⟩
      exact (gets_unit sure below.sound ended).mono fun _ _ _ got _ => got
    · exact (safe_atEnd ended).2.mono fun _ _ _ _ inside => absurd inside (by simp)

theorem deep_zero : r.Deep 0 r' :=
  ⟨fun _ below => absurd below.size_lt (Nat.not_lt_zero _), fun _ below => absurd below.size_lt (Nat.not_lt_zero _)⟩

/-- More depth than needed changes nothing. -/
theorem deep_within (n extra : Nat) : (within n).Deep n (within (n + extra)) := by
  induction n with
  | zero => exact deep_zero
  | succ n ih =>
    rw [Nat.succ_add]
    exact ih.next

end Rules

/-! ### Watching a run -/

namespace Cursor

/-- From a token of the script the cursor got on, and it is sound. -/
def gotOn (start here : Cursor) : Bool := here.isSound && (start.atEnd || start.pos < here.pos)

/-- The same of a statement, which may stay at a closing bracket. -/
def gotOnOrClosed (start here : Cursor) : Bool := start.gotOn here || (here == start && start.current.isCloser)

variable {c c' : Cursor}

theorem gotOn_of_advances (sound : c.Sound) (moves : c.Moves c') (got : c.atEnd = false → c.Advances c') : c.gotOn c' = true := by
  have isSound := isSound_iff.mpr (moves.sound sound)
  rcases ended : c.atEnd with _ | _
  · simp [gotOn, isSound, (got ended).2]
  · simp [gotOn, isSound, ended]

theorem gotOnOrClosed_of_advances (sound : c.Sound) (moves : c.Moves c')
    (got : c.atEnd = false → c.Advances c' ∨ c' = c ∧ c.current.isCloser = true) : c.gotOnOrClosed c' = true := by
  by_cases stays : c' = c ∧ c.current.isCloser = true
  · simp [gotOnOrClosed, stays]
  · have on := gotOn_of_advances sound moves fun inside => (got inside).resolve_right stays
    simp [gotOnOrClosed, on]

end Cursor

/-- Check an action: it has to start at a sound cursor and to get on. Otherwise it stops with the fault that no run has. -/
def Edit.watch (got : Cursor → Cursor → Bool) (action : Edit Unit) : Edit Unit := do
  let start ← cursor
  if !start.isSound then throw .tooDeep
  action
  if !got start (← cursor) then throw .tooDeep

namespace Rules

/-- Rules that check each call of a rule. -/
def watched (r : Rules) : Rules := ⟨watch Cursor.gotOnOrClosed r.statement, watch Cursor.gotOn r.expression⟩

/-- The rules for nesting up to a depth, with each call checked. -/
def withinWatched : Nat → Rules
  | 0 => exhausted
  | depth + 1 => (withinWatched depth).next.watched

variable {n : Nat} {r r' : Rules} {c : Cursor}

/-- A check that holds is not noticed. -/
theorem proceeds_watch {a b : Edit Unit} {Q : Unit → Cursor → Prop} {got : Cursor → Cursor → Bool} (sound : c.Sound)
    (h : Proceeds a b c Q) (holds : ∀ c', c.Moves c' → Q () c' → got c c' = true) : Proceeds a (watch got b) c Q := by
  intro d here
  obtain ⟨same, moves, shallow, returned⟩ := h d here
  refine ⟨?_, moves, shallow, returned⟩
  have looked : cursor d = (.ok c, d) := by rw [← here]; rfl
  have isSound := Cursor.isSound_iff.mpr sound
  rw [watch, bind_ok looked]
  simp only [isSound, Bool.not_true, Bool.false_eq_true, if_false]
  rcases run : a d with ⟨fault | _, d'⟩ <;> rw [run] at same returned moves
  · rw [bind_apply, ← same]
  · have looked' : cursor d' = (.ok d'.cursor, d') := rfl
    rw [bind_ok same.symm, bind_ok looked', holds _ moves (returned () rfl)]
    rfl

theorem Deep.watched (deep : r.Deep n r') : r.Deep n r'.watched where
  states c below := proceeds_watch below.sound (deep.states c below) fun _ => Cursor.gotOnOrClosed_of_advances below.sound
  expresses c below := proceeds_watch below.sound (deep.expresses c below) fun _ => Cursor.gotOn_of_advances below.sound

theorem deep_withinWatched (n extra : Nat) : (within n).Deep n (withinWatched (n + extra)) := by
  induction n with
  | zero => exact deep_zero
  | succ n ih =>
    rw [Nat.succ_add]
    exact ih.next.watched

/-! ### Progress at every place -/

/-- Every loop over the tokens ends by itself: with more room than it is given it does the same. -/
structure LoopsEnd (r : Rules) (d : Desk) : Prop where
  statements (limit : Nat) : d.cursor.rest.length ≤ limit → r.statementsUpTo limit d = r.statements d
  block (limit : Nat) : d.cursor.rest.length ≤ limit → r.blockUpTo limit d = r.blockUpTo d.cursor.rest.length d
  units (limit : Nat) : d.cursor.rest.length ≤ limit → ∀ stops depth,
    r.unitsUpTo stops limit depth d = r.unitsUpTo stops d.cursor.rest.length depth d
  branches (limit : Nat) : d.cursor.rest.length ≤ limit → ∀ start,
    r.elseBranches start limit d = r.elseBranches start d.cursor.rest.length d
  declarations (limit : Nat) : d.cursor.rest.length ≤ limit → d.cursor.atEnd = false → ∀ separator names,
    r.declareUpTo limit separator names d = r.declareUpTo d.cursor.rest.length separator names d
  suffixes (limit : Nat) : d.cursor.rest.length ≤ limit → operandSuffixes limit d = operandSuffixes d.cursor.rest.length d
  heads (limit : Nat) : d.cursor.rest.length ≤ limit → skipToBlockUpTo limit d = skipToBlock d
  clauses (limit : Nat) : d.cursor.rest.length ≤ limit → skipClausesUpTo limit d = skipClausesUpTo d.cursor.rest.length d
  passing (limit : Nat) : d.cursor.rest.length ≤ limit → ∀ depth,
    passStatement limit depth d.cursor = passStatement d.cursor.rest.length depth d.cursor

/-- What the rules do at a place: a unit gets on, a statement gets on or stays at a closing bracket, statements in a row are
taken up to the closing token, all unless a fault stops them, which leaves the cursor sound too. -/
structure Progress (r : Rules) (d : Desk) : Prop where
  expression : match r.expression d with
    | (.ok _, d') => d.cursor.gotOn d'.cursor = true
    | (.error fault, d') => fault ≠ .tooDeep ∧ d'.cursor.isSound = true
  statement : match r.statement d with
    | (.ok _, d') => d.cursor.gotOnOrClosed d'.cursor = true
    | (.error fault, d') => fault ≠ .tooDeep ∧ d'.cursor.isSound = true
  statements : match r.statements d with
    | (.ok _, d') => d'.cursor.isSound = true ∧ d'.cursor.atEnd = true
    | (.error fault, d') => fault ≠ .tooDeep ∧ d'.cursor.isSound = true
  loops : r.LoopsEnd d

theorem Deep.loopsEnd {d : Desk} (deep : r.Deep n r) (below : d.cursor.Below (n / 2)) : r.LoopsEnd d where
  statements limit enough := (ends_statementsUpTo deep.states below enough (Nat.le_refl _) d rfl).1
  block limit enough := (safe_blockUpTo deep.states below enough (Nat.le_refl _) d rfl).1
  units limit enough stops depth :=
    (proceeds_unitsUpTo (deep.expresses.mono (by omega)) stops below enough (Nat.le_refl _) depth d rfl).1
  branches limit enough start := (safe_elseBranches deep.states below enough (Nat.le_refl _) start d rfl).1
  declarations limit enough inside separator names :=
    (safe_declareUpTo (deep.expresses.mono (by omega)) below inside enough (Nat.le_refl _) separator names d rfl).1
  suffixes limit enough := (safe_operandSuffixes below.sound enough (Nat.le_refl _) d rfl).1
  heads limit enough := (safe_skipToBlockUpTo below enough (Nat.le_refl _) d rfl).1
  clauses limit enough := (safe_skipClausesUpTo below enough (Nat.le_refl _) d rfl).1
  passing limit enough depth := (moves_passStatement below.sound enough (Nat.le_refl _) depth).2

theorem Deep.progress {d : Desk} (deep : r.Deep n r) (below : d.cursor.Below (n / 2)) : r.Progress d where
  expression := by
    have outcome := (deep.expresses d.cursor ⟨below.sound, Nat.lt_of_lt_of_le below.size_lt (by omega)⟩).outcome
    rcases run : r.expression d with ⟨fault | x, d'⟩ <;> rw [run] at outcome
    · exact ⟨outcome.1, Cursor.isSound_iff.mpr (outcome.2.sound below.sound)⟩
    · exact Cursor.gotOn_of_advances below.sound outcome.1 outcome.2
  statement := by
    have outcome := (deep.states d.cursor below).outcome
    rcases run : r.statement d with ⟨fault | x, d'⟩ <;> rw [run] at outcome
    · exact ⟨outcome.1, Cursor.isSound_iff.mpr (outcome.2.sound below.sound)⟩
    · exact Cursor.gotOnOrClosed_of_advances below.sound outcome.1 outcome.2
  statements := by
    have outcome := (ends_statements deep.states below).outcome
    rcases run : r.statements d with ⟨fault | x, d'⟩ <;> rw [run] at outcome
    · exact ⟨outcome.1, Cursor.isSound_iff.mpr (outcome.2.sound below.sound)⟩
    · exact ⟨Cursor.isSound_iff.mpr (outcome.1.sound below.sound), outcome.2⟩
  loops := deep.loopsEnd below

end Rules

/-- The budget of a sound desk has room for what is to be read. -/
theorem Desk.below_budget {d : Desk} (sound : d.cursor.isSound = true) (extra : Nat) : d.cursor.Below ((d.budget + extra) / 2) := by
  refine ⟨Cursor.isSound_iff.mp sound, ?_⟩
  rw [Cursor.size, Desk.budget]
  omega

theorem Desk.isSound_ofTokens (source : String) (ledger : Ledger) :
    (Desk.ofTokens (Token.tokenize source) ledger).cursor.isSound = true :=
  Cursor.isSound_iff.mpr ⟨Token.scan source, rfl, Token.proper_scan source, rfl⟩

/-- Runs end. In a run over any script each call of a rule starts at a sound cursor and gets on, for the run is the same
with every call checked and with more depth than it is given. It ends at the closing token, unless a fault stops it, and
no fault says that the rules are nested too deep. The same holds at every sound place of a token list, whatever is on the
desk, and with more room the loops do the same. -/
theorem run_progress (source : String) (ledger : Ledger) :
    let start := Desk.ofTokens (Token.tokenize source) ledger
    (∀ extra, (Rules.withinWatched (start.budget + extra)).statements start = Edit.statements start) ∧
    (match Edit.statements start with
      | (.ok _, d) => d.cursor = ⟨(Token.scan source).reverse, [.eof], 0⟩
      | (.error fault, d) => fault ≠ .tooDeep ∧ start.cursor.Moves d.cursor) ∧
    ∀ d : Desk, d.cursor.isSound = true → ∀ extra, (Rules.within (d.budget + extra)).Progress d := by
  intro start
  have sound : start.cursor.isSound = true := Desk.isSound_ofTokens source ledger
  have started : Edit.statements start = (Rules.within start.budget).statements start := bind_ok rfl
  have below : start.cursor.Below (start.budget / 2) := Desk.below_budget sound 0
  refine ⟨fun extra => ?_, ?_, fun d sound extra => ?_⟩
  · rw [started]
    exact (Rules.ends_statements (Rules.deep_withinWatched start.budget extra).states below start rfl).1.symm
  · rw [started]
    have outcome := (Rules.ends_statements (Rules.deep_within start.budget 0).states below).outcome
    rcases run : (Rules.within start.budget).statements start with ⟨fault | x, d⟩ <;> rw [run] at outcome
    · exact outcome
    · obtain ⟨passed, -, split, back, sound'⟩ := outcome.1.parts below.sound
      obtain ⟨rest, ended⟩ := sound'.rest_of_atEnd outcome.2
      obtain rfl : Token.scan source = passed := List.append_cancel_right (split.trans (by rw [rest]))
      have whole : d.cursor = ⟨d.cursor.before, d.cursor.rest, d.cursor.overrun⟩ := rfl
      have first : start.cursor.before = [] := rfl
      rw [back, rest, ended, first, List.append_nil] at whole
      exact whole
  · exact (Rules.deep_within (d.budget + extra) 0).progress (Desk.below_budget sound extra)

/-- A template with a call in it and a bracket that closes nothing. -/
theorem run_progress_template :
    (Desk.ofTokens (Token.tokenize "x = `a$\x7bf(b)\x7d`.length ]") {}).cursor.isSound = true ∧
      (Rules.within (Desk.ofTokens (Token.tokenize "x = `a$\x7bf(b)\x7d`.length ]") {}).budget).Progress
        (Desk.ofTokens (Token.tokenize "x = `a$\x7bf(b)\x7d`.length ]") {}) :=
  have sound := Desk.isSound_ofTokens "x = `a$\x7bf(b)\x7d`.length ]" {}
  ⟨sound, (run_progress "x = `a$\x7bf(b)\x7d`.length ]" {}).2.2 _ sound 0⟩

end NoteScript

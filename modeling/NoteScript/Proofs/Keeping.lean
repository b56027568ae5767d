import NoteScript.Proofs.Traits
import NoteScript.Rules.Nesting

/-!
# All rules have the traits of their parts

For a lawful trait, every rule is walked through once: if the trait holds of the two rules available inside it, so it does of
the rule. Left open are the three loops and the `continue` statement, which write to the journal; `LoopsHold` collects what has
to be shown of them, and a trait that is plain has it (`holds_loops`). From that, `holds_within` goes through all depths of
nesting.
-/

namespace NoteScript.Rules

open Edit Trait

variable {T : Trait} [law : T.Lawful] {P : List Token → Prop} {r : Rules}

/-- The trait holds of both rules. -/
structure Holds (T : Trait) (r : Rules) : Prop where
  statement : T.Holds (fun _ => True) r.statement
  expression : T.Holds (fun _ => True) r.expression

/-! ### Where units end -/

theorem endsStatement_eq (atComma : Bool) {c c' : Cursor} (twin : T.Twin c c') :
    endsStatement atComma c = endsStatement atComma c' := by
  simp only [endsStatement, atPunct_eq twin, current_eq twin, atLineEnd_eq twin]

theorem endsOperand_eq {c c' : Cursor} (twin : T.Twin c c') : endsOperand c = endsOperand c' := by
  simp only [endsOperand, atPunct_eq twin, current_eq twin, atLineEnd_eq twin]

theorem endsElseBranch_eq {c c' : Cursor} (twin : T.Twin c c') : endsElseBranch c = endsElseBranch c' := by
  simp only [endsElseBranch, atPunct_eq twin, current_eq twin, atLineEnd_eq twin]

/-! ### Trivia and what is passed over -/

theorem holds_emitTrivia : T.Holds P emitTrivia := by
  refine Holds.next.bind fun t => .ite ?_ (.emit _)
  exact Holds.written.bind fun _ => .ite ((Holds.emit _).seq (.emit _)) (.emit _)

theorem holds_unsupported (what : String) : T.Holds P (unsupported what) := (Holds.warn _).seq (.emit _)

theorem stepsOn_passStatement (limit : Nat) (depth : Int) : T.StepsOn (passStatement limit depth) := by
  induction limit generalizing depth with
  | zero => exact stepsOn_advanceBy 0
  | succ limit ih =>
    intro c c' twin
    rw [passStatement, passStatement, atEnd_eq twin, current_eq twin, atPunct_eq twin, atLineEnd_eq twin]
    split_ifs
    · exact ⟨0, rfl, rfl⟩
    · exact ⟨1, rfl, rfl⟩
    · exact ⟨0, rfl, rfl⟩
    · obtain ⟨n, passed, passed'⟩ := ih _ (law.advance twin)
      exact ⟨n + 1, passed, passed'⟩

theorem holds_skipStatement : T.Holds P skipStatement := by
  refine law.move fun c c' twin => ?_
  rw [law.rest twin]
  exact stepsOn_passStatement c'.rest.length 0 twin

theorem holds_skipBody : T.Holds P skipBody := by
  refine Holds.skipTrivia.seq (.ahead (fun _ => rfl) fun _ => .ite ?_ holds_skipStatement)
  exact (Holds.group rfl).bind fun _ => .pure ()

theorem holds_skipToBlockUpTo (limit : Nat) : T.Holds P (skipToBlockUpTo limit) := by
  induction limit with
  | zero => exact .pure ()
  | succ limit ih =>
    refine .ahead (fun _ => rfl) fun _ => .ite (.pure ()) (.ite ?_ (.ite ?_ (.ite (.pure ()) ?_)))
    · exact (Holds.group rfl).bind fun _ => .pure ()
    · exact Holds.arguments.bind fun _ => ih
    · exact (Holds.skip 1).seq ih

theorem holds_skipToBlock : T.Holds P skipToBlock := .ahead (fun _ => rfl) fun _ => holds_skipToBlockUpTo _

theorem holds_skipClausesUpTo (limit : Nat) : T.Holds P (skipClausesUpTo limit) := by
  induction limit with
  | zero => exact .pure ()
  | succ limit ih =>
    refine .ahead (fun _ => rfl) fun _ => .ite ?_ (.pure ())
    exact (Holds.skip _).seq (holds_skipToBlock.bind fun _ => ih)

theorem holds_unsupportedStatement : T.Holds P unsupportedStatement := by
  refine Holds.next.bind fun _ => (holds_unsupported _).seq ?_
  refine holds_skipToBlock.bind fun _ => .ite ?_ (.pure ())
  exact .ahead (fun _ => rfl) fun _ => holds_skipClausesUpTo _

/-! ### Statements, values and blocks -/

omit law in
/-- A question about the cursor may be asked before it is kept. -/
theorem cursor_ite {α : Type} (p : Cursor → Bool) (a : Edit α) (f : Cursor → Edit α) :
    (cursor >>= fun c => if p c then a else f c) = cursor >>= fun c => if p c then a else cursor >>= f := by
  funext d
  show (if p d.cursor then a else f d.cursor) d = (if p d.cursor then a else cursor >>= f) d
  split <;> rfl

section

variable (hr : r.Holds T)
variable {tokens taken : List Token} {d d' : Desk}
include hr

/-- A statement, or the one token that no statement takes, and what follows. -/
theorem holds_statement_bind {α : Type} {a : Edit α} (ha : T.Holds P a) : T.Holds P (do
    let start ← cursor
    r.statement
    if (← cursor).pos == start.pos then emit (← Edit.next).text
    a) := by
  refine law.since (f := fun stuck => if stuck then do emit (← Edit.next).text; a else a) hr.statement.any fun _ => .ite ?_ ha
  exact Holds.next.bind fun _ => (Holds.emit _).seq ha

theorem holds_statementsUpTo (limit : Nat) : T.Holds P (r.statementsUpTo limit) := by
  induction limit with
  | zero => exact .pure ()
  | succ limit ih =>
    rw [statementsUpTo, cursor_ite]
    exact .ahead (fun _ => rfl) fun _ => .ite (.pure ()) (holds_statement_bind hr ih)

theorem holds_statements : T.Holds P r.statements := .ahead (fun _ => rfl) fun _ => holds_statementsUpTo hr _

theorem holds_value (reads : ∀ L, P L → Token.ReadFrom L tokens) : T.Holds P (r.value tokens) :=
  law.nested reads (holds_statements hr)

theorem holds_valueOf {part : List Token} (inside : tokens <:+: part) : T.Holds (fun L => P L ∧ part <:+: L) (r.value tokens) :=
  holds_value hr fun _ h => .part (inside.trans h.2)

theorem holds_blockUpTo (limit : Nat) : T.Holds P (r.blockUpTo limit) := by
  induction limit with
  | zero => exact .pure false
  | succ limit ih =>
    rw [blockUpTo, cursor_ite]
    refine .ahead (fun _ => rfl) fun _ => .ite (.pure false) ?_
    rw [cursor_ite]
    refine .ahead (fun _ => rfl) fun _ => .ite ?_ (holds_statement_bind hr ih)
    exact (Holds.skip 1).seq (.pure true)

theorem holds_block : T.Holds P r.block := law.block (holds_blockUpTo hr)

/-! ### Units in a row -/

theorem holds_unitsUpTo {stops : Cursor → Bool} (same : ∀ ⦃c c'⦄, T.Twin c c' → stops c = stops c') (limit : Nat)
    (depth : Int) : T.Holds P (r.unitsUpTo stops limit depth) := by
  induction limit generalizing depth with
  | zero => exact .pure ()
  | succ limit ih =>
    refine .ask (fun c c' twin => ?_) fun _ => .ite (.pure ()) ?_
    · have passed (here : Cursor) : here.passedSince c = here.passedSince c' := by
        simp only [Cursor.passedSince, law.rest twin]
      rw [atEnd_eq twin, same twin]
      simp only [passed]
    · exact hr.expression.any.bind fun _ => .ahead (fun _ => rfl) fun _ => ih _

theorem holds_units {stops : Cursor → Bool} (same : ∀ ⦃c c'⦄, T.Twin c c' → stops c = stops c') :
    T.Holds P (r.units stops) := .ahead (fun _ => rfl) fun _ => holds_unitsUpTo hr same _ 0

theorem holds_expressionStatement (atComma : Bool) : T.Holds P (r.expressionStatement atComma) :=
  (holds_units hr fun _ _ => endsStatement_eq atComma).bind fun _ => .skipPunct _

theorem holds_rightSide : T.Holds P r.rightSide := holds_units hr fun _ _ => endsOperand_eq

/-! ### Functions -/

theorem holds_functionBody : T.Holds P r.functionBody := (law.function (holds_block hr)).bind fun _ => .pure ()

theorem holds_functionLiteral (head params : String) : T.Holds P (r.functionLiteral head params) := by
  refine Holds.mark.bind fun _ => (Holds.emit _).seq (.ahead (fun _ => rfl) fun _ => .ite ?_ ?_)
  · exact (holds_functionBody hr).bind fun _ => (Holds.rework _).seq (.rework _)
  · exact (Holds.rework _).seq (.rework _)

omit hr in
theorem holds_parameters : T.Holds P parameters := .ahead (fun _ => rfl) fun _ => .ite (Holds.arguments.bind fun _ => .pure _) (.pure _)

theorem holds_functionExpression : T.Holds P r.functionExpression := by
  have rest : T.Holds P (do let params ← parameters; skipTrivia; r.functionLiteral "function" params) :=
    holds_parameters.bind fun _ => Holds.skipTrivia.seq (holds_functionLiteral hr _ _)
  refine (Holds.skip 1).seq (Holds.skipTrivia.seq (.ahead (fun _ => rfl) fun _ => .ite ?_ rest))
  exact (Holds.skip 1).seq (Holds.skipTrivia.seq rest)

theorem holds_arrowFunction (arrow : Cursor.Arrow) : T.Holds P (r.arrowFunction arrow) := by
  refine (Holds.skip _).seq (Holds.skipTrivia.seq (.ahead (fun _ => rfl) fun _ => ?_))
  refine .ite (holds_functionLiteral hr _ _) ?_
  exact (Holds.emit _).seq ((holds_rightSide hr).bind fun _ => .emit _)

omit hr in
theorem holds_bracketed {opener closer : String} (pair : Token.openerOf closer = some opener) :
    T.Holds P (bracketed opener closer) := by
  refine .ahead (fun _ => rfl) fun _ => (Holds.group pair).bind fun _ => ?_
  exact .ahead (fun _ => rfl) fun _ => .pure _

omit law hr in
theorem takes_bracketed {opener closer : String}
    (run : bracketed opener closer d = (.ok taken, d')) : d.cursor.Takes taken d'.cursor := by
  obtain ⟨start, e, ⟨⟩, run⟩ := bind_eq_ok.mp run
  obtain ⟨inside, e', ran, run⟩ := bind_eq_ok.mp run
  have moved : { d with cursor := (d.cursor.group opener closer).2 } = e' := congrArg Prod.snd ran
  subst moved
  cases run
  exact Cursor.Takes.of_stepsOn (fun c => c.group_stepsOn opener closer) d.cursor

omit hr in
theorem stepsOn_passMember : T.StepsOn passMember := by
  intro c c' twin
  have spaces : T.StepsOn fun c => c.advance.skipSpace := (stepsOn_advanceBy 1).comp (stepsOn_run _)
  obtain ⟨n, passed, passed'⟩ := spaces twin
  dsimp only at passed passed'
  rw [passMember, passMember, passed, passed', current_eq (twin_advanceBy twin n)]
  split_ifs
  · exact ⟨n + 1, (c.advanceBy_add n 1).symm, (c'.advanceBy_add n 1).symm⟩
  · exact ⟨n, rfl, rfl⟩

omit hr in
theorem holds_operandSuffixes (limit : Nat) : T.Holds P (operandSuffixes limit) := by
  induction limit with
  | zero => exact .pure []
  | succ limit ih =>
    refine .ahead (fun _ => rfl) fun _ => .ite ?_ (.ite ?_ (.ite ?_ (.pure [])))
    · refine (law.move stepsOn_passMember).bind fun _ => .ahead (fun _ => rfl) fun _ => ?_
      exact ih.bind fun _ => .pure _
    · exact (holds_bracketed rfl).bind fun _ => ih.bind fun _ => .pure _
    · exact (holds_bracketed rfl).bind fun _ => ih.bind fun _ => .pure _

omit law hr in
theorem passMember_stepsOn : Cursor.StepsOn passMember := by
  intro c
  unfold passMember
  dsimp only
  split_ifs
  · exact (Cursor.stepsOn_advance.comp Cursor.stepsOn_skipSpace).comp Cursor.stepsOn_advance c
  · exact Cursor.stepsOn_advance.comp Cursor.stepsOn_skipSpace c

omit law hr in
theorem takes_operandSuffixes (limit : Nat)
    (run : operandSuffixes limit d = (.ok taken, d')) : d.cursor.Takes taken d'.cursor := by
  induction limit generalizing d taken with
  | zero =>
    cases run
    exact .nil _
  | succ limit ih =>
    obtain ⟨start, e, ⟨⟩, run⟩ := bind_eq_ok.mp run
    have brackets {opener closer : String} (run : (do
        return (← bracketed opener closer) ++ (← operandSuffixes limit)) d = (.ok taken, d')) :
        d.cursor.Takes taken d'.cursor := by
      obtain ⟨first, e, ran, run⟩ := bind_eq_ok.mp run
      obtain ⟨others, e', ran', ⟨⟩⟩ := bind_eq_ok.mp run
      exact (takes_bracketed ran).append (ih ran')
    split_ifs at run with member index called
    · obtain ⟨_, e, ⟨⟩, run⟩ := bind_eq_ok.mp run
      obtain ⟨_, e, ⟨⟩, run⟩ := bind_eq_ok.mp run
      obtain ⟨others, e, ran, ⟨⟩⟩ := bind_eq_ok.mp run
      exact (Cursor.Takes.of_stepsOn passMember_stepsOn d.cursor).append (ih ran)
    · exact brackets run
    · exact brackets run
    · cases run
      exact .nil _

omit law hr in
theorem takes_operandTokens (run : operandTokens d = (.ok taken, d')) : d.cursor.Takes taken d'.cursor := by
  obtain ⟨start, e, ⟨⟩, run⟩ := bind_eq_ok.mp run
  split_ifs at run with bracket ended
  · exact takes_bracketed run
  · cases run
    exact .nil _
  · obtain ⟨t, e, ⟨⟩, run⟩ := bind_eq_ok.mp run
    obtain ⟨others, e, ran, ⟨⟩⟩ := bind_eq_ok.mp run
    exact (Cursor.Takes.advance (by simpa using ended)).append (takes_operandSuffixes _ ran)

omit hr in
theorem holds_operandTokens : T.Holds P operandTokens := by
  refine .ahead (fun _ => rfl) fun _ => .ite (holds_bracketed rfl) (.ite (.pure []) ?_)
  exact Holds.next.bind fun _ => (holds_operandSuffixes _).bind fun _ => .pure _

/-- The operand of a prefix operator is a part of the list, and its value is written. -/
theorem holds_operandValue (f : String → String) : T.Holds P (do emit (f (← r.value (← operandTokens)))) := by
  refine law.known holds_operandTokens (fun _ _ _ run => (takes_operandTokens run).isInfix) fun _ => ?_
  exact (holds_valueOf hr List.infix_rfl).bind fun _ => .emit _

/-! ### Operators and conditionals -/

omit hr in
/-- The layout in front of an operator is that of the token next to it. -/
theorem holds_binaryOperator (op : String) : T.Holds P (binaryOperator op) := by
  refine .ask (fun c c' twin => ?_) fun _ => (Holds.skip 1).seq (Holds.written.bind fun _ => .ite (.emit _) (.emit _))
  have peek : c.peek 1 = c'.peek 1 := ahead_eq (f := (·.peek 1)) (fun _ => rfl) twin
  rw [ahead_eq (f := (·.ahead 1)) (fun _ => rfl) twin, peek, law.peekBack twin]

theorem holds_compoundAssignment (op : String) : T.Holds P (r.compoundAssignment op) := by
  refine .ahead (fun _ => rfl) fun _ => Holds.skipTrivia.seq ?_
  exact (Holds.capture (holds_rightSide hr)).bind fun _ => .rework _

theorem holds_update : T.Holds P r.update := by
  refine .ask (fun c c' twin => by rw [law.followsOperand twin]) fun _ => Holds.next.bind fun _ => .ite (.emit _) ?_
  exact Holds.skipSpace.seq (holds_operandValue hr _)

theorem holds_conditional : T.Holds P r.conditional := by
  have yes : T.Holds P r.thenBranch :=
    (Holds.capture ((holds_units hr fun _ _ => ahead_eq fun _ => rfl).bind fun _ => .skipPunct _)).bind fun _ => .pure _
  have no : T.Holds P r.elseBranch := (Holds.capture (holds_units hr fun _ _ => endsElseBranch_eq)).bind fun _ => .pure _
  refine (Holds.skip 1).seq ((Holds.takeOperand _).bind fun _ => ?_)
  exact yes.bind fun _ => no.bind fun _ => .emit _

/-! ### Method calls -/

omit hr in
theorem holds_regexLiteral (literal : String) : T.Holds P (regexLiteral literal) := by
  unfold regexLiteral
  split
  · exact .pure _
  · exact (Holds.warn _).seq (.pure _)

theorem holds_argument : T.Holds P r.argument := .arguments_bind fun _ => holds_valueOf hr List.infix_rfl

theorem holds_valueList {groups : List (List Token)} (reads : ∀ L, P L → ∀ tokens ∈ groups, Token.ReadFrom L tokens) :
    T.Holds P (r.valueList groups) := by
  induction groups with
  | nil => exact .pure []
  | cons tokens groups ih =>
    refine (holds_value hr fun L holds => reads L holds tokens List.mem_cons_self).bind fun _ => ?_
    exact (ih fun L holds part mem => reads L holds part (List.mem_cons_of_mem _ mem)).bind fun _ => .pure _

theorem holds_callPush : T.Holds P r.callPush := by
  refine (Holds.takeOperand _).bind fun _ => .arguments_bind fun inside => (holds_valueList hr ?_).bind fun _ => .emit _
  intro L part tokens mem
  exact .part ((Token.infix_of_mem_splitOn (List.mem_of_mem_filter mem)).trans part.2)

theorem holds_callSet : T.Holds P r.callSet := by
  refine .arguments_bind fun inside => ?_
  obtain ⟨key, value⟩ := Token.infix_splitFirst inside
  exact (holds_valueOf hr key).bind fun _ => (holds_valueOf hr value).bind fun _ => .emit _

omit hr in
theorem holds_afterMapName : T.Holds P afterMapName := law.look (fun _ _ _ _ => rfl) fun _ => .pure _

theorem holds_callDelete : T.Holds P r.callDelete :=
  holds_afterMapName.bind fun _ => .ite ((holds_argument hr).bind fun _ => .emit _) (.emit _)

omit hr in
theorem holds_takePlainSort : T.Holds P takePlainSort := by
  refine .ahead (fun _ => rfl) fun c => ?_
  split
  · exact (Holds.skip _).seq (.pure true)
  · exact .pure false

omit hr in
theorem holds_callKeys : T.Holds P callKeys := by
  refine Holds.arguments.bind fun _ => (Holds.takeOperand _).bind fun _ => ?_
  exact holds_takePlainSort.bind fun _ => .emit _

theorem holds_replacement (reads : ∀ L, P L → Token.ReadFrom L tokens) : T.Holds P (r.replacement tokens) := by
  have value := holds_value hr reads
  unfold replacement
  split
  · exact .ite (.pure _) value
  · exact value

theorem holds_callReplace (all : Bool) : T.Holds P (r.callReplace all) := by
  refine .arguments_bind fun inside => ?_
  obtain ⟨pattern, replacement⟩ := Token.infix_splitFirst inside
  have value : T.Holds (fun L => P L ∧ inside <:+: L) (r.value (Token.splitFirst inside).1) := holds_valueOf hr pattern
  refine (holds_replacement hr fun _ part => .part (replacement.trans part.2)).bind fun new => ?_
  dsimp only
  split
  · refine .ite ((holds_regexLiteral _).bind fun _ => .emit _) (.ite (.emit _) (value.bind fun _ => .emit _))
  · exact value.bind fun _ => .emit _

/-- A call that takes its argument first and its receiver then. -/
theorem holds_argumentReceiver {f : String → String → Edit Unit} (hf : ∀ part list, T.Holds P (f part list)) :
    T.Holds P (do let part ← r.argument; let list ← receiver; f part list) :=
  (holds_argument hr).bind fun _ => (Holds.takeOperand _).bind fun _ => hf _ _

omit hr in
theorem holds_callPlain (lua : String) : T.Holds P (callPlain lua) := Holds.arguments.bind fun _ => .emit _

omit hr in
theorem holds_callToString : T.Holds P callToString := Holds.arguments.bind fun _ => (Holds.takeOperand _).bind fun _ => .emit _

omit hr in
/-- Whether a sort is a statement of its own is seen on the sheet and ahead. -/
theorem holds_sortBy (list order note : String) : T.Holds P (sortBy list order note) := by
  refine law.look (fun d c c' twin => ?_) fun _ => .ite (.emit _) (.emit _)
  have ends : c.endsStatement = c'.endsStatement := by
    obtain ⟨n, skipped, skipped'⟩ := stepsOn_run (·.kind == .space) twin
    have behind := twin_advanceBy twin n
    rw [← skipped, ← skipped'] at behind
    unfold Cursor.endsStatement Cursor.skipSpace
    dsimp only
    rw [current_eq behind, atPunct_eq behind, ahead_eq (f := (·.ahead 1)) (fun _ => rfl) behind]
  dsimp only
  rw [ends]
  rfl

theorem holds_callSort : T.Holds P r.callSort := by
  refine .arguments_bind fun inside => .ite ?_ (.emit _)
  refine (holds_valueOf hr List.infix_rfl).bind fun _ => (Holds.takeOperand _).bind fun _ => ?_
  split
  · exact holds_sortBy _ _ _
  · exact (Holds.warn _).seq (holds_sortBy _ _ _)

theorem holds_call (method : Method) (name : String) : T.Holds P (r.call method name) := by
  have lookup (f : String → String) : T.Holds P (do emit (f (← r.argument))) := (holds_argument hr).bind fun _ => .emit _
  cases method with
  | push => exact holds_callPush hr
  | has | get | split => exact lookup _
  | set => exact holds_callSet hr
  | delete => exact holds_callDelete hr
  | keys => exact holds_callKeys
  | trim | toLowerCase | toUpperCase => exact holds_callPlain _
  | replace | replaceAll => exact holds_callReplace hr _
  | join | includes | startsWith | endsWith => exact holds_argumentReceiver hr fun _ _ => .emit _
  | toString => exact holds_callToString
  | sort => exact holds_callSort hr
  | filter | chain => exact .emit _

theorem holds_member : T.Holds P r.member := by
  refine Holds.skipTrivia.seq (.ahead (fun _ => rfl) fun here => .ite (.emit _) (.ite ?_ ?_))
  · exact (Holds.skip 1).seq ((Holds.takeOperand _).bind fun _ => .emit _)
  · -- the test for a map variable is an action of its own, made only behind the name `size`
    refine holds_afterMapName.bind fun _ => .ite ?_ ?_
    · exact (Holds.skip 1).seq ((Holds.takeOperand _).bind fun _ => .emit _)
    · split
      · exact (Holds.skip 1).seq (Holds.skipTrivia.seq (holds_call hr _ _))
      · exact (Holds.skip 1).seq (.emit _)

/-! ### Names -/

theorem holds_construct : T.Holds P r.construct := by
  refine (Holds.skip 1).seq (Holds.skipTrivia.seq (.ahead (fun _ => rfl) fun _ => ?_))
  refine .ite ?_ (.ite ?_ (.warn _))
  · refine (Holds.skip 1).seq (Holds.skipSpace.seq (.ahead (fun _ => rfl) fun _ => ?_))
    refine .ite (Holds.arguments.bind fun _ => .ite ?_ (.emit _)) (.emit _)
    exact (Holds.warn _).seq (.emit _)
  · refine (Holds.skip 1).seq (Holds.skipSpace.seq (.ahead (fun _ => rfl) fun _ => ?_))
    refine .ite ((holds_argument hr).bind fun _ => .emit _) ?_
    exact (Holds.pure _).bind fun _ => .emit _

theorem holds_laterArgument : T.Holds P r.laterArgument := Holds.skipTrivia.seq (holds_argument hr)

theorem holds_arrayFrom : T.Holds P r.arrayFrom := by
  refine (holds_laterArgument hr).bind fun _ => ?_
  split
  · exact holds_takePlainSort.bind fun _ => .ite (.emit _) (.emit _)
  · exact .emit _

theorem holds_global {object name : String} {rule : Edit Unit} (found : r.global? object name = some rule) : T.Holds P rule := by
  have written (f : String → String) : T.Holds P (do emit (f (← r.laterArgument))) :=
    (holds_laterArgument hr).bind fun _ => .emit _
  unfold global? at found
  split at found
  · cases found
    refine Holds.skipSpace.seq (.ahead (fun _ => rfl) fun _ => .ite ?_ (.emit _))
    exact (holds_argument hr).bind fun _ => .emit _
  · cases found
    exact written _
  · cases found
    exact written _
  · cases found
    exact written _
  · cases found
    exact holds_arrayFrom hr
  · cases found
    exact written _
  · obtain ⟨lua, _, rfl⟩ := Option.map_eq_some_iff.mp found
    exact .emit lua

theorem holds_name : T.Holds P r.name := by
  refine .ahead (fun _ => rfl) fun here => ?_
  dsimp only
  split
  · exact (Holds.skip 1).seq (.emit _)
  · exact (Holds.skip 1).seq (Holds.skipTrivia.seq (holds_operandValue hr _))
  · exact holds_construct hr
  · exact holds_functionExpression hr
  · split
    · rename_i rule offset found
      obtain ⟨_, _, paired⟩ := Option.bind_eq_some_iff.mp found
      obtain ⟨_, global, ⟨⟩⟩ := Option.map_eq_some_iff.mp paired
      exact (Holds.skip _).seq (holds_global hr global)
    · exact (Holds.skip 1).seq (.emit _)

/-! ### Units of an expression -/

theorem holds_templateSegments {parts : List TemplatePart}
    (reads : ∀ L, P L → ∀ inner, .expr inner ∈ parts → Token.ReadFrom L (Token.scan inner)) :
    T.Holds P (r.templateSegments parts) := by
  induction parts with
  | nil => exact .pure []
  | cons part parts ih =>
    have others := ih fun L holds inner mem => reads L holds inner (List.mem_cons_of_mem _ mem)
    cases part with
    | text raw => exact others.bind fun _ => .pure _
    | expr inner =>
      refine (holds_value hr fun L holds => reads L holds inner List.mem_cons_self).bind fun _ => ?_
      exact others.bind fun _ => .pure _

/-- A template at the cursor embeds what is read on its own. -/
theorem holds_template {c : Cursor} {parts : List TemplatePart} (template : c.current.kind = .template parts) :
    T.Holds (fun L => P L ∧ c.tokens = L) (r.template parts) := by
  refine (holds_templateSegments hr ?_).bind fun _ => .pure _
  rintro L ⟨-, rfl⟩ inner mem
  have inside : c.atEnd = false := by simp [Cursor.atEnd, Token.isEof, template]
  exact .embedded (Cursor.current_mem inside) template mem

theorem holds_operator : T.Holds P r.operator := by
  refine .ahead (fun _ => rfl) fun _ => ?_
  dsimp only
  split
  · exact holds_update hr
  · exact holds_update hr
  · exact (Holds.skip 1).seq (holds_member hr)
  · exact (Holds.skip 1).seq (holds_compoundAssignment hr _)
  · exact (Holds.skip 1).seq (holds_compoundAssignment hr _)
  · exact holds_binaryOperator _

theorem holds_squareBracket : T.Holds P r.squareBracket := by
  refine .ask (fun c c' twin => by rw [law.followsOperand twin]) fun _ => (Holds.skip 1).seq (.ite (.emit _) ?_)
  refine (Holds.emit _).seq ((holds_units hr fun _ _ => ahead_eq fun _ => rfl).bind fun _ => ?_)
  exact (Holds.skipPunct _).seq (.emit _)

omit hr in
theorem holds_nullish : T.Holds P nullish := by
  refine .ask (fun c c' twin => ?_) fun _ => (Holds.skip 2).seq ((Holds.warn _).seq (.emit _))
  have peek : c.peek 2 = c'.peek 2 := ahead_eq (f := (·.peek 2)) (fun _ => rfl) twin
  rw [law.peekBack twin, peek]

omit hr in
theorem holds_colon : T.Holds P colon := by
  refine (Holds.skip 1).seq (Holds.written.bind fun _ => ?_)
  split
  · exact (Holds.rework _).seq (.emit _)
  · exact .emit _

theorem holds_punctuation : T.Holds P r.punctuation := by
  refine .ahead (fun _ => rfl) fun _ => ?_
  split
  · exact .skip 1
  · exact .ite holds_nullish (holds_conditional hr)
  · exact holds_squareBracket hr
  · exact holds_colon
  · exact (Holds.skip 1).seq (.emit _)

omit law hr in
theorem arrow?_ofTokens (c : Cursor) : c.arrow? = (Cursor.ofTokens c.rest).arrow? := by
  have following : c.advance.rest = (Cursor.ofTokens c.rest).advance.rest := by
    unfold Cursor.advance Cursor.ofTokens
    cases c.rest <;> rfl
  unfold Cursor.arrow?
  rw [following]
  rfl

theorem holds_compoundUnit : T.Holds P r.compoundUnit := by
  refine .ahead (fun c => by rw [arrow?_ofTokens c]; rfl) fun _ => ?_
  split
  · exact holds_arrowFunction hr _
  · split
    · exact holds_operator hr
    · exact holds_punctuation hr
    · exact holds_name hr

theorem holds_unit : T.Holds P r.unit := by
  refine law.ask (fun _ _ twin => by rw [current_eq twin]) fun _ => ?_
  dsimp only
  split
  · exact .pure ()
  · exact holds_emitTrivia
  · exact holds_emitTrivia
  · exact holds_emitTrivia
  · rename_i parts template
    exact (Holds.skip 1).seq ((holds_template hr template).bind fun _ => .emit _)
  · exact (Holds.skip 1).seq (.emit _)
  · exact (Holds.skip 1).seq (.emit _)
  · exact (Holds.skip 1).seq ((holds_regexLiteral _).bind fun _ => .emit _)
  · exact holds_compoundUnit hr
  · exact holds_compoundUnit hr
  · exact holds_compoundUnit hr

/-! ### Declarations -/

omit hr in
theorem holds_declareBare (separator : String) (names : List String) : T.Holds P (declareBare separator names) :=
  .ite (.pure ()) (.emit _)

theorem holds_declareValue (separator name : String) : T.Holds P (r.declareValue separator name) := by
  have rest : T.Holds P (do
      emit (separator ++ "local " ++ name ++ " = ")
      r.expressionStatement true) :=
    (Holds.emit _).seq (holds_expressionStatement hr _)
  exact .ahead (fun _ => rfl) fun _ => .ite ((law.addMapName _).seq rest) rest

theorem holds_declareUpTo (limit : Nat) (separator : String) (names : List String) :
    T.Holds P (r.declareUpTo limit separator names) := by
  induction limit generalizing separator names with
  | zero => exact (holds_declareBare _ _).seq (.skipPunct _)
  | succ limit ih =>
    refine Holds.next.bind fun _ => Holds.skipSpace.seq (.ahead (fun _ => rfl) fun _ => .ite ?_ ?_)
    · refine (holds_declareBare _ _).seq ((Holds.skip _).seq ?_)
      refine Holds.skipTrivia.seq ((holds_declareValue hr _ _).seq ?_)
      refine .ahead (fun _ => rfl) fun _ => .ite (.ite ?_ ((holds_declareBare _ _).seq (.skipPunct _))) (.pure ())
      exact (Holds.skip _).seq (ih _ _)
    · exact .ite ((Holds.skip _).seq (ih _ _)) ((holds_declareBare _ _).seq (.skipPunct _))

theorem holds_declaration : T.Holds P r.declaration := by
  refine (Holds.skip 1).seq (Holds.skipTrivia.seq (.ahead (fun _ => rfl) fun _ => ?_))
  refine .ite (holds_declareUpTo hr _ _ _) ?_
  exact (holds_unsupported _).seq holds_skipStatement

theorem holds_functionDeclaration : T.Holds P r.functionDeclaration := by
  refine .ahead (fun _ => rfl) fun _ => .ite ?_ (holds_expressionStatement hr _)
  refine (Holds.skip _).seq (Holds.skipTrivia.seq (holds_parameters.bind fun _ => ?_))
  exact Holds.skipTrivia.seq (holds_functionLiteral hr _ _)

/-! ### Control flow -/

theorem holds_condition : T.Holds P r.condition := Holds.skipTrivia.seq (holds_argument hr)

theorem holds_body : T.Holds P r.body := by
  refine Holds.skipTrivia.seq (Holds.mark.bind fun _ => .ahead (fun _ => rfl) fun _ => .ite ?_ ?_)
  · exact (holds_block hr).seq (.rework _)
  · exact hr.statement.any.bind fun _ => .rework _

theorem holds_elseBranches (start limit : Nat) : T.Holds P (r.elseBranches start limit) := by
  induction limit with
  | zero => exact .pure ()
  | succ limit ih =>
    refine .ahead (fun _ => rfl) fun _ => .ite ?_ (.pure ())
    refine (Holds.skip _).seq (Holds.skipTrivia.seq (.ahead (fun _ => rfl) fun _ => .ite ?_ ?_))
    · refine (Holds.skip 1).seq ((holds_condition hr).bind fun _ => ?_)
      exact (Holds.rework _).seq ((holds_body hr).seq ih)
    · exact (Holds.rework _).seq (holds_body hr)

theorem holds_ifStatement : T.Holds P r.ifStatement := by
  refine Holds.mark.bind fun _ => (Holds.skip 1).seq ((holds_condition hr).bind fun _ => ?_)
  refine (Holds.emit _).seq ((holds_body hr).seq (.ahead (fun _ => rfl) fun _ => ?_))
  exact (holds_elseBranches hr _ _).bind fun _ => .rework _

theorem holds_returnStatement : T.Holds P r.returnStatement := by
  refine (Holds.skip 1).seq ((Holds.emit _).seq (Holds.skipSpace.seq ?_))
  refine .ahead (fun _ => rfl) fun _ => .ite (.skip 1) (.ite (.pure ()) ?_)
  exact (Holds.emit _).seq (holds_expressionStatement hr _)

omit hr in
theorem holds_passEnd : T.Holds P (do skipSpace; skipPunct ";") := Holds.skipSpace.seq (.skipPunct _)

omit hr in
theorem holds_breakStatement : T.Holds P breakStatement := (Holds.skip 1).seq ((Holds.emit _).seq holds_passEnd)

theorem holds_throwStatement : T.Holds P r.throwStatement := by
  refine (Holds.skip 1).seq (Holds.skipSpace.seq ?_)
  exact (Holds.capture (holds_expressionStatement hr _)).bind fun _ => .emit _

theorem holds_plainStatement : T.Holds P r.plainStatement := law.markStatement.seq (holds_expressionStatement hr _)

end

/-! ### All rules at all depths -/

/-- What is left to be shown: the trait holds of the loops if it does of the rules inside them, and of a jump. -/
structure LoopsHold (T : Trait) : Prop where
  forStatement {r : Rules} : r.Holds T → T.Holds (fun _ => True) r.forStatement
  whileStatement {r : Rules} : r.Holds T → T.Holds (fun _ => True) r.whileStatement
  doStatement {r : Rules} : r.Holds T → T.Holds (fun _ => True) r.doStatement
  continueStatement : T.Holds (fun _ => True) continueStatement

section Plain

variable {S : Trait} [plain : S.Plain]

theorem holds_closeLoop (start : Nat) (label keyword : String) : S.Holds P (closeLoop start label keyword) :=
  (Holds.rework _).seq (plain.record _)

theorem holds_continueStatement : S.Holds P continueStatement := by
  refine (Holds.skip 1).seq (plain.look (fun _ _ _ _ => rfl) fun _ => ?_)
  split
  · refine plain.markContinued.seq ((Holds.emit _).seq ?_)
    exact (plain.record _).seq holds_passEnd
  · exact (holds_unsupported _).seq ((plain.record _).seq holds_passEnd)

variable (hr : r.Holds S)
include hr

theorem holds_loop (head : String) : S.Holds P (r.loop head) := by
  refine plain.nextLabel.bind fun label => Holds.written.bind fun out => (Holds.emit _).seq ?_
  refine Holds.mark.bind fun start => (plain.enclosedBy _ (holds_body hr)).bind fun after => ?_
  split
  · refine Trait.Holds.bind ?_ fun _ => .pure _
    exact (Holds.rework _).seq (plain.record _)
  · exact .pure _

theorem holds_whileStatement : S.Holds P r.whileStatement := by
  refine Holds.mark.bind fun _ => (Holds.skip 1).seq ((holds_condition hr).bind fun _ => ?_)
  exact (holds_loop hr _).bind fun _ => holds_closeLoop _ _ _

theorem holds_forStatement : S.Holds P r.forStatement := by
  refine Holds.mark.bind fun _ => (Holds.skip 1).seq (Holds.skipTrivia.seq (.arguments_bind fun head => ?_))
  split
  · rename_i each found
    refine (holds_valueOf hr (suffix_forEach found).isInfix).bind fun _ => ?_
    exact (holds_loop hr _).bind fun _ => holds_closeLoop _ _ _
  · exact (holds_unsupported _).seq holds_skipBody

theorem holds_doStatement : S.Holds P r.doStatement := by
  refine Holds.mark.bind fun _ => (Holds.skip 1).seq ((holds_loop hr _).bind fun label => ?_)
  refine plain.condition (f := fun offset => do
    skip (offset + 1)
    closeLoop _ label ("until not (" ++ (← r.condition) ++ ")")
    skipSpace
    skipPunct ";") fun _ => (Holds.skip _).seq ((holds_condition hr).bind fun _ => ?_)
  exact (holds_closeLoop _ _ _).seq holds_passEnd

omit hr in
theorem holds_loops : LoopsHold S where
  forStatement := holds_forStatement
  whileStatement := holds_whileStatement
  doStatement := holds_doStatement
  continueStatement := holds_continueStatement

end Plain

variable (loops : LoopsHold T)
include loops

theorem holds_keyword (hr : r.Holds T) {word : String} {rule : Edit Unit} (found : r.keyword? word = some rule) :
    T.Holds P rule := by
  unfold keyword? at found
  split at found <;> cases found
  · exact holds_declaration hr
  · exact holds_declaration hr
  · exact holds_declaration hr
  · exact holds_functionDeclaration hr
  · exact holds_ifStatement hr
  · exact (loops.forStatement hr).any
  · exact (loops.whileStatement hr).any
  · exact (loops.doStatement hr).any
  · exact holds_returnStatement hr
  · exact holds_breakStatement
  · exact loops.continueStatement.any
  · exact holds_throwStatement hr
  · exact holds_unsupportedStatement
  · exact holds_unsupportedStatement
  · exact holds_unsupportedStatement

theorem holds_anyStatement (hr : r.Holds T) : T.Holds P r.anyStatement := by
  refine .ahead (fun _ => rfl) fun c => ?_
  dsimp only
  split
  · exact .pure ()
  · exact holds_emitTrivia
  · exact holds_emitTrivia
  · exact holds_emitTrivia
  · rcases found : r.keyword? c.current.text with _ | rule
    · exact holds_plainStatement hr
    · exact holds_keyword loops hr found
  · exact holds_plainStatement hr

/-- The trait holds of the rules at every depth of nesting. -/
theorem holds_within (depth : Nat) : (within depth).Holds T := by
  induction depth with
  | zero => exact ⟨law.tooDeep, law.tooDeep⟩
  | succ depth ih => exact ⟨holds_anyStatement loops ih, holds_unit ih⟩

end NoteScript.Rules

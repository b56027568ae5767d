import NoteScript.Proofs.Designators

/-!
# Updates

An update stands in front of what it changes or behind it. Behind it, the text of the designator is written already and
the signs go after it. In front of it, the tokens of the designator are collected, worked on apart, and the text that
comes back is written with the signs after it. Both come to the same text.

* `Update.statement_inFront`, `Update.statement_behind`: what either form does.
* `convertTokens_update`: both are converted and transpiled alike.
-/

namespace NoteScript

open Edit Buffer Text Token

/-- The updates by one. -/
inductive Update where
  | increment
  | decrement

namespace Update

def text : Update → String
  | increment => "++"
  | decrement => "--"

/-- An update in front of a designator, as a statement. -/
def inFront (u : Update) (p : Designator) : List Token := .sign u.text :: p.tokens ++ [.mark ";"]

/-- An update behind a designator, as a statement. -/
def behind (u : Update) (p : Designator) : List Token := p.tokens ++ [.sign u.text, .mark ";"]

/-- The text of an update, or why there is none. -/
def outcome (u : Update) (p : Designator) : Except String String :=
  if p.isCalledGlobal then .error "expected '(' (line 1)" else .ok (p.lua ++ u.text ++ " ")

theorem readable (u : Update) (divides : Bool) : Readable divides (.sign u.text) = true := by
  cases u <;> cases divides <;> decide

theorem legible_inFront (u : Update) (p : Designator) : AlwaysLegible (u.inFront p) := by
  have operand : AlwaysLegible (p.tokens ++ [Token.mark ";"]) := p.legible (alwaysLegible_nil.mark ";" rfl) rfl
  refine operand.cons u.readable fun t ht => ?_
  cases ht
  rfl

theorem legible_behind (u : Update) (p : Designator) : AlwaysLegible (u.behind p) := by
  refine p.legible ((alwaysLegible_nil.mark ";" rfl).cons u.readable fun t ht => ?_) rfl
  cases ht
  rfl

theorem grouped_inFront (u : Update) (p : Designator) : Grouped false (u.inFront p) :=
  .plain rfl (p.grouped_tokens.append (.plain rfl .nil))

theorem grouped_behind (u : Update) (p : Designator) : Grouped false (u.behind p) :=
  p.grouped_tokens.append (.plain rfl (.plain rfl .nil))

end Update

/-! ### One statement -/

/-- Where a script is one expression statement, all statements come to what that one comes to. -/
theorem Leads.statements {r : Rules} {t : Token} {ts : List Token} {loops : LoopState} {outcome : Except Fault Unit} {s' : Spot}
    (begins : (∃ x : Name, t = .word x.text) ∨ (∃ text, t = .sign text) ∨ t = .mark ";")
    (h : Leads (r.expressionStatement false) ⟨[], t :: ts, [], loops⟩ (.result outcome) s')
    (ended : outcome = .ok () → s'.before ≠ [] ∧ s'.rest = [.eof]) :
    Leads r.next.statements ⟨[], t :: ts, [], loops⟩ (.result outcome) s' := by
  have inside : t.isEof = false := by rcases begins with ⟨x, rfl⟩ | ⟨text, rfl⟩ | rfl <;> rfl
  have plain : Leads r.plainStatement ⟨[], t :: ts, [], loops⟩ (.result outcome) s' := Takes.markStatement.leads.seq h
  have statement : Leads r.anyStatement ⟨[], t :: ts, [], loops⟩ (.result outcome) s' := by
    refine Takes.cursor.leads.seq ?_
    rcases begins with ⟨x, rfl⟩ | ⟨text, rfl⟩ | rfl
    · simp only [Spot.current_mk, x.keyword?_eq_none, Option.getD_none]
      exact plain
    · exact plain
    · exact plain
  refine Takes.cursor.leads.seq (Takes.cursor.leads.seq ?_)
  rw [if_neg (by simpa [Spot.cursor, Cursor.atEnd, Cursor.current] using inside)]
  cases outcome with
  | error fault => exact statement.stop
  | ok =>
    obtain ⟨moved, finished⟩ := ended rfl
    have onward : (s'.cursor.pos == (Spot.mk [] (t :: ts) [] loops).cursor.pos) = false := by
      simpa [Cursor.pos, Spot.cursor] using moved
    refine statement.seq (Takes.cursor.leads.seq ?_)
    rw [onward]
    exact (Statements.statementsUpTo_ended (by rw [Spot.cursor, finished]; rfl) _).leads

theorem Leads.value {r : Rules} {t : Token} {ts before rest : List Token} {out : Buffer} {outcome : Except Fault Unit} {s : Spot}
    (h : Leads (r.expressionStatement false) ⟨[], t :: ts ++ [Token.eof], [], s.loops⟩ (.result outcome)
      ⟨before, rest, out, s.loops⟩) (begins : (∃ x : Name, t = .word x.text) ∨ (∃ text, t = .sign text) ∨ t = .mark ";")
    (ended : outcome = .ok () → before ≠ [] ∧ rest = [.eof]) :
    Leads (r.next.value (t :: ts)) s (.result (outcome.map fun _ => strip out.text)) s :=
  Leads.nested (h.statements begins ended)

namespace Designator

variable {d : Nat}

/-- Alone on a sheet of its own, a designator is converted to its translation. -/
theorem leads_value (p : Designator) (known : p.isCalledGlobal = false) (enough : ∀ s ∈ p.selectors, s.depth ≤ d + 1)
    (s : Spot) : Leads ((Rules.within (d + 2)).value p.tokens) s (.result (.ok p.lua)) s := by
  have written : Passes (Rules.within (d + 1)) (Rules.endsStatement false) 0 ⟨[], p.tokens ++ [Token.eof], [], s.loops⟩ 0 _ :=
    p.passes known enough (calm_of_mem (by simp)) ⟨rfl, rfl⟩ rfl s.loops
  have alone : Leads ((Rules.within (d + 1)).expressionStatement false) ⟨[], p.tokens ++ [Token.eof], [], s.loops⟩
      (.result (.ok ())) ⟨p.tokens.reverse, [.eof], p.written, s.loops⟩ :=
    (written.leads_units (.inl rfl)).seq (Takes.skipPunct_neg rfl).leads
  have value : Leads ((Rules.within (d + 2)).value p.tokens) s (.result (.ok (strip p.lua))) s :=
    alone.value (.inl ⟨p.head, rfl⟩) fun _ => ⟨by simp [tokens], rfl⟩
  rwa [p.strip_lua] at value

/-- A designator that has to be called stops the run on a sheet of its own too. -/
theorem value_halts (p : Designator) (known : p.isCalledGlobal = true) (d : Nat) (s : Spot) :
    ∃ fault, fault.message = "expected '(' (line 1)" ∧
      Leads ((Rules.within (d + 2)).value p.tokens) s (.result (.error fault)) s := by
  have calm : Calm (Rules.endsStatement false) := calm_of_mem (by simp)
  have uncalled : Uncalled [.eof] := ⟨rfl, rfl⟩
  obtain ⟨fault, ⟨before, rest, out, loops⟩, message, rfl, stopped⟩ := p.halts (d := d) known calm uncalled s.loops
  have alone : Leads ((Rules.within (d + 1)).expressionStatement false) ⟨[], p.tokens ++ [Token.eof], [], s.loops⟩
      (.result (.error fault)) ⟨before, rest, out, s.loops⟩ := stopped.stop
  exact ⟨fault, message, alone.value (.inl ⟨p.head, rfl⟩) (by simp)⟩

end Designator

/-! ### Collecting an operand -/

namespace Selector

variable {before rest : List Token} {out : Buffer} {loops : LoopState}

theorem passedSince_tokens (s : Selector) : (Spot.mk (s.tokens.reverse ++ before) rest out loops).cursor.passedSince
      (Spot.mk before (s.tokens ++ rest) out loops).cursor = s.tokens :=
  Walk.passedSince_eq rfl

/-- The brackets of an index are found, so that its tokens are taken as they are. -/
theorem takes_index (e : Expr .expression) :
    Takes (Rules.bracketed "[" "]") ⟨before, (index e).tokens ++ rest, out, loops⟩ (index e).tokens
      ⟨(index e).tokens.reverse ++ before, rest, out, loops⟩ := by
  have closed : Cursor.Closed "[" "]" e.tokens := e.grouped_tokens.closed (by decide)
  have group : Takes (Edit.group "[" "]") ⟨before, .mark "[" :: (e.tokens ++ Token.mark "]" :: rest), out, loops⟩ e.tokens
      ⟨.mark "]" :: (e.tokens.reverse ++ Token.mark "[" :: before), rest, out, loops⟩ :=
    .group rfl (closed.groupFrom_eq rfl rfl rest)
  have split : .mark "[" :: (e.tokens ++ Token.mark "]" :: rest) = (index e).tokens ++ rest := by simp [tokens]
  have back : .mark "]" :: (e.tokens.reverse ++ Token.mark "[" :: before) = (index e).tokens.reverse ++ before := by
    simp [tokens]
  rw [split, back] at group
  refine Takes.cursor.bind (group.bind (Takes.cursor.bind ?_))
  rw [passedSince_tokens]
  exact .pure _

theorem length_le (selectors : List Selector) : selectors.length ≤ (allTokens selectors).length := by
  induction selectors with
  | nil => exact Nat.le_refl 0
  | cons s later ih => cases s <;> simp only [allTokens, tokens, List.length_append, List.length_cons] <;> omega

/-- The members and indices behind a name are collected, up to a semicolon. -/
theorem takes_suffixes (selectors : List Selector) {limit : Nat} (enough : selectors.length ≤ limit) :
    Takes (Rules.operandSuffixes limit) ⟨before, allTokens selectors ++ Token.mark ";" :: rest, out, loops⟩ (allTokens selectors)
      ⟨(allTokens selectors).reverse ++ before, .mark ";" :: rest, out, loops⟩ := by
  induction selectors generalizing before limit with
  | nil =>
    cases limit with
    | zero => exact .pure []
    | succ limit => exact Takes.cursor.bind (.pure [])
  | cons s later ih =>
    obtain ⟨limit, rfl⟩ : ∃ limit', limit = limit' + 1 := ⟨limit - 1, by simp at enough; omega⟩
    have others : Takes (Rules.operandSuffixes limit)
        ⟨s.tokens.reverse ++ before, allTokens later ++ Token.mark ";" :: rest, out, loops⟩ _ _ :=
      ih (Nat.le_of_succ_le_succ enough)
    rw [allTokens, List.append_assoc, List.reverse_append, List.append_assoc]
    refine Takes.cursor.bind ?_
    cases s with
    | member f =>
      have moved : Takes (Edit.move Rules.passMember)
          ⟨before, (member f).tokens ++ (allTokens later ++ Token.mark ";" :: rest), out, loops⟩ ()
          ⟨(member f).tokens.reverse ++ before, allTokens later ++ Token.mark ";" :: rest, out, loops⟩ := .move rfl
      refine moved.bind (Takes.cursor.bind ?_)
      rw [passedSince_tokens]
      exact others.bind (.pure _)
    | index e => exact (takes_index e).bind (others.bind (.pure _))

end Selector

/-- The tokens of a designator are collected as an operand. -/
theorem Designator.takes_operandTokens (p : Designator) {before rest : List Token} {out : Buffer} {loops : LoopState} :
    Takes Rules.operandTokens ⟨before, p.tokens ++ Token.mark ";" :: rest, out, loops⟩ p.tokens
      ⟨p.tokens.reverse ++ before, .mark ";" :: rest, out, loops⟩ := by
  have next : Takes next ⟨before, p.tokens ++ Token.mark ";" :: rest, out, loops⟩ (.word p.head.text)
      ⟨.word p.head.text :: before, Selector.allTokens p.selectors ++ Token.mark ";" :: rest, out, loops⟩ := .next _
  have enough : p.selectors.length ≤ (p.tokens ++ Token.mark ";" :: rest).length := by
    have := Selector.length_le p.selectors
    simp only [tokens, List.length_append, List.length_cons]
    omega
  have call : (Spot.mk before (p.tokens ++ Token.mark ";" :: rest) out loops).cursor.atPunct ["("] = false := rfl
  have inside : (Spot.mk before (p.tokens ++ Token.mark ";" :: rest) out loops).cursor.atEnd = false := rfl
  have back : p.tokens.reverse ++ before = (Selector.allTokens p.selectors).reverse ++ Token.word p.head.text :: before := by
    simp [tokens]
  rw [back]
  refine Takes.cursor.bind ?_
  rw [call, inside]
  exact next.bind ((Selector.takes_suffixes p.selectors enough).bind (.pure _))

/-! ### Both forms -/

namespace Update

variable {r : Rules} {before rest : List Token} {out : Buffer} {loops : LoopState}

/-- The signs of an update are taken by the rule for it. -/
theorem leads_update (u : Update) {b : Edit Unit} {s' : Spot}
    (h : Leads r.update ⟨before, .sign u.text :: rest, out, loops⟩ b s') :
    Leads r.unit ⟨before, .sign u.text :: rest, out, loops⟩ b s' := by
  refine Takes.cursor.leads.seq (Takes.cursor.leads.seq ?_)
  simp only [Spot.cursor, Rules.arrow?_operator]
  refine Takes.cursor.leads.seq ?_
  cases u with
  | increment | decrement => exact h

/-- In front of a designator, an update works on its tokens apart and writes what comes back with the signs behind it. -/
theorem leads_inFront (u : Update) (p : Designator) :
    Leads r.unit ⟨[], u.inFront p ++ rest, [], loops⟩ (r.value p.tokens >>= fun operand => emit (operand ++ u.text ++ " "))
      ⟨p.tokens.reverse ++ [.sign u.text], .mark ";" :: rest, [], loops⟩ := by
  have shape : u.inFront p ++ rest = .sign u.text :: (p.tokens ++ Token.mark ";" :: rest) := by simp [inFront]
  rw [shape]
  refine u.leads_update (Takes.cursor.leads.seq ((Takes.next _).leads.seq ?_))
  have space : Takes skipSpace ⟨[.sign u.text], p.tokens ++ Token.mark ";" :: rest, [], loops⟩ ()
      ⟨[.sign u.text], p.tokens ++ Token.mark ";" :: rest, [], loops⟩ := .skipSpace [] rfl rfl
  exact space.leads.seq (p.takes_operandTokens.leads.seq .refl)

/-- Behind an operand, an update is written behind its text. -/
theorem leads_target (u : Update) (target : Cursor.operandIn true before = true) :
    Leads r.unit ⟨before, .sign u.text :: rest, out, loops⟩ (.result (.ok ()))
      ⟨.sign u.text :: before, rest, out ++ [u.text ++ " "], loops⟩ := by
  have follows : (Spot.mk before (.sign u.text :: rest) out loops).cursor.followsOperand true = true := target
  refine u.leads_update (Takes.cursor.leads.seq ((Takes.next _).leads.seq ?_))
  rw [if_pos follows]
  exact (Takes.emit _).leads

/-- A semicolon alone writes nothing. -/
theorem value_semicolon (d : Nat) (s : Spot) : Leads ((Rules.within (d + 1)).value [.mark ";"]) s (.result (.ok "")) s := by
  have units : Leads ((Rules.within d).units (Rules.endsStatement false)) ⟨[], [.mark ";", .eof], [], s.loops⟩
      (.result (.ok ())) ⟨[], [.mark ";", .eof], [], s.loops⟩ := Passes.refl.leads_units (.inr rfl)
  have stops : Leads ((Rules.within d).expressionStatement false) ⟨[], [Token.mark ";"] ++ [Token.eof], [], s.loops⟩
      (.result (.ok ())) ⟨[.mark ";"], [.eof], [], s.loops⟩ := units.seq (Takes.skipPunct_pos rfl).leads
  have written := stops.value (.inr (.inr rfl)) fun _ => ⟨by simp, rfl⟩
  have empty : strip (Buffer.text []) = "" := by decide
  rwa [empty] at written

/-- Behind a word that an operand has to follow, an update takes the semicolon for its operand. -/
theorem leads_semicolon (u : Update) (target : Cursor.operandIn true before = false)
    (nothing : ∀ s, Leads (r.value [.mark ";"]) s (.result (.ok "")) s) :
    Leads r.unit ⟨before, [.sign u.text, .mark ";", .eof], out, loops⟩ (.result (.ok ()))
      ⟨.mark ";" :: .sign u.text :: before, [.eof], out ++ [u.text ++ " "], loops⟩ := by
  have follows : ¬(Spot.mk before [.sign u.text, .mark ";", .eof] out loops).cursor.followsOperand true = true :=
    Bool.eq_false_iff.mp target
  have space : Takes skipSpace ⟨.sign u.text :: before, [.mark ";", .eof], out, loops⟩ ()
      ⟨.sign u.text :: before, [.mark ";", .eof], out, loops⟩ := .skipSpace [] rfl rfl
  have operand : Takes Rules.operandTokens ⟨.sign u.text :: before, [.mark ";", .eof], out, loops⟩ [.mark ";"]
      ⟨.mark ";" :: .sign u.text :: before, [.eof], out, loops⟩ :=
    Takes.cursor.bind ((Takes.next _).bind ((Takes.cursor.bind (.pure [])).bind (.pure _)))
  have signs : Takes (emit ("" ++ u.text ++ " ")) ⟨.mark ";" :: .sign u.text :: before, [.eof], out, loops⟩ ()
      ⟨.mark ";" :: .sign u.text :: before, [.eof], out ++ [u.text ++ " "], loops⟩ := by
    rw [String.empty_append]
    exact .emit _
  refine u.leads_update (Takes.cursor.leads.seq ((Takes.next _).leads.seq ?_))
  rw [if_neg follows]
  exact space.leads.seq (operand.leads.seq ((nothing _).seq signs.leads))

end Update

/-- The last token of a designator is no trivia. -/
theorem Designator.exists_last (p : Designator) : ∃ last older, p.tokens.reverse = last :: older ∧ last.isTrivia = false := by
  have all : ∀ (selectors : List Selector) (front : Token) (before : List Token), front.isTrivia = false →
      ∃ last older, (Selector.allTokens selectors).reverse ++ front :: before = last :: older ∧ last.isTrivia = false := by
    intro selectors
    induction selectors with
    | nil => exact fun front before solid => ⟨front, before, rfl, solid⟩
    | cons s later ih =>
      intro front before _
      obtain ⟨older, back, solid⟩ := s.exists_last (front :: before)
      rw [Selector.allTokens, List.reverse_append, List.append_assoc, back]
      exact ih s.last older solid
  rw [tokens, List.reverse_cons]
  exact all p.selectors (.word p.head.text) [] rfl

namespace Update

variable {d : Nat} {loops : LoopState}

theorem statement_inFront (u : Update) (p : Designator) (known : p.isCalledGlobal = false)
    (enough : ∀ s ∈ p.selectors, s.depth ≤ d + 1) :
    Leads ((Rules.within (d + 3)).expressionStatement false) ⟨[], u.inFront p ++ [Token.eof], [], loops⟩ (.result (.ok ()))
      ⟨.mark ";" :: (p.tokens.reverse ++ [.sign u.text]), [.eof], [p.lua ++ u.text ++ " "], loops⟩ := by
  have unit : Leads (Rules.within (d + 2)).unit ⟨[], u.inFront p ++ [Token.eof], [], loops⟩ (.result (.ok ()))
      ⟨p.tokens.reverse ++ [.sign u.text], [.mark ";", .eof], [p.lua ++ u.text ++ " "], loops⟩ :=
    (u.leads_inFront p).trans ((p.leads_value known enough _).seq (Takes.emit _).leads)
  have flat : bracketDepth (.sign u.text :: p.tokens) = 0 := by
    simpa [bracketDepth, isOpener, isCloser, isPunct] using p.grouped_tokens.bracketDepth_eq
  have step : Passes (Rules.within (d + 3)) (Rules.endsStatement false) 0 ⟨[], u.inFront p ++ [Token.eof], [], loops⟩
      (0 + bracketDepth (.sign u.text :: p.tokens)) _ :=
    .step (.sign u.text :: p.tokens) unit (by simp [inFront]) (by simp) rfl (fun _ => calm_of_mem (by simp) _ _ _ rfl)
  rw [flat] at step
  exact (step.leads_units (.inr rfl)).seq (Takes.skipPunct_pos rfl).leads

theorem statement_behind (u : Update) (p : Designator) (known : p.isCalledGlobal = false)
    (enough : ∀ s ∈ p.selectors, s.depth ≤ d + 1) :
    Leads ((Rules.within (d + 3)).expressionStatement false) ⟨[], u.behind p ++ [Token.eof], [], loops⟩ (.result (.ok ()))
      ⟨.mark ";" :: .sign u.text :: p.tokens.reverse, [.eof], p.written ++ [u.text ++ " "], loops⟩ := by
  have calm : Calm (Rules.endsStatement false) := calm_of_mem (by simp)
  have written : Passes (Rules.within (d + 3)) (Rules.endsStatement false) 0
      ⟨[], p.tokens ++ [.sign u.text, .mark ";", .eof], [], loops⟩ 0
      ⟨p.tokens.reverse, [.sign u.text, .mark ";", .eof], p.written, loops⟩ :=
    p.passes known (fun s hs => Nat.le_trans (enough s hs) (by omega)) calm ⟨rfl, rfl⟩ (by cases u <;> rfl) loops
  have shape : u.behind p ++ [Token.eof] = p.tokens ++ [.sign u.text, .mark ";", .eof] := by simp [behind]
  obtain ⟨last, older, back, solid⟩ := p.exists_last
  have behind : Cursor.operandIn true p.tokens.reverse = Cursor.endsTarget last := by simp [back, Cursor.operandIn, solid]
  rw [shape]
  cases target : Cursor.endsTarget last with
  | true =>
    have signs : Passes (Rules.within (d + 3)) (Rules.endsStatement false) 0
        ⟨p.tokens.reverse, [.sign u.text, .mark ";", .eof], p.written, loops⟩ 0
        ⟨.sign u.text :: p.tokens.reverse, [.mark ";", .eof], p.written ++ [u.text ++ " "], loops⟩ :=
      .step [.sign u.text] (u.leads_target (behind.trans target)) rfl (by simp) rfl fun _ => calm _ _ _ rfl
    exact ((written.trans signs).leads_units (.inr rfl)).seq (Takes.skipPunct_pos rfl).leads
  | false =>
    have signs : Passes (Rules.within (d + 3)) (Rules.endsStatement false) 0
        ⟨p.tokens.reverse, [.sign u.text, .mark ";", .eof], p.written, loops⟩ 0
        ⟨.mark ";" :: .sign u.text :: p.tokens.reverse, [.eof], p.written ++ [u.text ++ " "], loops⟩ :=
      .step [.sign u.text, .mark ";"] (u.leads_semicolon (behind.trans target) (value_semicolon (d + 1))) rfl (by simp) rfl
        fun _ => calm _ _ _ rfl
    exact ((written.trans signs).leads_units (.inl rfl)).seq (Takes.skipPunct_neg rfl).leads

/-- The statements of a script come to the outcome of an update. -/
def Comes (u : Update) (p : Designator) (d : Nat) (ts : List Token) (loops : LoopState) : Prop :=
  ∃ outcome s', Leads (Rules.within (d + 4)).statements ⟨[], ts ++ [Token.eof], [], loops⟩ (.result outcome) s' ∧
    (outcome.map fun _ => s'.out.text).mapError Fault.message = u.outcome p

theorem comes_inFront (u : Update) (p : Designator) (enough : ∀ s ∈ p.selectors, s.depth ≤ d + 1) (loops : LoopState) :
    u.Comes p d (u.inFront p) loops := by
  cases known : p.isCalledGlobal with
  | false =>
    refine ⟨_, _, (u.statement_inFront p known enough).statements (.inr (.inl ⟨_, rfl⟩)) fun _ => ⟨by simp, rfl⟩, ?_⟩
    simp [outcome, known, Buffer.text, Except.map, Except.mapError]
  | true =>
    obtain ⟨fault, message, stopped⟩ := p.value_halts known d ⟨p.tokens.reverse ++ [.sign u.text], [.mark ";", .eof], [], loops⟩
    have unit : Leads (Rules.within (d + 2)).unit ⟨[], u.inFront p ++ [Token.eof], [], loops⟩ (.result (.error fault))
        ⟨p.tokens.reverse ++ [.sign u.text], [.mark ";", .eof], [], loops⟩ := (u.leads_inFront p).trans stopped.stop
    have statement : Leads ((Rules.within (d + 3)).expressionStatement false) ⟨[], u.inFront p ++ [Token.eof], [], loops⟩
        (.result (.error fault)) ⟨p.tokens.reverse ++ [.sign u.text], [.mark ";", .eof], [], loops⟩ :=
      (unit.units_stop rfl (calm_of_mem (by simp) _ _ _ rfl)).stop
    refine ⟨_, _, statement.statements (.inr (.inl ⟨_, rfl⟩)) (by simp), ?_⟩
    simp [outcome, known, message, Except.map, Except.mapError]

theorem comes_behind (u : Update) (p : Designator) (enough : ∀ s ∈ p.selectors, s.depth ≤ d + 1) (loops : LoopState) :
    u.Comes p d (u.behind p) loops := by
  cases known : p.isCalledGlobal with
  | false =>
    refine ⟨_, _, (u.statement_behind p known enough).statements (.inl ⟨p.head, rfl⟩) fun _ => ⟨by simp, rfl⟩, ?_⟩
    simp [outcome, known, Designator.lua, Buffer.text, Except.map, Except.mapError, String.append_assoc]
  | true =>
    have calm : Calm (Rules.endsStatement false) := calm_of_mem (by simp)
    have uncalled : Uncalled [.sign u.text, .mark ";", .eof] := ⟨rfl, rfl⟩
    obtain ⟨fault, s', message, -, stopped⟩ := p.halts (d := d + 2) known calm uncalled loops
    have shape : u.behind p ++ [Token.eof] = p.tokens ++ [.sign u.text, .mark ";", .eof] := by simp [behind]
    have statement : Leads ((Rules.within (d + 3)).expressionStatement false) ⟨[], u.behind p ++ [Token.eof], [], loops⟩
        (.result (.error fault)) s' := by
      rw [shape]
      exact stopped.stop
    refine ⟨_, _, statement.statements (.inl ⟨p.head, rfl⟩) (by simp), ?_⟩
    simp [outcome, known, message, Except.map, Except.mapError]

end Update

/-! ### Whole scripts -/

theorem Selector.depth_le (s : Selector) : s.depth ≤ s.tokens.length := by
  cases s with
  | member f => exact Nat.le_succ 1
  | index e =>
    have := e.depth_le
    simp only [depth, tokens, List.length_append, List.length_cons, List.length_nil]
    omega

theorem Designator.depth_le (p : Designator) : ∀ s ∈ p.selectors, s.depth ≤ p.tokens.length := by
  have all : ∀ selectors : List Selector, ∀ s ∈ selectors, s.depth ≤ (Selector.allTokens selectors).length := by
    intro selectors
    induction selectors with
    | nil => simp
    | cons s later ih =>
      have first := s.depth_le
      rw [Selector.allTokens, List.length_append]
      exact List.forall_mem_cons.mpr ⟨by omega, fun s hs => Nat.le_trans (ih s hs) (by omega)⟩
  exact fun s hs => Nat.le_succ_of_le (all p.selectors s hs)

namespace Update

/-- A script whose statements come to the outcome of an update, whatever the depth, is converted to it. -/
theorem converts (u : Update) (p : Designator) {ts : List Token} (legible : AlwaysLegible ts) (size : p.tokens.length + 2 ≤ ts.length)
    (comes : ∀ {d}, (∀ s ∈ p.selectors, s.depth ≤ d + 1) → ∀ loops, u.Comes p d ts loops) (ledger : Ledger) :
    (convertTokens (tokenize (sourceText ts)) ledger).1.mapError Fault.message = u.outcome p ∧
      (convertTokens (tokenize (sourceText ts)) ledger).2.diagnostics = ledger.diagnostics := by
  have long := length_le_textSize (legible false)
  obtain ⟨d, budget⟩ : ∃ d, 2 * textSize (ts ++ [Token.eof]) + 2 = d + 4 :=
    ⟨2 * textSize (ts ++ [Token.eof]) - 2, by rw [textSize_append]; omega⟩
  have enough : ∀ s ∈ p.selectors, s.depth ≤ d + 1 := by
    intro s hs
    have := p.depth_le s hs
    rw [textSize_append] at budget
    omega
  obtain ⟨outcome, s', run, same⟩ := comes enough ⟨ledger.labels, []⟩
  rw [← budget] at run
  obtain ⟨start, journal, result⟩ := run (Desk.ofTokens (ts ++ [Token.eof]) ledger) none ledger.journal rfl
  rw [(ReadBack.of_legible legible).tokenize_eq, convertTokens_of_statements result]
  exact ⟨same, rfl⟩

end Update

/-- Scripts whose brackets pair and that are converted alike are transpiled alike. -/
theorem transpile_congr {source source' : String} (nonempty : source ≠ "") (nonempty' : source' ≠ "")
    (brackets : checkBrackets (tokenize source) = .ok ()) (brackets' : checkBrackets (tokenize source') = .ok ())
    (same : (convertTokens (tokenize source) {}).1.mapError Fault.message =
      (convertTokens (tokenize source') {}).1.mapError Fault.message)
    (reported : (convertTokens (tokenize source) {}).2.diagnostics = (convertTokens (tokenize source') {}).2.diagnostics) :
    (transpile source).code? = (transpile source').code? ∧ (transpile source).error? = (transpile source').error? ∧
      (transpile source).diagnostics = (transpile source').diagnostics := by
  have text : source.isEmpty = false := by simpa using nonempty
  have text' : source'.isEmpty = false := by simpa using nonempty'
  simp only [transpile, text, text', Bool.false_eq_true, if_false, brackets, brackets']
  generalize convertTokens (tokenize source) {} = run at same reported
  generalize convertTokens (tokenize source') {} = run' at same reported
  obtain ⟨fault | code, ledger⟩ := run <;> obtain ⟨fault' | code', ledger'⟩ := run'
  · have message : fault.message = fault'.message := Except.error.inj same
    exact ⟨rfl, congrArg (fun message => some ("Transpile error: " ++ message)) message, reported⟩
  · cases same
  · cases same
  · cases Except.ok.inj same
    exact ⟨rfl, rfl, reported⟩

/-- An update gives the same in front of a designator and behind it: the text of the designator with the signs and a blank
behind it, and nothing to report. If the designator starts with a member that has a meaning in calls only, both forms stop
with the same message. So both are transpiled alike. -/
theorem convertTokens_update (u : Update) (p : Designator) (ledger : Ledger) :
    (convertTokens (tokenize (sourceText (u.inFront p))) ledger).1.mapError Fault.message = u.outcome p ∧
    (convertTokens (tokenize (sourceText (u.behind p))) ledger).1.mapError Fault.message = u.outcome p ∧
    (convertTokens (tokenize (sourceText (u.inFront p))) ledger).2.diagnostics = ledger.diagnostics ∧
    (convertTokens (tokenize (sourceText (u.behind p))) ledger).2.diagnostics = ledger.diagnostics ∧
    (transpile (sourceText (u.inFront p))).code? = (transpile (sourceText (u.behind p))).code? ∧
    (transpile (sourceText (u.inFront p))).error? = (transpile (sourceText (u.behind p))).error? ∧
    (transpile (sourceText (u.inFront p))).diagnostics = (transpile (sourceText (u.behind p))).diagnostics := by
  have front : ∀ ledger, _ := u.converts p (u.legible_inFront p) (by simp [Update.inFront]) (u.comes_inFront p)
  have back : ∀ ledger, _ := u.converts p (u.legible_behind p) (by simp [Update.behind]) (u.comes_behind p)
  have read : ReadBack (u.inFront p) := .of_legible (u.legible_inFront p)
  have read' : ReadBack (u.behind p) := .of_legible (u.legible_behind p)
  have brackets := (u.grouped_inFront p).checkBrackets_eq
  have brackets' := (u.grouped_behind p).checkBrackets_eq
  rw [← read.tokenize_eq] at brackets
  rw [← read'.tokenize_eq] at brackets'
  refine ⟨(front ledger).1, (back ledger).1, (front ledger).2, (back ledger).2, ?_⟩
  exact transpile_congr (read.sourceText_ne_empty (by simp [Update.inFront])) (read'.sourceText_ne_empty (by simp [Update.behind]))
    brackets brackets' ((front {}).1.trans (back {}).1.symm) ((front {}).2.trans (back {}).2.symm)

end NoteScript

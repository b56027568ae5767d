import NoteScript.Proofs.Actions
import NoteScript.Rules.Basic

/-!
# The course of an action

Where an action is known to return, it is described by what it does to the place in the tokens, the text
written and the loops: `Takes a s x s'` says that from any desk at the spot `s`, `a` returns `x` and leaves
the same desk at the spot `s'`. Nothing else on the desk matters to it or is changed, but for the mark of
the current statement and the journal. Main results:

* one lemma per action, and `Takes.bind` for sequences;
* `Takes.capture`, `Takes.nested`, `Takes.inLoop`: scopes start at a spot of their own;
* `Walk.takes_units`, `Takes.block`: loops over the tokens, from what their steps do.
-/

namespace NoteScript

open Edit

namespace Token

/-- A word as a token. -/
abbrev word (text : String) : Token := ⟨.identifier, text⟩

/-- A mark as a token. -/
abbrev mark (text : String) : Token := ⟨.punctuation, text⟩

/-- An operator as a token. -/
abbrev sign (text : String) : Token := ⟨.operator, text⟩

theorem bracketDepth_append (ts us : List Token) : bracketDepth (ts ++ us) = bracketDepth ts + bracketDepth us := by
  induction ts with
  | nil => simp [bracketDepth]
  | cons t ts ih =>
    rw [List.cons_append, bracketDepth, bracketDepth, ih]
    omega

theorem isEof_of_isPunct {t : Token} {texts : List String} (h : t.isPunct texts = true) : t.isEof = false := by
  simp only [isPunct, Bool.and_eq_true, beq_iff_eq] at h
  simp [isEof, h.1]

end Token

namespace Cursor

theorem advanceBy_append (before passed rest : List Token) :
    (Cursor.mk before (passed ++ rest) 0).advanceBy passed.length = ⟨passed.reverse ++ before, rest, 0⟩ := by
  induction passed generalizing before with
  | nil => rfl
  | cons t passed ih =>
    rw [List.cons_append, List.length_cons, advanceBy, advance, ih, List.reverse_cons, List.append_assoc, List.singleton_append]

/-- A run of tokens of a class ends at a token outside it. -/
theorem takeWhile_exact {p : Token → Bool} {passed rest : List Token} (inside : ∀ t ∈ passed, p t = true)
    (ends : rest.head?.all (!p ·) = true) : (passed ++ rest).takeWhile p = passed := by
  rw [List.takeWhile_append_of_pos inside]
  rcases rest with _ | ⟨t, rest⟩
  · simp
  · have outside : p t = false := by simpa using ends
    simp [outside]

/-- Tokens in which every bracket of a shape is closed: a group goes on behind them as it was. -/
def Closed (opener closer : String) (ts : List Token) : Prop :=
  ∀ depth rest, groupFrom opener closer depth (ts ++ rest) = (groupFrom opener closer depth rest).map (ts ++ ·)

namespace Closed

variable {opener closer : String} {ts ts' : List Token}

theorem append (h : Closed opener closer ts) (h' : Closed opener closer ts') : Closed opener closer (ts ++ ts') := by
  intro depth rest
  rw [List.append_assoc, h, h', Option.map_map]
  simp [Function.comp_def]

theorem flat (h : ∀ t ∈ ts, t.isEof = false ∧ t.isPunct [opener, closer] = false) : Closed opener closer ts := by
  intro depth rest
  induction ts with
  | nil => simp
  | cons t ts ih =>
    obtain ⟨⟨inside, other⟩, later⟩ := List.forall_mem_cons.mp h
    have opens : t.isPunct [opener] = false := by simp_all [Token.isPunct]
    have closes : t.isPunct [closer] = false := by simp_all [Token.isPunct]
    simp [groupFrom, inside, opens, closes, ih later, Function.comp_def]

theorem group (h : Closed opener closer ts) {t t' : Token} (opens : t.isPunct [opener] = true)
    (closes : t'.isPunct [closer] = true) (other : t'.isPunct [opener] = false) :
    Closed opener closer (t :: ts ++ [t']) := by
  intro depth rest
  have inside := h (depth + 1) (t' :: rest)
  simp only [groupFrom, Token.isEof_of_isPunct closes, closes, other, Bool.false_eq_true, if_false, if_true] at inside
  simp [groupFrom, Token.isEof_of_isPunct opens, opens, inside, Function.comp_def]

theorem groupFrom_eq (h : Closed opener closer ts) {t : Token} (closes : t.isPunct [closer] = true)
    (other : t.isPunct [opener] = false) (rest : List Token) :
    groupFrom opener closer 0 (ts ++ t :: rest) = some ts := by
  simp [h 0, groupFrom, Token.isEof_of_isPunct closes, other, closes]

end Closed

end Cursor

/-- The loops handed out and those around the current place. -/
structure LoopState where
  labels : Nat
  enclosures : List Enclosure

/-- A place in the tokens, the text written so far, and the loops. -/
structure Spot where
  before : List Token
  rest : List Token
  out : Buffer
  loops : LoopState

namespace Spot

/-- The cursor at a spot. -/
def cursor (s : Spot) : Cursor := ⟨s.before, s.rest, 0⟩

theorem current_mk {before rest : List Token} {t : Token} {out : Buffer} {loops : LoopState} :
    (Spot.mk before (t :: rest) out loops).cursor.current = t := rfl

end Spot

/-- The desk put at a spot. -/
def Desk.put (d : Desk) (s : Spot) (start : Option (Nat × Nat)) (journal : List Event) : Desk := { d with
    cursor := s.cursor, out := s.out, statementStart := start
    enclosures := s.loops.enclosures, labels := s.loops.labels, journal := journal }

/-- From every desk at the spot `s`, the action returns `x` and leaves the desk at the spot `s'`. -/
def Takes {α : Type} (a : Edit α) (s : Spot) (x : α) (s' : Spot) : Prop := ∀ d start journal, ∃ start' journal',
    a (Desk.put d s start journal) = (.ok x, Desk.put d s' start' journal')

namespace Takes

variable {α β : Type} {x : α} {y : β} {s s' s'' : Spot} {before rest : List Token} {out : Buffer}
  {loops : LoopState}
variable {before' rest' : List Token} {labels : Nat} {enclosures : List Enclosure} {a : Edit Unit}

/-! ### Sequences -/

/-- An action that touches neither the mark nor the journal. -/
theorem of_eq {a : Edit α} (h : ∀ d start journal, a (Desk.put d s start journal) = (.ok x, Desk.put d s' start journal)) :
    Takes a s x s' :=
  fun d start journal => ⟨start, journal, h d start journal⟩

protected theorem pure (x : α) : Takes (Pure.pure x : Edit α) s x s := of_eq fun _ _ _ => rfl

protected theorem bind {a : Edit α} {f : α → Edit β} (ha : Takes a s x s') (hf : Takes (f x) s' y s'') :
    Takes (a >>= f) s y s'' := by
  intro d start journal
  obtain ⟨start', journal', first⟩ := ha d start journal
  obtain ⟨start'', journal'', second⟩ := hf d start' journal'
  exact ⟨start'', journal'', by rw [bind_ok first, second]⟩

theorem ite_pos {c : Prop} [Decidable c] {a b : Edit α} (h : c) (ha : Takes a s x s') : Takes (if c then a else b) s x s' := by
  rwa [if_pos h]

theorem ite_neg {c : Prop} [Decidable c] {a b : Edit α} (h : ¬ c) (hb : Takes b s x s') : Takes (if c then a else b) s x s' := by
  rwa [if_neg h]

/-! ### Looking -/

theorem cursor : Takes cursor s s.cursor s := of_eq fun _ _ _ => rfl

theorem written : Takes written s s.out s := of_eq fun _ _ _ => rfl

theorem mark : Takes mark s s.out.length s := of_eq fun _ _ _ => rfl

/-! ### Moving -/

theorem move {f : Cursor → Cursor} (moved : f ⟨before, rest, 0⟩ = ⟨before', rest', 0⟩) :
    Takes (move f) ⟨before, rest, out, loops⟩ () ⟨before', rest', out, loops⟩ := by
  apply of_eq
  intro d start journal
  simp only [Edit.move, Desk.put, Spot.cursor, ← moved]
  rfl

theorem skip (passed : List Token) : Takes (skip passed.length) ⟨before, passed ++ rest, out, loops⟩ ()
    ⟨passed.reverse ++ before, rest, out, loops⟩ :=
  move (Cursor.advanceBy_append before passed rest)

theorem skip_one (t : Token) : Takes (Edit.skip 1) ⟨before, t :: rest, out, loops⟩ () ⟨t :: before, rest, out, loops⟩ := skip [t]

theorem next (t : Token) : Takes next ⟨before, t :: rest, out, loops⟩ t ⟨t :: before, rest, out, loops⟩ := of_eq fun _ _ _ => rfl

theorem skipTrivia (passed : List Token) (ends : rest.head?.all (!·.isTrivia) = true)
    (inside : passed.all (·.isTrivia) = true) :
    Takes skipTrivia ⟨before, passed ++ rest, out, loops⟩ () ⟨passed.reverse ++ before, rest, out, loops⟩ := by
  apply move
  rw [Cursor.skipTrivia, Cursor.run, Cursor.takeWhile_exact (List.all_eq_true.mp inside) ends, Cursor.advanceBy_append]

theorem skipSpace (passed : List Token) (ends : rest.head?.all (fun t => !(t.kind == .space)) = true)
    (inside : passed.all (·.kind == .space) = true) :
    Takes skipSpace ⟨before, passed ++ rest, out, loops⟩ () ⟨passed.reverse ++ before, rest, out, loops⟩ := by
  apply move
  rw [Cursor.skipSpace, Cursor.run, Cursor.takeWhile_exact (List.all_eq_true.mp inside) ends, Cursor.advanceBy_append]

theorem skipPunct_pos {text : String} {t : Token} (found : t.isPunct [text] = true) :
    Takes (skipPunct text) ⟨before, t :: rest, out, loops⟩ () ⟨t :: before, rest, out, loops⟩ :=
  cursor.bind (.ite_pos found (skip_one t))

theorem skipPunct_neg {text : String} (absent : s.cursor.atPunct [text] = false) : Takes (skipPunct text) s () s :=
  cursor.bind (.ite_neg (Bool.eq_false_iff.mp absent) (.pure ()))

theorem group {opener closer : String} {t t' : Token} {inside : List Token} (opens : t.isPunct [opener] = true)
    (closed : Cursor.groupFrom opener closer 0 (inside ++ t' :: rest) = some inside) :
    Takes (group opener closer) ⟨before, t :: (inside ++ t' :: rest), out, loops⟩ inside
      ⟨t' :: (inside.reverse ++ t :: before), rest, out, loops⟩ := by
  apply of_eq
  intro d start journal
  have moved := Cursor.advanceBy_append before (t :: (inside ++ [t'])) rest
  simp only [List.cons_append, List.append_assoc, List.nil_append, List.length_cons, List.length_append,
    List.length_nil, List.reverse_cons, List.reverse_append, List.reverse_nil] at moved
  have found : (Spot.mk before (t :: (inside ++ t' :: rest)) out loops).cursor.group opener closer =
      (.ok inside, ⟨t' :: (inside.reverse ++ t :: before), rest, 0⟩) := by
    have here : (Spot.mk before (t :: (inside ++ t' :: rest)) out loops).cursor.atPunct [opener] = true := opens
    rw [Cursor.group, if_pos here]
    simp only [Spot.cursor, Cursor.advance, closed, moved]
  simp only [Edit.group, Desk.put, found]
  rfl

theorem arguments {inside : List Token} (closed : Cursor.Closed "(" ")" inside) :
    Takes arguments ⟨before, .mark "(" :: (inside ++ .mark ")" :: rest), out, loops⟩ inside
      ⟨.mark ")" :: (inside.reverse ++ .mark "(" :: before), rest, out, loops⟩ := by
  exact group (by decide) (closed.groupFrom_eq (by decide) (by decide) rest)

/-! ### Writing -/

theorem emit (entry : String) : Takes (emit entry) ⟨before, rest, out, loops⟩ () ⟨before, rest, out ++ [entry], loops⟩ :=
  of_eq fun _ _ _ => rfl

theorem rework (f : Buffer → Buffer) : Takes (rework f) ⟨before, rest, out, loops⟩ () ⟨before, rest, f out, loops⟩ :=
  of_eq fun _ _ _ => rfl

theorem takeOperand {operatorsEnd : Bool} {operand : String} {left : Buffer}
    (taken : out.takeOperand operatorsEnd = (operand, left)) :
    Takes (takeOperand operatorsEnd) ⟨before, rest, out, loops⟩ operand ⟨before, rest, left, loops⟩ := by
  apply of_eq
  intro d start journal
  simp only [Edit.takeOperand, Desk.put, taken]
  rfl

theorem markStatement : Takes markStatement s () s := by
  intro d start journal
  rcases inExpression : d.inExpression with _ | _
  · refine ⟨some (d.held.length, s.out.length), journal, ?_⟩
    obtain ⟨⟨cursor, out, held, inExpression', start'⟩, ledger⟩ := d
    cases inExpression
    rfl
  · refine ⟨start, journal, ?_⟩
    obtain ⟨⟨cursor, out, held, inExpression', start'⟩, ledger⟩ := d
    cases inExpression
    rfl

theorem record (event : Event) : Takes (record event) s () s := fun _ start journal => ⟨start, journal ++ [event], rfl⟩

theorem nextLabel : Takes nextLabel ⟨before, rest, out, labels, enclosures⟩ (loopLabel (labels + 1))
      ⟨before, rest, out, labels + 1, enclosures⟩ :=
  of_eq fun _ _ _ => rfl

/-! ### Scopes -/

theorem capture {captured : Buffer} {loops' : LoopState}
    (inner : Takes a ⟨before, rest, [], loops⟩ () ⟨before', rest', captured, loops'⟩) :
    Takes (capture a) ⟨before, rest, out, loops⟩ captured ⟨before', rest', out, loops'⟩ := by
  intro d start journal
  obtain ⟨start', journal', run⟩ := inner { d with held := out :: d.held } start journal
  refine ⟨start'.filter fun start => start.1 ≤ d.held.length, journal', ?_⟩
  have started : a ((d.put ⟨before, rest, out, loops⟩ start journal).onSheet
      (d.put ⟨before, rest, out, loops⟩ start journal).toSheet.beginCapture) = _ := run
  simp only [Edit.capture, started]
  rfl

theorem nested {tokens : List Token} {written : Buffer} {loops' : LoopState}
    (inner : Takes a ⟨[], tokens ++ [.eof], [], loops⟩ () ⟨before', rest', written, loops'⟩) :
    Takes (nested tokens a) ⟨before, rest, out, loops⟩ (Text.strip written.text)
      ⟨before, rest, out, loops'⟩ := by
  intro d start journal
  obtain ⟨start', journal', run⟩ := inner { d with held := [], inExpression := true } none journal
  refine ⟨start, journal', ?_⟩
  have started : a ((d.put ⟨before, rest, out, loops⟩ start journal).onSheet (.nested tokens)) = _ := run
  simp only [Edit.nested, started]
  rfl

theorem asStatements (inner : Takes a s () s') : Takes (asStatements a) s () s' := by
  intro d start journal
  obtain ⟨start', journal', run⟩ := inner { d with inExpression := false } start journal
  refine ⟨start', journal', ?_⟩
  have started : a { d.put s start journal with inExpression := false } = _ := run
  simp only [Edit.asStatements, started]
  rfl

/-- Work inside a loop or a function, with what becomes of it. -/
theorem enclosedBy {enclosure enclosure' : Enclosure} {out' : Buffer} {labels' : Nat}
    (inner : Takes a ⟨before, rest, out, labels, enclosure :: enclosures⟩ ()
      ⟨before', rest', out', labels', enclosure' :: enclosures⟩) :
    Takes (enclosedBy enclosure a) ⟨before, rest, out, labels, enclosures⟩ enclosure'
      ⟨before', rest', out', labels', enclosures⟩ := by
  intro d start journal
  obtain ⟨start', journal', run⟩ := inner d start (journal ++ [.entered enclosure.scope])
  refine ⟨start', journal' ++ [.left enclosure.scope], ?_⟩
  have started : a { d.put ⟨before, rest, out, labels, enclosures⟩ start journal with
    enclosures := enclosure :: enclosures
    journal := journal ++ [.entered enclosure.scope] } = _ := run
  simp only [Edit.enclosedBy]
  erw [started]
  rfl

/-- The body of a loop, which may mark the loop as jumped to. -/
theorem inLoop {label : String} {continued : Bool} {out' : Buffer} {labels' : Nat}
    (inner : Takes a ⟨before, rest, out, labels, .loop label false :: enclosures⟩ ()
      ⟨before', rest', out', labels', .loop label continued :: enclosures⟩) :
    Takes (Edit.enclosedBy (.loop label false) a) ⟨before, rest, out, labels, enclosures⟩ (.loop label continued)
      ⟨before', rest', out', labels', enclosures⟩ :=
  enclosedBy inner

end Takes

/-- Where tokens have been passed, a limit that was enough is enough for the others, and one less. -/
theorem Spot.exists_limit {s s' : Spot} {passed : List Token} (split : s.rest = passed ++ s'.rest) (nonempty : passed ≠ [])
    {limit : Nat} (enough : s.rest.length ≤ limit) : ∃ limit', limit = limit' + 1 ∧ s'.rest.length ≤ limit' := by
  have shorter : s.rest.length = passed.length + s'.rest.length := by rw [split, List.length_append]
  have positive : 0 < passed.length := List.length_pos_iff.mpr nonempty
  exact ⟨limit - 1, by omega, by omega⟩

/-! ### Units one after the other -/

/-- `Walk r stops depth s depth' s'`: from `s`, with `depth` brackets open, units are taken up to `s'`, and
none of them starts where the walk would stop. -/
inductive Walk (r : Rules) (stops : Cursor → Bool) : Int → Spot → Int → Spot → Prop where
  | done {depth : Int} {s : Spot} : Walk r stops depth s depth s
  | step {depth depth' : Int} {s s' s'' : Spot} (passed : List Token) :
      s.cursor.atEnd = false → (depth = 0 → stops s.cursor = false) → Takes r.expression s () s' →
      s.rest = passed ++ s'.rest → passed ≠ [] →
      Walk r stops (depth + Token.bracketDepth passed) s' depth' s'' → Walk r stops depth s depth' s''

namespace Walk

variable {r : Rules} {stops : Cursor → Bool} {depth depth' depth'' : Int} {s s' s'' : Spot}

theorem trans (h : Walk r stops depth s depth' s') (h' : Walk r stops depth' s' depth'' s'') :
    Walk r stops depth s depth'' s'' := by
  induction h with
  | done => exact h'
  | step passed inside goes unit split nonempty _ ih => exact .step passed inside goes unit split nonempty (ih h')

theorem unit (passed : List Token) (taken : Takes r.expression s () s') (split : s.rest = passed ++ s'.rest)
    (nonempty : passed ≠ []) (inside : s.cursor.atEnd = false) (goes : depth = 0 → stops s.cursor = false)
    (level : depth + Token.bracketDepth passed = depth') : Walk r stops depth s depth' s' := by
  subst level
  exact .step passed inside goes taken split nonempty .done

theorem single {t : Token} {before rest : List Token} {out out' : Buffer} {loops loops' : LoopState}
    (taken : Takes r.expression ⟨before, t :: rest, out, loops⟩ () ⟨t :: before, rest, out', loops'⟩)
    (inside : t.isEof = false) (flat : Token.bracketDepth [t] = 0)
    (goes : stops ⟨before, t :: rest, 0⟩ = false) :
    Walk r stops depth ⟨before, t :: rest, out, loops⟩ depth ⟨t :: before, rest, out', loops'⟩ :=
  .unit [t] taken rfl (List.cons_ne_nil _ _) inside (fun _ => goes) (by rw [flat, Int.add_zero])

theorem passedSince_eq {passed : List Token} (split : s.rest = passed ++ s'.rest) : s'.cursor.passedSince s.cursor = passed := by
  simp [Cursor.passedSince, Spot.cursor, split]

/-- Where it has to stop, the loop over the units does nothing. -/
theorem unitsUpTo_ended (ended : s.cursor.atEnd = true ∨ stops s.cursor = true) (limit : Nat) :
    Takes (r.unitsUpTo stops limit 0) s () s := by
  cases limit with
  | zero => exact .pure ()
  | succ limit =>
    refine Takes.cursor.bind (.ite_pos ?_ (.pure ()))
    rcases ended with ended | ended <;> simp [ended]

/-- On a desk where a unit is taken, the loop over the units goes on behind it. -/
theorem unitsUpTo_step {d : Desk} {start start' : Option (Nat × Nat)} {journal journal' : List Event} {passed : List Token}
    (inside : s.cursor.atEnd = false) (goes : depth = 0 → stops s.cursor = false)
    (taken : r.expression (d.put s start journal) = (.ok (), d.put s' start' journal'))
    (split : s.rest = passed ++ s'.rest) (limit : Nat) :
    r.unitsUpTo stops (limit + 1) depth (d.put s start journal) =
      r.unitsUpTo stops limit (depth + Token.bracketDepth passed) (d.put s' start' journal') := by
  have looked : cursor (d.put s start journal) = (.ok s.cursor, d.put s start journal) := rfl
  have looked' : cursor (d.put s' start' journal') = (.ok s'.cursor, d.put s' start' journal') := rfl
  rw [Rules.unitsUpTo, bind_ok looked, if_neg, bind_ok taken, bind_ok looked', passedSince_eq split]
  by_cases zero : depth = 0
  · simp [inside, goes zero]
  · simp [inside, zero]

/-- A walk that ends where it has to stop is what the rules do. -/
theorem takes_unitsUpTo (walk : Walk r stops depth s depth' s') (level : depth' = 0)
    (ended : s'.cursor.atEnd = true ∨ stops s'.cursor = true) {limit : Nat} (enough : s.rest.length ≤ limit) :
    Takes (r.unitsUpTo stops limit depth) s () s' := by
  induction walk generalizing limit with
  | @done depth s =>
    subst level
    exact unitsUpTo_ended ended limit
  | @step depth depth' s s' s'' passed inside goes unit split nonempty _ ih =>
    obtain ⟨limit, rfl, left⟩ := Spot.exists_limit split nonempty enough
    intro d start journal
    obtain ⟨start', journal', taken⟩ := unit d start journal
    rw [unitsUpTo_step inside goes taken split]
    exact ih level ended left d start' journal'

theorem takes_units (walk : Walk r stops 0 s 0 s')
    (ended : s'.cursor.atEnd = true ∨ stops s'.cursor = true) : Takes (r.units stops) s () s' :=
  Takes.cursor.bind (walk.takes_unitsUpTo rfl ended (Nat.le_refl _))

end Walk

/-! ### Statements one after the other -/

/-- Statements are taken from one spot to another, none of which starts at the end of the tokens or of a
block. -/
inductive Statements (r : Rules) : Spot → Spot → Prop where
  | done {s : Spot} : Statements r s s
  | step {s s' s'' : Spot} (passed : List Token) :
      s.cursor.atEnd = false → s.cursor.atPunct ["\x7d"] = false → Takes r.statement s () s' →
      s.rest = passed ++ s'.rest → s'.before = passed.reverse ++ s.before → passed ≠ [] →
      Statements r s' s'' → Statements r s s''

namespace Statements

variable {r : Rules} {s s' s'' : Spot}

theorem trans (h : Statements r s s') (h' : Statements r s' s'') : Statements r s s'' := by
  induction h with
  | done => exact h'
  | step passed inside goes statement split back nonempty _ ih =>
    exact .step passed inside goes statement split back nonempty (ih h')

theorem pos_ne {passed : List Token} (back : s'.before = passed.reverse ++ s.before) (nonempty : passed ≠ []) :
    (s'.cursor.pos == s.cursor.pos) = false := by
  have positive : 0 < passed.length := List.length_pos_iff.mpr nonempty
  rw [beq_eq_false_iff_ne]
  simp only [Cursor.pos, Spot.cursor, back, List.length_append, List.length_reverse]
  omega

/-- At the end of the tokens, the loop over the statements does nothing. -/
theorem statementsUpTo_ended (ended : s.cursor.atEnd = true) (limit : Nat) : Takes (r.statementsUpTo limit) s () s := by
  cases limit with
  | zero => exact .pure ()
  | succ limit => exact Takes.cursor.bind (.ite_pos ended (.pure ()))

theorem takes_statementsUpTo (run : Statements r s s') (ended : s'.cursor.atEnd = true) {limit : Nat}
    (enough : s.rest.length ≤ limit) : Takes (r.statementsUpTo limit) s () s' := by
  induction run generalizing limit with
  | @done s => exact statementsUpTo_ended ended limit
  | @step s s' s'' passed inside _ statement split back nonempty _ ih =>
    obtain ⟨limit, rfl, left⟩ := Spot.exists_limit split nonempty enough
    refine Takes.cursor.bind (.ite_neg (by simp [inside]) (statement.bind (Takes.cursor.bind ?_)))
    rw [pos_ne back nonempty]
    exact ih ended left

theorem takes_statements (run : Statements r s s') (ended : s'.cursor.atEnd = true) : Takes r.statements s () s' :=
  Takes.cursor.bind (run.takes_statementsUpTo ended (Nat.le_refl _))

/-- The value of a nested token list is the text that its statements write. -/
theorem takes_value {tokens before rest before' rest' : List Token} {out written : Buffer} {loops loops' : LoopState}
    (run : Statements r ⟨[], tokens ++ [.eof], [], loops⟩ ⟨before', rest', written, loops'⟩)
    (ended : (Spot.mk before' rest' written loops').cursor.atEnd = true) :
    Takes (r.value tokens) ⟨before, rest, out, loops⟩ (Text.strip written.text) ⟨before, rest, out, loops'⟩ :=
  .nested (run.takes_statements ended)

theorem takes_blockUpTo {before rest : List Token} {t : Token} {out : Buffer} {loops : LoopState}
    (run : Statements r s s') (closing : s' = ⟨before, t :: rest, out, loops⟩)
    (brace : t.isPunct ["\x7d"] = true) {limit : Nat} (enough : s.rest.length ≤ limit) :
    Takes (r.blockUpTo limit) s true ⟨t :: before, rest, out, loops⟩ := by
  induction run generalizing limit with
  | @done s =>
    subst closing
    obtain ⟨limit, rfl⟩ : ∃ limit', limit = limit' + 1 := ⟨limit - 1, by simp at enough; omega⟩
    refine Takes.cursor.bind (.ite_neg ?_ (.ite_pos brace ((Takes.skip_one t).bind (.pure true))))
    exact Bool.eq_false_iff.mp (Token.isEof_of_isPunct brace)
  | @step s s' s'' passed inside goes statement split back nonempty _ ih =>
    obtain ⟨limit, rfl, left⟩ := Spot.exists_limit split nonempty enough
    refine Takes.cursor.bind (.ite_neg (by simp [inside]) (.ite_neg (by simp [goes]) (statement.bind (Takes.cursor.bind ?_))))
    rw [pos_ne back nonempty]
    exact ih closing left

theorem takes_block {before before' inside rest : List Token} {opening closing : Token} {out out' : Buffer}
    {loops loops' : LoopState} (opens : opening.isPunct ["\x7b"] = true) (closes : closing.isPunct ["\x7d"] = true)
    (run : Statements r ⟨opening :: before, inside, out, loops⟩ ⟨before', closing :: rest, out', loops'⟩) :
    Takes r.block ⟨before, opening :: inside, out, loops⟩ () ⟨closing :: before', rest, out', loops'⟩ := by
  refine Takes.cursor.bind (.ite_pos opens ((Takes.skip_one opening).bind (.asStatements ?_)))
  exact (run.takes_blockUpTo rfl closes (Nat.le_succ _)).bind (.pure ())

end Statements

end NoteScript

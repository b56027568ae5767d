import NoteScript.Proofs.Parts

/-!
# Traits of actions

What is said of a rule is shown from what is said of the actions it is made of. A `Trait` is something said of actions, on
token lists of some kind. It is `Lawful` when it holds of the actions that every rule is made of and is passed on by sequences
and scopes; what remains to be shown of a rule is then that it is composed of such actions.

A trait may speak about one run or compare two, whose cursors are `Twin`. So an action may depend on the cursor only by
questions that have the same answer for twins (`Holds.ask`), and all that lies ahead is such a question (`Holds.ahead`).
A trait may also speak about lists that are read on their own, so these have to come from the list at hand (`Holds.known`).

A lawful trait says nothing about the loops themselves: how labels are handed out and what the journal records is left to those
who state a trait about them. A `Plain` one does not look at that.
-/

namespace NoteScript

open Edit

/-- Something said of actions, on token lists as a property says. -/
structure Trait where
  Holds {α : Type} : (List Token → Prop) → Edit α → Prop
  /-- The cursors of runs that are compared. -/
  Twin : Cursor → Cursor → Prop

namespace Trait

/-- A move that takes the same number of steps on from twins. -/
def StepsOn (T : Trait) (move : Cursor → Cursor) : Prop :=
  ∀ ⦃c c' : Cursor⦄, T.Twin c c' → ∃ n, move c = c.advanceBy n ∧ move c' = c'.advanceBy n

/-- A trait that holds of every action outside loops and is passed on by sequences and scopes. -/
class Lawful (T : Trait) : Prop where
  rest {c c' : Cursor} : T.Twin c c' → c.rest = c'.rest
  previous {c c' : Cursor} : T.Twin c c' → c.previous = c'.previous
  peekBack {c c' : Cursor} : T.Twin c c' → c.peek (-1) = c'.peek (-1)
  followsOperand {c c' : Cursor} : T.Twin c c' → ∀ sameLine, c.followsOperand sameLine = c'.followsOperand sameLine
  advance {c c' : Cursor} : T.Twin c c' → T.Twin c.advance c'.advance
  mono {α : Type} {P P' : List Token → Prop} {a : Edit α} : T.Holds P a → (∀ L, P' L → P L) → T.Holds P' a
  pure {α : Type} {P : List Token → Prop} (x : α) : T.Holds P (Pure.pure x : Edit α)
  tooDeep : T.Holds (fun _ => True) (throw .tooDeep : Edit Unit)
  /-- A sequence goes on with what its first action is known to return. -/
  known {α β : Type} {P : List Token → Prop} {Q : α → List Token → Prop} {a : Edit α} {f : α → Edit β} : T.Holds P a →
    (∀ ⦃d d' x⦄, a d = (.ok x, d') → Q x d'.cursor.tokens) → (∀ x, T.Holds (fun L => P L ∧ Q x L) (f x)) →
    T.Holds P (a >>= f)
  ask {β : Type} {P : List Token → Prop} {f : Cursor → Edit β} : (∀ ⦃c c'⦄, T.Twin c c' → f c = f c') →
    (∀ c, T.Holds (fun L => P L ∧ c.tokens = L) (f c)) → T.Holds P (cursor >>= f)
  look {β : Type} {P : List Token → Prop} {f : Desk → Edit β} :
    (∀ (d : Desk) ⦃c c'⦄, T.Twin c c' → f { d with cursor := c } = f { d with cursor := c' }) →
    (∀ d, T.Holds P (f d)) → T.Holds P (get >>= f)
  /-- Did an action move the cursor? -/
  since {β : Type} {P : List Token → Prop} {a : Edit Unit} {f : Bool → Edit β} : T.Holds P a → (∀ b, T.Holds P (f b)) →
    T.Holds P (do let start ← cursor; a; let here ← cursor; f (here.pos == start.pos))
  move {P : List Token → Prop} {f : Cursor → Cursor} : T.StepsOn f → T.Holds P (move f)
  group {P : List Token → Prop} {opener closer : String} : Token.openerOf closer = some opener → T.Holds P (group opener closer)
  write {α : Type} {P : List Token → Prop} (g : Buffer → α × Buffer) :
    T.Holds P (fun d => (.ok (g d.out).1, { d with out := (g d.out).2 }) : Edit α)
  markStatement {P : List Token → Prop} : T.Holds P markStatement
  warn {P : List Token → Prop} (message : String) : T.Holds P (warn message)
  addMapName {P : List Token → Prop} (name : String) :
    T.Holds P (modify fun d => { d with toLedger := d.toLedger.addMapName name } : Edit Unit)
  capture {P : List Token → Prop} {a : Edit Unit} : T.Holds P a → T.Holds P (capture a)
  nested {P : List Token → Prop} {tokens : List Token} {a : Edit Unit} : (∀ L, P L → Token.ReadFrom L tokens) →
    T.Holds (fun _ => True) a → T.Holds P (nested tokens a)
  function {P : List Token → Prop} {a : Edit Unit} : T.Holds P a → T.Holds P (enclosedBy .function a)
  block {P : List Token → Prop} {r : Rules} : (∀ limit, T.Holds P (r.blockUpTo limit)) → T.Holds P r.block
  /-- A `do` block is followed by its condition. -/
  condition {P : List Token → Prop} {f : Nat → Edit Unit} : (∀ offset, T.Holds P (f offset)) → T.Holds P (do
    let here ← cursor
    if (here.ahead 0).1.isWord "while" then f (here.ahead 0).2 else throw (.missingWhile here))

/-- A trait that labels, jumps and the journal do not touch. -/
class Plain (T : Trait) : Prop extends T.Lawful where
  record {P : List Token → Prop} (event : Event) : T.Holds P (record event)
  nextLabel {P : List Token → Prop} : T.Holds P nextLabel
  markContinued {P : List Token → Prop} : T.Holds P (modify fun d => { d with toLedger := d.toLedger.markContinued } : Edit Unit)
  enclosedBy {P : List Token → Prop} (enclosure : Enclosure) {a : Edit Unit} : T.Holds P a → T.Holds P (enclosedBy enclosure a)

variable {T : Trait} [law : T.Lawful] {P : List Token → Prop}

/-! ### What twins have in common -/

section

variable {c c' : Cursor}

theorem ahead_eq {γ : Type} {f : Cursor → γ} (ahead : ∀ c, f c = f (.ofTokens c.rest)) (twin : T.Twin c c') : f c = f c' := by
  rw [ahead c, ahead c', law.rest twin]

theorem current_eq (twin : T.Twin c c') : c.current = c'.current := ahead_eq (fun _ => rfl) twin

theorem atEnd_eq (twin : T.Twin c c') : c.atEnd = c'.atEnd := ahead_eq (fun _ => rfl) twin

theorem atPunct_eq (twin : T.Twin c c') (texts : List String) : c.atPunct texts = c'.atPunct texts :=
  ahead_eq (f := (·.atPunct texts)) (fun _ => rfl) twin

theorem atLineEnd_eq (twin : T.Twin c c') : c.atLineEnd = c'.atLineEnd := by
  simp only [Cursor.atLineEnd, Cursor.lineGoesOn, law.previous twin, current_eq twin, Cursor.ahead, law.rest twin]

theorem twin_advanceBy (twin : T.Twin c c') (n : Nat) : T.Twin (c.advanceBy n) (c'.advanceBy n) := by
  induction n generalizing c c' with
  | zero => exact twin
  | succ n ih => exact ih (law.advance twin)

end

omit law in
theorem stepsOn_advanceBy (n : Nat) : T.StepsOn (·.advanceBy n) := fun _ _ _ => ⟨n, rfl, rfl⟩

theorem stepsOn_run (p : Token → Bool) : T.StepsOn fun c => c.advanceBy (c.run p).length := by
  intro c c' twin
  refine ⟨_, rfl, ?_⟩
  simp only [Cursor.run, law.rest twin]

theorem StepsOn.comp {f g : Cursor → Cursor} (hf : T.StepsOn f) (hg : T.StepsOn g) : T.StepsOn fun c => g (f c) := by
  intro c c' twin
  obtain ⟨m, first, first'⟩ := hf twin
  obtain ⟨n, second, second'⟩ := hg (twin_advanceBy twin m)
  refine ⟨m + n, ?_, ?_⟩ <;> simp only [first, first', second, second', Cursor.advanceBy_add]

namespace Holds

variable {α β : Type} {a b : Edit α} {f : α → Edit β}

theorem any (ha : T.Holds (fun _ => True) a) : T.Holds P a := law.mono ha fun _ _ => trivial

protected theorem pure (x : α) : T.Holds P (Pure.pure x : Edit α) := law.pure x

protected theorem bind (ha : T.Holds P a) (hf : ∀ x, T.Holds P (f x)) : T.Holds P (a >>= f) :=
  law.known (Q := fun _ _ => True) ha (fun _ _ _ _ => trivial) fun x => law.mono (hf x) fun _ h => h.1

theorem seq {b : Edit β} (ha : T.Holds P a) (hb : T.Holds P b) : T.Holds P (a >>= fun _ => b) := ha.bind fun _ => hb

omit law in
protected theorem ite {c : Prop} [Decidable c] (ha : T.Holds P a) (hb : T.Holds P b) : T.Holds P (if c then a else b) := by
  split
  · exact ha
  · exact hb

/-! ### Looking, moving and writing -/

theorem ask {f : Cursor → Edit β} (same : ∀ ⦃c c'⦄, T.Twin c c' → f c = f c') (hf : ∀ c, T.Holds P (f c)) :
    T.Holds P (cursor >>= f) :=
  law.ask same fun c => law.mono (hf c) fun _ h => h.1

/-- What looks ahead only does the same for twins. -/
theorem ahead {f : Cursor → Edit β} (ahead : ∀ c, f c = f (.ofTokens c.rest)) (hf : ∀ c, T.Holds P (f c)) :
    T.Holds P (cursor >>= f) :=
  ask (fun _ _ => ahead_eq ahead) hf

theorem written : T.Holds P written := law.write fun out => (out, out)

theorem mark : T.Holds P mark := law.write fun out => (out.length, out)

theorem skip (count : Nat) : T.Holds P (skip count) := law.move (stepsOn_advanceBy count)

theorem skipTrivia : T.Holds P skipTrivia := law.move (stepsOn_run _)

theorem skipSpace : T.Holds P skipSpace := law.move (stepsOn_run _)

theorem next : T.Holds P next := ahead (fun _ => rfl) fun _ => (law.move (stepsOn_advanceBy 1)).seq (.pure _)

theorem skipPunct (text : String) : T.Holds P (skipPunct text) := ahead (fun _ => rfl) fun _ => .ite (skip 1) (.pure ())

theorem emit (entry : String) : T.Holds P (emit entry) := law.write fun out => ((), out.emit entry)

theorem rework (f : Buffer → Buffer) : T.Holds P (rework f) := law.write fun out => ((), f out)

theorem takeOperand (operatorsEnd : Bool) : T.Holds P (takeOperand operatorsEnd) :=
  law.write fun out => out.takeOperand operatorsEnd

theorem warn (message : String) : T.Holds P (warn message) := law.warn message

theorem group {opener closer : String} (pair : Token.openerOf closer = some opener) : T.Holds P (group opener closer) :=
  law.group pair

theorem arguments : T.Holds P arguments := law.group rfl

/-- Arguments are a part of the list. -/
theorem arguments_bind {f : List Token → Edit β} (hf : ∀ inside, T.Holds (fun L => P L ∧ inside <:+: L) (f inside)) :
    T.Holds P (Edit.arguments >>= f) := by
  refine law.known arguments (fun d d' inside run => ?_) hf
  obtain ⟨n, same⟩ := d.cursor.group_stepsOn "(" ")"
  have moved : { d with cursor := (d.cursor.group "(" ")").2 } = d' := congrArg Prod.snd run
  rw [← moved, same, Cursor.tokens_advanceBy]
  exact Cursor.infix_of_group (congrArg Prod.fst run)

theorem capture {a : Edit Unit} (ha : T.Holds P a) : T.Holds P (capture a) := law.capture ha

end Holds

end Trait

end NoteScript

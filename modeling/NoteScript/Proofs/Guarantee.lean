import NoteScript.Proofs.Keeping

/-!
# What an action guarantees

A `Guarantee` relates the desk that an action leaves to the desk it found, once for an action that
returns and once for one that a fault stops. It is `Lawful` when it holds of the actions that every rule
is made of and is passed on by sequences and scopes; to keep it is then a lawful trait of actions
(`Guarantee.trait`). An action that keeps a guarantee stays on its token list.

A lawful guarantee says nothing about the loops themselves: how labels are handed out and what the
journal records is left to those who state a guarantee about them. A `Plain` one does not look at that.
-/

namespace NoteScript

/-- How the desk that an action leaves is related to the desk it found. -/
structure Guarantee where
  /-- When the action returns. -/
  returns : Desk → Desk → Prop
  /-- When a fault stops it. -/
  stops : Fault → Desk → Desk → Prop

/-- The desk inside a function. -/
def Desk.enterFunction (d : Desk) : Desk :=
  { d with enclosures := .function :: d.enclosures, journal := d.journal ++ [.entered .function] }

/-- The desk behind a function. -/
def Desk.leaveFunction (d : Desk) : Desk := { d with enclosures := d.enclosures.tail, journal := d.journal ++ [.left .function] }

/-- A guarantee that holds of every action outside loops and is passed on by sequences and scopes. -/
class Guarantee.Lawful (G : Guarantee) : Prop where
  refl (d : Desk) : G.returns d d
  trans {a b c : Desk} : G.returns a b → G.returns b c → G.returns a c
  /-- A fault on the list at hand, which may stop the action later. -/
  halt {f : Fault} {a b : Desk} : f.FoundOn a.cursor.tokens → G.returns a b → G.stops f a b
  trans_stops {f : Fault} {a b c : Desk} : G.returns a b → G.stops f b c → G.stops f a c
  move (d : Desk) (n : Nat) : G.returns d { d with cursor := d.cursor.advanceBy n }
  write (d : Desk) (out : Buffer) : G.returns d { d with out := out }
  markStatement (d : Desk) : G.returns d (d.onSheet d.toSheet.markStatement)
  warn (d : Desk) (message : String) : G.returns d { d with diagnostics := d.diagnostics ++ [message] }
  addMapName (d : Desk) (name : String) : G.returns d { d with toLedger := d.toLedger.addMapName name }
  capture {d e : Desk} : G.returns (d.onSheet d.toSheet.beginCapture) e → G.returns d (e.onSheet e.toSheet.endCapture)
  capture_stops {f : Fault} {d e : Desk} : G.stops f (d.onSheet d.toSheet.beginCapture) e →
    G.stops f d (e.onSheet e.toSheet.endCapture)
  nested {d e : Desk} {tokens : List Token} : Token.ReadFrom d.cursor.tokens tokens →
    G.returns (d.onSheet (.nested tokens)) e → G.returns d (e.onSheet d.toSheet)
  nested_stops {f : Fault} {d e : Desk} {tokens : List Token} : Token.ReadFrom d.cursor.tokens tokens →
    G.stops f (d.onSheet (.nested tokens)) e → G.stops f d (e.onSheet d.toSheet)
  asStatements {d e : Desk} : G.returns { d with inExpression := false } e → G.returns d { e with inExpression := d.inExpression }
  asStatements_stops {f : Fault} {d e : Desk} : G.stops f { d with inExpression := false } e →
    G.stops f d { e with inExpression := d.inExpression }
  function {d e : Desk} : G.returns d.enterFunction e → G.returns d e.leaveFunction
  function_stops {f : Fault} {d e : Desk} : G.stops f d.enterFunction e → G.stops f d e.leaveFunction

/-- The desk inside a loop or a function. -/
def Desk.enter (d : Desk) (enclosure : Enclosure) : Desk :=
  { d with enclosures := enclosure :: d.enclosures, journal := d.journal ++ [.entered enclosure.scope] }

/-- The desk behind a loop or a function. -/
def Desk.leave (d : Desk) (enclosure : Enclosure) : Desk :=
  { d with enclosures := d.enclosures.tail, journal := d.journal ++ [.left enclosure.scope] }

/-- A guarantee that labels, jumps and the journal do not touch. -/
class Guarantee.Plain (G : Guarantee) : Prop extends G.Lawful where
  record (d : Desk) (event : Event) : G.returns d { d with journal := d.journal ++ [event] }
  nextLabel (d : Desk) : G.returns d { d with labels := d.labels + 1 }
  markContinued (d : Desk) : G.returns d { d with toLedger := d.toLedger.markContinued }
  enclosed {d e : Desk} {enclosure : Enclosure} : G.returns (d.enter enclosure) e → G.returns d (e.leave enclosure)
  enclosed_stops {f : Fault} {d e : Desk} {enclosure : Enclosure} : G.stops f (d.enter enclosure) e →
    G.stops f d (e.leave enclosure)

/-- What `G` says of how an action ended that was begun at the desk `d`. One that returned has stayed on its token list. -/
def Guarantee.After {α : Type} (G : Guarantee) (d : Desk) : Except Fault α × Desk → Prop
  | (.ok _, d') => G.returns d d' ∧ d'.cursor.tokens = d.cursor.tokens
  | (.error fault, d') => G.stops fault d d'

namespace Edit

variable {α β γ : Type} {G : Guarantee} {P : List Token → Prop} {a : Edit α} {f : α → Edit β}

/-- `KeepsOn G P a`: from every desk with a token list as `P` says, the action ends as `G` says. -/
def KeepsOn (G : Guarantee) (P : List Token → Prop) (a : Edit α) : Prop := ∀ ⦃d : Desk⦄, P d.cursor.tokens → G.After d (a d)

namespace KeepsOn

/-- An action that always returns keeps what holds of the desk it returns. -/
theorem of_returns
    (h : ∀ d : Desk, ∃ x d', a d = (.ok x, d') ∧ G.returns d d' ∧ d'.cursor.tokens = d.cursor.tokens) : KeepsOn G P a := by
  intro d _
  obtain ⟨x, d', run, kept⟩ := h d
  rw [run]
  exact kept

theorem change {g : Desk → Desk} (kept : ∀ d, G.returns d (g d)) (stays : ∀ d, (g d).cursor = d.cursor) :
    KeepsOn G P (modify g : Edit Unit) :=
  of_returns fun d => ⟨(), g d, rfl, kept d, congrArg Cursor.tokens (stays d)⟩

/-- A scope: what is done before and after the action inside it, and what is handed out. -/
theorem scope {P' : List Token → Prop} (enter : Desk → Desk) (leave : Desk → Desk → Desk) (value : α → Desk → γ)
    (ha : KeepsOn G P' a) (inside : ∀ d : Desk, P d.cursor.tokens → P' (enter d).cursor.tokens)
    (returns : ∀ d e : Desk, P d.cursor.tokens → G.returns (enter d) e → G.returns d (leave d e))
    (stops : ∀ fault (d e : Desk), P d.cursor.tokens → G.stops fault (enter d) e → G.stops fault d (leave d e))
    (stays : ∀ d e : Desk, e.cursor.tokens = (enter d).cursor.tokens → (leave d e).cursor.tokens = d.cursor.tokens) :
    KeepsOn G P (fun d => ((a (enter d)).1.map (value · (a (enter d)).2), leave d (a (enter d)).2) : Edit γ) := by
  intro d holds
  have ended := ha (inside d holds)
  dsimp only
  rcases ran : a (enter d) with ⟨fault | x, e⟩ <;> rw [ran] at ended
  · exact stops fault d e holds ended
  · exact ⟨returns d e holds ended.1, stays d e ended.2⟩

variable [law : G.Lawful]

/-- A sequence goes on with what its first action is known to return. -/
theorem known {Q : α → List Token → Prop} (ha : KeepsOn G P a) (found : ∀ ⦃d d' x⦄, a d = (.ok x, d') → Q x d'.cursor.tokens)
    (hf : ∀ x, KeepsOn G (fun L => P L ∧ Q x L) (f x)) : KeepsOn G P (a >>= f) := by
  intro d holds
  have first := ha holds
  rw [bind_apply]
  rcases ran : a d with ⟨fault | x, d'⟩ <;> rw [ran] at first
  · exact first
  · have second := hf x (d := d') ⟨by rwa [first.2], found ran⟩
    dsimp only
    rcases ran' : f x d' with ⟨fault | y, d''⟩ <;> rw [ran'] at second
    · exact law.trans_stops first.1 second
    · exact ⟨law.trans first.1 second.1, second.2.trans first.2⟩

theorem move {g : Cursor → Cursor} (steps : Cursor.StepsOn g) : KeepsOn G P (move g) := by
  refine of_returns fun d => ?_
  obtain ⟨n, same⟩ := steps d.cursor
  refine ⟨(), { d with cursor := g d.cursor }, rfl, ?_, ?_⟩ <;> simp only [same]
  · exact law.move d n
  · exact d.cursor.tokens_advanceBy n

/-- A group that is missing or never closed is a fault on the list. -/
theorem group {opener closer : String} (pair : Token.openerOf closer = some opener) : KeepsOn G P (Edit.group opener closer) := by
  intro d _
  obtain ⟨n, same⟩ := d.cursor.group_stepsOn opener closer
  have run : Edit.group opener closer d = ((d.cursor.group opener closer).1, { d with cursor := d.cursor.advanceBy n }) := by
    rw [← same]
    rfl
  rw [run]
  rcases found : (d.cursor.group opener closer).1 with fault | inside
  · exact law.halt (Cursor.foundOn_of_group pair found) (law.move d n)
  · exact ⟨law.move d n, d.cursor.tokens_advanceBy n⟩

/-- A fault on the list at hand that stops the run after further actions, if they turned out so. -/
theorem throwUnless {action : Edit Bool} (ha : KeepsOn G P action) {fault : Fault} (found : ∀ L, P L → fault.FoundOn L) :
    KeepsOn G P (do let done ← action; if !done then throw fault) := by
  intro d holds
  have ended := ha holds
  rw [bind_apply]
  rcases ran : action d with ⟨fault' | done, d'⟩ <;> rw [ran] at ended
  · exact ended
  · cases done
    · exact law.halt (found _ holds) ended.1
    · exact ended

theorem nested {tokens : List Token} {a : Edit Unit} (reads : ∀ L, P L → Token.ReadFrom L tokens) (ha : KeepsOn G (fun _ => True) a) :
    KeepsOn G P (nested tokens a) :=
  scope (fun d => d.onSheet (.nested tokens)) (fun d e => e.onSheet d.toSheet) (fun _ e => Text.strip e.out.text) ha
    (fun _ _ => trivial) (fun _ _ holds => law.nested (reads _ holds)) (fun _ _ _ holds => law.nested_stops (reads _ holds))
    fun _ _ _ => rfl

theorem capture {a : Edit Unit} (ha : KeepsOn G P a) : KeepsOn G P (capture a) :=
  scope (fun d => d.onSheet d.toSheet.beginCapture) (fun _ e => e.onSheet e.toSheet.endCapture) (fun _ e => e.out) ha
    (fun _ holds => holds) (fun _ _ _ => law.capture) (fun _ _ _ _ => law.capture_stops) fun d e same => by
      have left : (e.onSheet e.toSheet.endCapture).cursor = e.cursor := by
        unfold Desk.onSheet Sheet.endCapture
        split <;> rfl
      rw [left]
      exact same

theorem function {a : Edit Unit} (ha : KeepsOn G P a) : KeepsOn G P (enclosedBy .function a) :=
  scope (·.enterFunction) (fun _ e => e.leaveFunction) (fun _ e => e.enclosures.headD .function) ha (fun _ holds => holds)
    (fun _ _ _ => law.function) (fun _ _ _ _ => law.function_stops) fun _ _ same => same

theorem asStatements {a : Edit Unit} (ha : KeepsOn G P a) : KeepsOn G P (asStatements a) := by
  intro d holds
  have ended := ha (d := { d with inExpression := false }) holds
  rw [Edit.asStatements]
  rcases ran : a { d with inExpression := false } with ⟨fault | x, e⟩ <;> rw [ran] at ended
  · exact law.asStatements_stops ended
  · exact ⟨law.asStatements ended.1, ended.2⟩

omit law in
theorem ask {f : Cursor → Edit β} (hf : ∀ c, KeepsOn G (fun L => P L ∧ c.tokens = L) (f c)) : KeepsOn G P (cursor >>= f) :=
  fun d holds => hf d.cursor ⟨holds, rfl⟩

protected theorem pure (x : α) : KeepsOn G P (Pure.pure x : Edit α) := of_returns fun d => ⟨x, d, rfl, law.refl d, rfl⟩

protected theorem bind (ha : KeepsOn G P a) (hf : ∀ x, KeepsOn G P (f x)) : KeepsOn G P (a >>= f) :=
  known (Q := fun _ _ => True) ha (fun _ _ _ _ => trivial) fun x _ holds => hf x holds.1

/-- A block that is never closed is a fault at its brace. -/
theorem block {r : Rules} (hr : ∀ limit, KeepsOn G P (r.blockUpTo limit)) : KeepsOn G P r.block := by
  refine ask fun start => ?_
  by_cases opened : start.atPunct ["\x7b"] = true
  · rw [if_pos opened]
    refine (move fun _ => ⟨1, rfl⟩).bind fun _ => .asStatements (.throwUnless (fun _ holds => hr _ holds.1) ?_)
    exact fun L same => ⟨opened, fun place => by cases place; exact same.2⟩
  · rw [if_neg opened]
    exact .pure ()

/-- A `do` block without its condition is a fault at the place behind it. -/
theorem condition {f : Nat → Edit Unit} (hf : ∀ offset, KeepsOn G P (f offset)) : KeepsOn G P (do
    let here ← cursor
    if (here.ahead 0).1.isWord "while" then f (here.ahead 0).2 else throw (.missingWhile here)) := by
  refine ask fun here => ?_
  by_cases following : (here.ahead 0).1.isWord "while" = true
  · rw [if_pos following]
    exact fun _ holds => hf _ holds.1
  · rw [if_neg following]
    intro d holds
    refine law.halt ⟨by simpa [Fault.Fits] using following, fun place => ?_⟩ (law.refl d)
    cases place
    exact holds.2

end KeepsOn

end Edit

/-! ### To keep a guarantee is a trait -/

/-- To keep a guarantee. -/
abbrev Guarantee.trait (G : Guarantee) : Trait := ⟨Edit.KeepsOn G, Eq⟩

open Edit

instance {G : Guarantee} [law : G.Lawful] : G.trait.Lawful where
  rest := by rintro _ _ rfl; rfl
  previous := by rintro _ _ rfl; rfl
  peekBack := by rintro _ _ rfl; rfl
  followsOperand := by rintro _ _ rfl _; rfl
  advance := by rintro _ _ rfl; rfl
  mono ha stronger _ holds := ha (stronger _ holds)
  pure := KeepsOn.pure
  tooDeep d _ := law.halt (Fault.foundOn_tooDeep _) (law.refl d)
  known := KeepsOn.known
  ask _ := KeepsOn.ask
  look _ hf d holds := hf d holds
  since ha hf := KeepsOn.ask fun _ => KeepsOn.bind (fun _ holds => ha holds.1) fun _ =>
    KeepsOn.ask fun _ _ holds => hf _ holds.1.1
  move steps := KeepsOn.move fun _ => (steps rfl).imp fun _ => And.left
  group := KeepsOn.group
  write _ := KeepsOn.of_returns fun d => ⟨_, _, rfl, law.write d _, rfl⟩
  markStatement {_} := KeepsOn.change law.markStatement fun d => by
    dsimp only [Desk.onSheet, Sheet.markStatement]
    split <;> rfl
  warn _ := KeepsOn.change (law.warn · _) fun _ => rfl
  addMapName _ := KeepsOn.change (law.addMapName · _) fun _ => rfl
  capture := KeepsOn.capture
  nested := KeepsOn.nested
  function := KeepsOn.function
  block := KeepsOn.block
  condition := KeepsOn.condition

instance {G : Guarantee} [law : G.Plain] : G.trait.Plain where
  record _ := KeepsOn.change (law.record · _) fun _ => rfl
  nextLabel {_} := KeepsOn.of_returns fun d => ⟨_, _, rfl, law.nextLabel d, rfl⟩
  markContinued {_} := KeepsOn.change law.markContinued fun _ => rfl
  enclosedBy enclosure _ ha := KeepsOn.scope (·.enter enclosure) (fun _ e => e.leave enclosure)
    (fun _ e => e.enclosures.headD enclosure) ha (fun _ holds => holds) (fun _ _ _ => law.enclosed)
    (fun _ _ _ _ => law.enclosed_stops) fun _ _ same => same

namespace Edit

variable {α : Type} {G : Guarantee} {a : Edit α} {d d' : Desk}

/-- `Keeps G a`: from every desk, the action ends as `G` says. -/
abbrev Keeps (G : Guarantee) (a : Edit α) : Prop := G.trait.Holds (fun _ => True) a

namespace Keeps

theorem after (h : Keeps G a) (d : Desk) : G.After d (a d) := h trivial

theorem returns {x : α} (h : Keeps G a) (run : a d = (.ok x, d')) : G.returns d d' := by
  have ended := h.after d
  rw [run] at ended
  exact ended.1

theorem stops {fault : Fault} (h : Keeps G a) (run : a d = (.error fault, d')) : G.stops fault d d' := by
  have ended := h.after d
  rwa [run] at ended

theorem get [law : G.Lawful] : Keeps G (MonadState.get : Edit Desk) := fun d _ => ⟨law.refl d, rfl⟩

end Keeps

end Edit

/-- Both rules keep the guarantee. -/
abbrev Rules.Keeps (G : Guarantee) (r : Rules) : Prop := r.Holds G.trait

/-! ### Staying on the list -/

/-- Nothing but that an action which returns has stayed on its list. -/
def Guarantee.steady : Guarantee := ⟨fun _ _ => True, fun _ _ _ => True⟩

instance : Guarantee.steady.Plain where
  refl _ := trivial
  trans _ _ := trivial
  halt _ _ := trivial
  trans_stops _ _ := trivial
  move _ _ := trivial
  write _ _ := trivial
  markStatement _ := trivial
  warn _ _ := trivial
  addMapName _ _ := trivial
  capture _ := trivial
  capture_stops _ := trivial
  nested _ _ := trivial
  nested_stops _ _ := trivial
  asStatements _ := trivial
  asStatements_stops _ := trivial
  function _ := trivial
  function_stops _ := trivial
  record _ _ := trivial
  nextLabel _ := trivial
  markContinued _ := trivial
  enclosed _ := trivial
  enclosed_stops _ := trivial

theorem Edit.Keeps.steady {α : Type} {G : Guarantee} {a : Edit α} (h : Keeps G a) : Keeps .steady a := by
  intro d _
  have ended := h.after d
  rcases ran : a d with ⟨fault | x, d'⟩ <;> rw [ran] at ended
  · exact trivial
  · exact ⟨trivial, ended.2⟩

theorem Rules.Holds.steady {G : Guarantee} {r : Rules} (hr : r.Keeps G) : r.Keeps .steady :=
  ⟨Keeps.steady hr.statement, Keeps.steady hr.expression⟩

/-- What is to be shown of an action that stays on its list. -/
theorem Edit.Keeps.of_steady {α : Type} {G : Guarantee} {a : Edit α} (h : Keeps .steady a)
    (returns : ∀ {d d' x}, a d = (.ok x, d') → G.returns d d')
    (stops : ∀ {d d' fault}, a d = (.error fault, d') → G.stops fault d d') : Keeps G a := by
  intro d _
  have ended := h.after d
  rcases ran : a d with ⟨fault | x, d'⟩ <;> rw [ran] at ended
  · exact stops ran
  · exact ⟨returns ran, ended.2⟩

end NoteScript

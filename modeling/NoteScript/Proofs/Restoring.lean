import Mathlib.Data.List.Forall2
import NoteScript.Proofs.Guarantee

/-!
# What a rule puts back

A rule opens captures, enters loops and functions, turns a value into statements and sets a cursor of its
own on nested tokens. However it ends, with a result or with a fault from any depth, the next statement
of the run finds the desk in order:

* `Desk.InOrder`: the enclosures are those of before, up to loops that were jumped to meanwhile; the
  captures and the kind of the sheet are those of before; the cursor is on the same tokens, not further
  back; the map variables and the diagnostics were only added to.
* `Rules.inOrder_within`: every rule leaves the desk so, at every depth of nesting.
* `desk_in_order`: hence a statement, a unit of an expression and a block do.
-/

namespace NoteScript

open Edit

/-! ### The same enclosures -/

/-- `e.Marks e'`: the same enclosure, where a loop may have been jumped to meanwhile. -/
inductive Enclosure.Marks : Enclosure → Enclosure → Prop where
  | same (e : Enclosure) : Marks e e
  | jumped (label : String) : Marks (.loop label false) (.loop label true)

theorem Enclosure.Marks.trans {e e' e'' : Enclosure} (h : e.Marks e') (h' : e'.Marks e'') : e.Marks e'' := by
  cases h with
  | same => exact h'
  | jumped label =>
    cases h' with
    | same => exact .jumped label

theorem Enclosure.forall₂_marks_refl (es : List Enclosure) : List.Forall₂ Marks es es := List.forall₂_same.mpr fun e _ => .same e

theorem Enclosure.forall₂_marks_trans {es es' es'' : List Enclosure} (h : List.Forall₂ Marks es es')
    (h' : List.Forall₂ Marks es' es'') : List.Forall₂ Marks es es'' := by
  induction h generalizing es'' with
  | nil => exact h'
  | cons head _ ih =>
    cases h' with
    | cons head' tail' => exact .cons (head.trans head') (ih tail')

/-! ### Moves stay on the tokens -/

theorem Cursor.pos_advanceBy (c : Cursor) (n : Nat) : (c.advanceBy n).pos = c.pos + n := by
  induction n generalizing c with
  | zero => rfl
  | succ n ih =>
    rw [advanceBy, ih]
    unfold advance pos
    split <;> simp only [List.length_cons] <;> omega

/-! ### The guarantee -/

/-- `d.InOrder d'`: the desk `d'` has the bookkeeping of `d`, but for what may be added to it. -/
structure Desk.InOrder (d d' : Desk) : Prop where
  enclosures : List.Forall₂ Enclosure.Marks d.enclosures d'.enclosures
  inExpression : d'.inExpression = d.inExpression
  /-- The text around each open capture, so that writing goes on in the same buffer. -/
  held : d'.held = d.held
  tokens : d'.cursor.tokens = d.cursor.tokens
  pos : d.cursor.pos ≤ d'.cursor.pos
  mapNames : d.mapNames <+: d'.mapNames
  diagnostics : d.diagnostics <+: d'.diagnostics

namespace Desk.InOrder

variable {d d' d'' e : Desk}

/-- Another cursor on the same tokens, not further back, another text and another start of the statement:
the rest is as before. -/
theorem of_same (tokens : d'.cursor.tokens = d.cursor.tokens) (pos : d.cursor.pos ≤ d'.cursor.pos)
    (held : d'.held = d.held) (inExpression : d'.inExpression = d.inExpression)
    (enclosures : d'.enclosures = d.enclosures) (mapNames : d'.mapNames = d.mapNames)
    (diagnostics : d'.diagnostics = d.diagnostics) : d.InOrder d' where
  enclosures := by
    rw [enclosures]
    exact Enclosure.forall₂_marks_refl _
  inExpression := inExpression
  held := held
  tokens := tokens
  pos := pos
  mapNames := mapNames ▸ List.prefix_rfl
  diagnostics := diagnostics ▸ List.prefix_rfl

theorem refl (d : Desk) : d.InOrder d := .of_same rfl (Nat.le_refl _) rfl rfl rfl rfl rfl

theorem trans (h : d.InOrder d') (h' : d'.InOrder d'') : d.InOrder d'' where
  enclosures := Enclosure.forall₂_marks_trans h.enclosures h'.enclosures
  inExpression := h'.inExpression.trans h.inExpression
  held := h'.held.trans h.held
  tokens := h'.tokens.trans h.tokens
  pos := Nat.le_trans h.pos h'.pos
  mapNames := h.mapNames.trans h'.mapNames
  diagnostics := h.diagnostics.trans h'.diagnostics

theorem move (d : Desk) (n : Nat) : d.InOrder { d with cursor := d.cursor.advanceBy n } :=
  .of_same (d.cursor.tokens_advanceBy n) (by rw [Cursor.pos_advanceBy]; exact Nat.le_add_right _ _)
    rfl rfl rfl rfl rfl

theorem markStatement (d : Desk) : d.InOrder (d.onSheet d.toSheet.markStatement) := by
  unfold Sheet.markStatement
  split <;> exact .of_same rfl (Nat.le_refl _) rfl rfl rfl rfl rfl

theorem addMapName (d : Desk) (name : String) : d.InOrder { d with toLedger := d.toLedger.addMapName name } := by
  unfold Ledger.addMapName
  split
  · exact .refl d
  · exact { refl d with mapNames := List.prefix_append _ _ }

/-- Behind a capture the text around it is the current one again. -/
theorem capture (h : (d.onSheet d.toSheet.beginCapture).InOrder e) : d.InOrder (e.onSheet e.toSheet.endCapture) := by
  have held : e.held = d.out :: d.held := h.held
  have ended : e.toSheet.endCapture = { e.toSheet with
      out := d.out, held := d.held
      statementStart := e.statementStart.filter fun start => start.1 ≤ d.held.length } := by
    simp only [Sheet.endCapture, held]
  rw [ended]
  exact { h with held := rfl }

/-- Behind a nested token list the sheet is the one of before. -/
theorem nested {tokens : List Token} (h : (d.onSheet (.nested tokens)).InOrder e) : d.InOrder (e.onSheet d.toSheet) where
  enclosures := h.enclosures
  inExpression := rfl
  held := rfl
  tokens := rfl
  pos := Nat.le_refl _
  mapNames := h.mapNames
  diagnostics := h.diagnostics

theorem asStatements (h : { d with inExpression := false }.InOrder e) :
    d.InOrder { e with inExpression := d.inExpression } := { h with inExpression := rfl }

/-- Behind a loop or a function its enclosure is gone. -/
theorem enclosed {enclosure : Enclosure} {journal journal' : List Event}
    (h : { d with enclosures := enclosure :: d.enclosures, journal := journal }.InOrder e) :
    d.InOrder { e with enclosures := e.enclosures.tail, journal := journal' } := by
  have inside : List.Forall₂ Enclosure.Marks (enclosure :: d.enclosures) e.enclosures := h.enclosures
  refine { h with enclosures := ?_ }
  generalize e.enclosures = left at inside
  cases inside with
  | cons _ outside => exact outside

end Desk.InOrder

/-- The desk is in order, whether an action returns or is stopped. -/
def Guarantee.inOrder : Guarantee where
  returns := Desk.InOrder
  stops _ := Desk.InOrder

/-- A jump marks the innermost loop. -/
theorem Desk.InOrder.markContinued (d : Desk) : d.InOrder { d with toLedger := d.toLedger.markContinued } := by
  unfold Ledger.markContinued
  split
  · rename_i label continued outer inLoop
    refine { refl d with enclosures := ?_ }
    rw [inLoop]
    refine .cons ?_ (Enclosure.forall₂_marks_refl outer)
    cases continued
    · exact .jumped label
    · exact .same _
  · exact .refl d

instance : Guarantee.inOrder.Plain where
  refl := .refl
  trans := .trans
  halt _ returned := returned
  trans_stops := .trans
  move := .move
  write _ _ := .of_same rfl (Nat.le_refl _) rfl rfl rfl rfl rfl
  markStatement := .markStatement
  warn d _ := { Desk.InOrder.refl d with diagnostics := List.prefix_append _ _ }
  addMapName := .addMapName
  capture := .capture
  capture_stops := .capture
  nested _ := .nested
  nested_stops _ := .nested
  asStatements := .asStatements
  asStatements_stops := .asStatements
  function := .enclosed
  function_stops := .enclosed
  record _ _ := .of_same rfl (Nat.le_refl _) rfl rfl rfl rfl rfl
  nextLabel _ := .of_same rfl (Nat.le_refl _) rfl rfl rfl rfl rfl
  markContinued := .markContinued
  enclosed := .enclosed
  enclosed_stops := .enclosed

/-- Every rule leaves the desk in order, at every depth of nesting. -/
theorem Rules.inOrder_within (depth : Nat) : (within depth).Keeps .inOrder := holds_within holds_loops depth

/-- An action that keeps the desk in order leaves it so, however it ends. -/
theorem Edit.Keeps.inOrder {α : Type} {a : Edit α} (h : Edit.Keeps .inOrder a) (d : Desk) : d.InOrder (a d).2 := by
  rcases run : a d with ⟨fault | x, d'⟩
  · exact h.stops run
  · exact h.returns run

/-- From every desk, a statement, a unit of an expression and a block leave the desk in order, whether
they are taken or a fault stops them. -/
theorem desk_in_order (d : Desk) :
    d.InOrder (Edit.statement d).2 ∧ d.InOrder (Edit.expression d).2 ∧ d.InOrder (Edit.block d).2 := by
  have statement : Edit.Keeps .inOrder Edit.statement :=
    Keeps.get.bind fun d => (Rules.inOrder_within d.budget).statement
  have expression : Edit.Keeps .inOrder Edit.expression :=
    Keeps.get.bind fun d => (Rules.inOrder_within d.budget).expression
  have block : Edit.Keeps .inOrder Edit.block :=
    Keeps.get.bind fun d => Rules.holds_block (Rules.inOrder_within d.budget)
  exact ⟨statement.inOrder d, expression.inOrder d, block.inOrder d⟩

end NoteScript

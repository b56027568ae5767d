import Mathlib.Tactic.Common
import NoteScript.Edit

/-!
# Running actions on the desk

What an action does is read off by applying it to a desk. The equations below run a sequence step by
step, forwards (`bind_ok`) and backwards (`bind_eq_ok`), and say where the cursor can be moved to: every
move is a number of steps on.
-/

namespace NoteScript

namespace Edit

variable {α β : Type} {a : Edit α} {f : α → Edit β} {d d' d'' : Desk} {x : α} {y : β} {fault : Fault}

/-! ### Sequences -/

theorem bind_apply (a : Edit α) (f : α → Edit β) (d : Desk) : (a >>= f) d = match a d with
      | (.ok x, d') => f x d'
      | (.error fault, d') => (.error fault, d') := by
  simp only [bind, ExceptT.bind, ExceptT.mk, StateT.bind, ExceptT.bindCont]
  rcases a d with ⟨_ | _, _⟩ <;> rfl

/-- A sequence goes on where its first action returned. -/
theorem bind_ok (h : a d = (.ok x, d')) : (a >>= f) d = f x d' := by
  rw [bind_apply, h]

/-- A sequence that returned has a first action that returned. -/
theorem bind_eq_ok : (a >>= f) d = (.ok y, d'') ↔ ∃ x d', a d = (.ok x, d') ∧ f x d' = (.ok y, d'') := by
  rw [bind_apply]
  constructor
  · intro run
    rcases first : a d with ⟨_ | x, d'⟩ <;> rw [first] at run
    · cases run
    · exact ⟨x, d', rfl, run⟩
  · rintro ⟨x, d', first, second⟩
    rw [first]
    exact second

end Edit

/-! ### Moves of the cursor -/

namespace Cursor

theorem advanceBy_add (c : Cursor) (m n : Nat) : c.advanceBy (m + n) = (c.advanceBy m).advanceBy n := by
  induction m generalizing c with
  | zero => rw [Nat.zero_add, advanceBy]
  | succ m ih => rw [Nat.add_right_comm, advanceBy, advanceBy, ih]

/-- A move that takes a number of steps on from every place. -/
def StepsOn (move : Cursor → Cursor) : Prop := ∀ c, ∃ n, move c = c.advanceBy n

theorem stepsOn_advance : StepsOn advance := fun _ => ⟨1, rfl⟩

theorem stepsOn_skipSpace : StepsOn skipSpace := fun _ => ⟨_, rfl⟩

/-- One move behind another is a move of both counts. -/
theorem StepsOn.comp {f g : Cursor → Cursor} (hf : StepsOn f) (hg : StepsOn g) : StepsOn fun c => g (f c) := by
  intro c
  obtain ⟨m, hm⟩ := hf c
  obtain ⟨n, hn⟩ := hg (c.advanceBy m)
  refine ⟨m + n, ?_⟩
  dsimp only
  rw [hm, hn, advanceBy_add]

/-- A group leaves the cursor a number of steps on, closed or not. -/
theorem group_stepsOn (c : Cursor) (opener closer : String) : ∃ n, (c.group opener closer).2 = c.advanceBy n := by
  unfold group
  split
  · split
    · exact ⟨_, rfl⟩
    · exact ⟨_, rfl⟩
  · exact ⟨0, rfl⟩

end Cursor

end NoteScript

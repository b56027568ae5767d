import Mathlib.Data.List.Infix

/-!
# Brackets that balance

Brackets of one kind, among other things in a row: `Balances` counts them, and `Closes` is what is left to do when some of them
are open already. The lemmas on `Closes` read a row from its start, with the brackets that are open.
-/

namespace NoteScript

theorem forall_prefix_cons {α : Type} {P : List α → Prop} {a : α} {l : List α} :
    (∀ front, front <+: a :: l → P front) ↔ P [] ∧ ∀ front, front <+: l → P (a :: front) := by
  constructor
  · exact fun h => ⟨h [] List.nil_prefix, fun front beginning => h _ (List.cons_prefix_cons.mpr ⟨rfl, beginning⟩)⟩
  · rintro ⟨nil, cons⟩ front beginning
    rcases List.prefix_cons_iff.mp beginning with rfl | ⟨others, rfl, later⟩
    · exact nil
    · exact cons others later

variable {α : Type} [DecidableEq α] {opening closing : α}

/-- As many brackets are closed as are opened, and no beginning closes more than it opens. -/
def Balances (opening closing : α) (l : List α) : Prop :=
  l.count opening = l.count closing ∧ ∀ front, front <+: l → front.count closing ≤ front.count opening

instance (l : List α) : Decidable (Balances opening closing l) :=
  decidable_of_iff (l.count opening = l.count closing ∧ ∀ front ∈ l.inits, front.count closing ≤ front.count opening)
    (by simp only [Balances, List.mem_inits])

/-- The brackets that are opened are closed, and so are `depth` brackets that were open before. -/
def Closes (opening closing : α) (depth : Nat) (l : List α) : Prop :=
  l.count opening + depth = l.count closing ∧ ∀ front, front <+: l → front.count closing ≤ front.count opening + depth

theorem closes_zero {l : List α} : Closes opening closing 0 l ↔ Balances opening closing l := Iff.rfl

theorem closes_nil {depth : Nat} : Closes opening closing depth [] ↔ depth = 0 := by
  simp [Closes]

theorem closes_opening (apart : opening ≠ closing) {depth : Nat} {l : List α} :
    Closes opening closing depth (opening :: l) ↔ Closes opening closing (depth + 1) l := by
  simp only [Closes, forall_prefix_cons, List.count_cons_self, List.count_cons_of_ne apart, List.count_nil, Nat.zero_le, true_and]
  simp only [Nat.add_assoc, Nat.add_comm depth 1]

theorem closes_closing (apart : opening ≠ closing) {depth : Nat} {l : List α} :
    Closes opening closing depth (closing :: l) ↔ 0 < depth ∧ Closes opening closing (depth - 1) l := by
  simp only [Closes, forall_prefix_cons, List.count_cons_self, List.count_cons_of_ne apart.symm, List.count_nil, Nat.zero_le, true_and]
  constructor
  · rintro ⟨total, fronts⟩
    have first := fronts [] List.nil_prefix
    simp only [List.count_nil] at first
    refine ⟨by omega, by omega, fun front beginning => ?_⟩
    have := fronts front beginning
    omega
  · rintro ⟨pos, total, fronts⟩
    refine ⟨by omega, fun front beginning => ?_⟩
    have := fronts front beginning
    omega

theorem closes_other {a : α} (notOpening : a ≠ opening) (notClosing : a ≠ closing) {depth : Nat} {l : List α} :
    Closes opening closing depth (a :: l) ↔ Closes opening closing depth l := by
  simp only [Closes, forall_prefix_cons, List.count_cons_of_ne notOpening, List.count_cons_of_ne notClosing, List.count_nil,
    Nat.zero_le, true_and]

end NoteScript

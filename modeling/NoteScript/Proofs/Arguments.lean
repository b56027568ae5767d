import Mathlib.Data.List.Infix
import Mathlib.Tactic.Common
import NoteScript.Token.Group

/-!
# Groups between separators

The depth of brackets is one number for all three kinds of them, and it may go below zero. So a list need not be balanced to be
cut into groups, and it is put together again from them.

* `IsOuter`: a beginning of a list that ends with the separator, outside brackets.
* `Splits`: how a list is cut behind what was read before it; `splits_splitFrom`: the cutting does this.
* `splitOn_joins`: the groups of a list with the separator between them are the list, and they are cut at the outer separators
  and nowhere else.
-/

namespace NoteScript.Token

/-- The token that stands between two groups. -/
abbrev between (separator : String) : Token := ⟨.punctuation, separator⟩

/-- How many more brackets are opened than closed. -/
def openings (ts : List Token) : Int := ts.countP isOpener - ts.countP isCloser

/-- A beginning of a list that ends with the separator, where no bracket is open. -/
def IsOuter (separator : String) (front : List Token) : Prop := front.getLast? = some (between separator) ∧ openings front = 0

instance (separator : String) : DecidablePred (IsOuter separator) := fun _ => inferInstanceAs (Decidable (_ ∧ _))

/-- A bracket that closes does not open. -/
theorem isOpener_of_isCloser {t : Token} (h : t.isCloser = true) : t.isOpener = false := by
  have marks : ∀ text ∈ closers, text ∉ openers := by decide
  simp only [isCloser, isOpener, isPunct, Bool.and_eq_true, List.contains_iff_mem] at h ⊢
  simp [marks _ h.2]

theorem openings_concat (front : List Token) (t : Token) : openings (front ++ [t]) =
    if t.isOpener then openings front + 1 else if t.isCloser then openings front - 1 else openings front := by
  have apart := @isOpener_of_isCloser t
  simp only [openings, List.countP_append, List.countP_singleton]
  split_ifs <;> simp_all <;> omega

/-- The beginnings of a list are the empty one and others. -/
theorem inits_eq (ts : List Token) : ts.inits = [] :: ts.inits.tail := by
  cases ts <;> rfl

variable {separator : String} {front ts : List Token} {groups : List (List Token)}

/-- The groups of a list, where `front` was read before it. -/
inductive Splits (separator : String) : List Token → List Token → List (List Token) → Prop where
  | done {front : List Token} : Splits separator front [] [[]]
  | cut {front ts : List Token} {groups : List (List Token)} (outer : IsOuter separator (front ++ [between separator]))
      (further : Splits separator (front ++ [between separator]) ts groups) :
      Splits separator front (between separator :: ts) ([] :: groups)
  | keep {front ts group : List Token} {groups : List (List Token)} {t : Token} (inner : ¬ IsOuter separator (front ++ [t]))
      (further : Splits separator (front ++ [t]) ts (group :: groups)) :
      Splits separator front (t :: ts) ((t :: group) :: groups)

theorem splits_splitFrom (separator : String) (front group ts : List Token) : ∃ first groups,
    splitFrom separator (openings front) group ts = (group.reverse ++ first) :: groups ∧
      Splits separator front ts (first :: groups) := by
  induction ts generalizing front group with
  | nil => exact ⟨[], [], by simp [splitFrom], .done⟩
  | cons t ts ih =>
    have outer : (openings (front ++ [t]) == 0 && t.isPunct [separator]) = true ↔ IsOuter separator (front ++ [t]) := by
      obtain ⟨kind, text⟩ := t
      simp [IsOuter, isPunct, and_comm]
    rw [splitFrom, ← openings_concat]
    split
    · rename_i cuts
      obtain ⟨last, -⟩ := outer.mp cuts
      obtain rfl : t = between separator := by simpa using last
      obtain ⟨first, groups, shape, splits⟩ := ih (front ++ [between separator]) []
      exact ⟨[], first :: groups, by simp [shape], .cut (outer.mp cuts) splits⟩
    · rename_i keeps
      obtain ⟨first, groups, shape, splits⟩ := ih (front ++ [t]) (t :: group)
      exact ⟨t :: first, groups, by simp [shape], .keep (mt outer.mpr keeps) splits⟩

theorem splits_splitOn (separator : String) (ts : List Token) : Splits separator [] ts (splitOn separator ts) := by
  obtain ⟨first, groups, shape, splits⟩ := splits_splitFrom separator [] [] ts
  have same : splitOn separator ts = first :: groups := shape
  rwa [same]

namespace Splits

theorem ne_nil (h : Splits separator front ts groups) : groups ≠ [] := by
  cases h <;> simp

theorem join_eq (h : Splits separator front ts groups) : [between separator].intercalate groups = ts := by
  induction h with
  | done => rfl
  | cut _ further ih =>
    obtain ⟨group, groups, rfl⟩ := List.exists_cons_of_ne_nil further.ne_nil
    rw [List.intercalate_cons_cons, ih]
    rfl
  | @keep _ _ _ groups _ _ _ ih =>
    cases groups with
    | nil => simpa using ih
    | cons => simpa [List.intercalate_cons_cons] using ih

/-- There is a group more than there are separators that count. -/
theorem length_eq (h : Splits separator front ts groups) :
    groups.length = ts.inits.tail.countP (fun part => IsOuter separator (front ++ part)) + 1 := by
  have step : ∀ (front : List Token) (t : Token) (ts : List Token),
      (t :: ts).inits.tail.countP (fun part => IsOuter separator (front ++ part)) =
        ts.inits.tail.countP (fun part => IsOuter separator (front ++ [t] ++ part)) +
          if IsOuter separator (front ++ [t]) then 1 else 0 := by
    intro front t ts
    rw [List.inits_cons, List.tail_cons, List.countP_map, inits_eq, List.countP_cons]
    simp [Function.comp_def]
  induction h with
  | done => rfl
  | cut outer _ ih => rw [step, if_pos outer, List.length_cons, ih]
  | keep inner _ ih => rw [step, if_neg inner, List.length_cons, ← ih, List.length_cons]

/-- Inside a group no separator counts. -/
theorem inner (h : Splits separator front ts groups) {done behind : List (List Token)} {before after : List Token}
    (split : groups = done ++ (before ++ between separator :: after) :: behind) :
    ¬ IsOuter separator (front ++ ([between separator].intercalate (done ++ [before]) ++ [between separator])) := by
  induction h generalizing done before with
  | done => cases done <;> simp at split
  | @cut front ts groups _ _ ih =>
    cases done with
    | nil => simp at split
    | cons group done =>
      obtain ⟨rfl, shape⟩ := List.cons.inj split
      have inner := ih shape
      cases done <;> simpa [List.intercalate_cons_cons] using inner
  | @keep front ts group groups t here _ ih =>
    cases done with
    | nil =>
      obtain ⟨first, same⟩ := List.cons.inj split
      cases before with
      | nil =>
        obtain ⟨rfl, -⟩ := List.cons.inj first
        simpa using here
      | cons u before =>
        obtain ⟨rfl, shape⟩ := List.cons.inj first
        have inner := @ih [] before (congrArg₂ List.cons shape same)
        simpa using inner
    | cons first done =>
      obtain ⟨rfl, shape⟩ := List.cons.inj split
      have inner := @ih (group :: done) before (congrArg (group :: ·) shape)
      cases done <;> simpa [List.intercalate_cons_cons] using inner

end Splits

/-- The first group, and the others put together again. -/
theorem exists_splitFirst (ts : List Token) : ∃ first others, splitOn "," ts = first :: others ∧
    splitFirst ts = (first, [comma].intercalate others) ∧ [comma].intercalate (first :: others) = ts := by
  have splits := splits_splitOn "," ts
  obtain ⟨first, others, shape⟩ := List.exists_cons_of_ne_nil splits.ne_nil
  exact ⟨first, others, shape, by rw [splitFirst, shape], shape ▸ splits.join_eq⟩

/-- A list of tokens, balanced or not, is its groups with the separator between them. Inside a group the separator does not stand
outside the brackets of the list, and there is one group more than there are places where it does. What is behind the first
outer comma is put together again, and without one the first argument is all there is. -/
theorem splitOn_joins (separator : String) (ts : List Token) : [between separator].intercalate (splitOn separator ts) = ts ∧
      (∀ done before after behind, splitOn separator ts = done ++ (before ++ between separator :: after) :: behind →
        ¬ IsOuter separator ([between separator].intercalate (done ++ [before]) ++ [between separator])) ∧
      (splitOn separator ts).length = ts.inits.countP (IsOuter separator) + 1 ∧
      ((∃ front, front <+: ts ∧ IsOuter "," front) → (splitFirst ts).1 ++ comma :: (splitFirst ts).2 = ts) ∧
      ((∀ front, front <+: ts → ¬ IsOuter "," front) → splitFirst ts = (ts, [])) := by
  have count : ∀ separator, (splitOn separator ts).length = ts.inits.countP (IsOuter separator) + 1 := by
    intro separator
    rw [inits_eq]
    simpa [IsOuter] using (splits_splitOn separator ts).length_eq
  obtain ⟨first, others, shape, parts, joined⟩ := exists_splitFirst ts
  have commas := count ","
  rw [shape] at commas
  have splits := splits_splitOn separator ts
  refine ⟨splits.join_eq, fun _ _ _ _ split => splits.inner split, count separator, ?_, ?_⟩
  · rintro ⟨front, begins, outer⟩
    cases others with
    | nil =>
      have none := List.countP_eq_zero.mp (Nat.succ.inj commas).symm front ((List.mem_inits _ _).mpr begins)
      simp [outer] at none
    | cons second others =>
      rw [parts, ← joined, List.intercalate_cons_cons]
      simp [comma]
  · intro none
    have zero : ts.inits.countP (IsOuter ",") = 0 := by
      refine List.countP_eq_zero.mpr fun front mem => ?_
      simpa using none front ((List.mem_inits _ _).mp mem)
    obtain rfl : others = [] := by simpa [zero] using commas
    rw [parts, ← joined]
    simp

/-- A comma in brackets does not count, and the one behind them does. -/
theorem splitOn_joins_nested : let ts := [⟨.punctuation, "("⟩, comma, ⟨.punctuation, ")"⟩, comma, eof]
    IsOuter "," (ts.take 4) ∧ (splitFirst ts).1 ++ comma :: (splitFirst ts).2 = ts := by
  intro ts
  have outer : IsOuter "," (ts.take 4) := by decide
  exact ⟨outer, (splitOn_joins "," ts).2.2.2.1 ⟨_, List.take_prefix 4 ts, outer⟩⟩

end NoteScript.Token

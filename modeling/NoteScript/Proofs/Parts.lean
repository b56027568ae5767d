import NoteScript.Proofs.Actions
import NoteScript.Proofs.Arguments
import NoteScript.Rules.Nesting

/-!
# Parts of the list at hand

A rule works on the token list that its cursor is on, and what it reads as a list of its own comes from
there. This is followed from the cursor to the token lists that are handed out:

* `Cursor.Takes`: the tokens between two places of a cursor are a part of its list.
* `Cursor.infix_of_group`, `Cursor.foundOn_of_group`: a group is a part of the list, and one that is missing
  or never closed is a fault at its place.
* `Token.infix_of_mem_splitOn`, `Token.infix_splitFirst`, `Rules.suffix_forEach`: so are the pieces that a
  group is cut into.
* `Token.ReadFrom`: the lists that are read on their own.
-/

namespace NoteScript

/-! ### Pieces of a group -/

namespace Token

theorem infix_intercalate {group : List Token} {groups : List (List Token)} (mem : group ∈ groups) :
    group <:+: [comma].intercalate groups := by
  induction groups with
  | nil => cases mem
  | cons first others ih =>
    cases others with
    | nil =>
      obtain rfl := List.mem_singleton.mp mem
      simp
    | cons second others =>
      rw [List.intercalate_cons_cons]
      rcases List.mem_cons.mp mem with rfl | later
      · exact ((List.prefix_append _ _).trans (List.prefix_append _ _)).isInfix
      · exact (ih later).trans (List.suffix_append _ _).isInfix

theorem infix_of_mem_splitOn {ts group : List Token} (mem : group ∈ splitOn "," ts) : group <:+: ts := by
  have joined : [comma].intercalate (splitOn "," ts) = ts := (splits_splitOn "," ts).join_eq
  exact joined ▸ infix_intercalate mem

theorem infix_splitFirst (ts : List Token) : (splitFirst ts).1 <:+: ts ∧ (splitFirst ts).2 <:+: ts := by
  obtain ⟨first, others, shape, split, joined⟩ := exists_splitFirst ts
  rw [split]
  refine ⟨infix_of_mem_splitOn (by rw [shape]; exact List.mem_cons_self), ?_⟩
  cases others with
  | nil => simp [List.intercalate]
  | cons second others =>
    rw [List.intercalate_cons_cons] at joined
    rw [← joined]
    exact (List.suffix_append _ _).isInfix

end Token

namespace Rules

theorem suffix_forEach {head : List Token} {each : ForEach} (found : forEach? head = some each) : each.collection <:+ head := by
  have trivia : ∀ ts, dropTrivia ts <:+ ts := fun ts => List.dropWhile_suffix _
  have undeclared : dropDeclarationWord head <:+ head := by
    have within := trivia head
    unfold dropDeclarationWord
    rcases shape : dropTrivia head with _ | ⟨t, rest⟩ <;> rw [shape] at within
    · exact List.nil_suffix
    · dsimp only
      split
      · exact ((trivia rest).trans (List.suffix_cons t rest)).trans within
      · exact within
  unfold forEach? at found
  rcases shape : dropDeclarationWord head with _ | ⟨name, rest⟩ <;> rw [shape] at found undeclared
  · cases found
  · have behind := trivia rest
    rcases shape' : dropTrivia rest with _ | ⟨word, collection⟩ <;> simp only [shape'] at found behind
    · cases found
    · split at found
      · cases found
        exact ((List.suffix_cons word collection).trans behind).trans ((List.suffix_cons name rest).trans undeclared)
      · cases found

end Rules

/-! ### The list that a cursor is on -/

namespace Cursor

theorem tokens_advanceBy (c : Cursor) (n : Nat) : (c.advanceBy n).tokens = c.tokens := by
  induction n generalizing c with
  | zero => rfl
  | succ n ih =>
    rw [advanceBy, ih]
    unfold advance tokens
    split <;> simp_all

theorem rest_advanceBy (c : Cursor) (n : Nat) : (c.advanceBy n).rest = c.rest.drop n := by
  induction n generalizing c with
  | zero => rfl
  | succ n ih =>
    rw [advanceBy, ih, advance]
    split <;> simp_all

theorem current_mem {c : Cursor} (inside : c.atEnd = false) : c.current ∈ c.tokens := by
  rcases rest : c.rest with _ | ⟨t, ts⟩
  · simp [atEnd, current, rest, Token.isEof, Token.eof] at inside
  · simp [current, tokens, rest]

/-- `c.Takes taken c'`: the cursor `c'` is on the same list, behind the tokens `taken`. -/
structure Takes (c : Cursor) (taken : List Token) (c' : Cursor) : Prop where
  tokens : c'.tokens = c.tokens
  rest : c.rest = taken ++ c'.rest

namespace Takes

variable {c c' c'' : Cursor} {taken more : List Token}

theorem nil (c : Cursor) : c.Takes [] c := ⟨rfl, rfl⟩

theorem append (h : c.Takes taken c') (h' : c'.Takes more c'') : c.Takes (taken ++ more) c'' :=
  ⟨h'.tokens.trans h.tokens, by rw [h.rest, h'.rest, List.append_assoc]⟩

/-- A move takes the tokens between the two places. -/
theorem of_stepsOn {move : Cursor → Cursor} (h : StepsOn move) (c : Cursor) : c.Takes ((move c).passedSince c) (move c) := by
  obtain ⟨n, same⟩ := h c
  refine ⟨by rw [same, tokens_advanceBy], ?_⟩
  rw [same, passedSince, rest_advanceBy, List.length_drop]
  by_cases inside : n ≤ c.rest.length
  · rw [Nat.sub_sub_self inside, List.take_append_drop]
  · rw [List.drop_eq_nil_of_le (by omega), Nat.sub_eq_zero_of_le (Nat.le_of_not_le inside), List.append_nil,
      Nat.sub_zero, List.take_length]

/-- A step takes the token at the cursor. -/
theorem advance (inside : c.atEnd = false) : c.Takes [c.current] c.advance := by
  refine ⟨c.tokens_advanceBy 1, ?_⟩
  rcases rest : c.rest with _ | ⟨t, ts⟩
  · simp [atEnd, current, rest, Token.isEof, Token.eof] at inside
  · simp [current, Cursor.advance, rest]

/-- What was taken is a part of the list. -/
theorem isInfix (h : c.Takes taken c') : taken <:+: c'.tokens := by
  rw [h.tokens, Cursor.tokens, h.rest, ← List.append_assoc]
  exact List.infix_append _ _ _

end Takes

/-! ### Groups -/

/-- A group is followed by its closing bracket, and no closing token stands before that. -/
theorem groupFrom_eq_some {opener closer : String} {depth : Nat} {ts inside : List Token}
    (found : groupFrom opener closer depth ts = some inside) :
    ∃ t rest, ts = inside ++ t :: rest ∧ t.isEof = false ∧ ∀ u ∈ inside, u.isEof = false := by
  induction ts generalizing depth inside with
  | nil => cases found
  | cons t ts ih =>
    have cons : ∀ depth, t.isEof = false → (groupFrom opener closer depth ts).map (t :: ·) = some inside →
        ∃ u rest, t :: ts = inside ++ u :: rest ∧ u.isEof = false ∧ ∀ v ∈ inside, v.isEof = false := by
      intro depth first found
      obtain ⟨inside', found', rfl⟩ := Option.map_eq_some_iff.mp found
      obtain ⟨u, rest, rfl, last, later⟩ := ih found'
      exact ⟨u, rest, rfl, last, List.forall_mem_cons.mpr ⟨first, later⟩⟩
    unfold groupFrom at found
    split_ifs at found with ended opens closes
    · exact cons _ (by simpa using ended) found
    · cases depth with
      | zero =>
        cases found
        exact ⟨t, ts, rfl, by simpa using ended, by simp⟩
      | succ depth => exact cons _ (by simpa using ended) found
    · exact cons _ (by simpa using ended) found

theorem infix_of_group {c : Cursor} {opener closer : String} {inside : List Token}
    (found : (c.group opener closer).1 = .ok inside) : inside <:+: c.tokens := by
  unfold group at found
  split at found
  · split at found <;> cases found
    rename_i taken
    obtain ⟨t, rest, shape, -, -⟩ := groupFrom_eq_some taken
    have whole : c.advance.tokens = c.tokens := c.tokens_advanceBy 1
    rw [← whole, tokens, shape, ← List.append_assoc]
    exact List.infix_append _ _ _
  · cases found

end Cursor

/-! ### Faults at their places -/

/-- `f.Fits`: what the fault says is so at its place. -/
def Fault.Fits : Fault → Prop
  | .expected opener place => place.atPunct [opener] = false
  | .unterminated opener place => place.atPunct [opener] = true ∧ ∃ closer, Token.openerOf closer = some opener ∧
        Cursor.groupFrom opener closer 0 place.advance.rest = none
  | .unterminatedBlock place => place.atPunct ["\x7b"] = true
  | .missingWhile place => (place.ahead 0).1.isWord "while" = false
  | .tooDeep => True

/-- `f.FoundOn tokens`: the fault fits its place, which is on this token list. -/
structure Fault.FoundOn (f : Fault) (tokens : List Token) : Prop where
  fits : f.Fits
  place {place : Cursor} : f.place? = some place → place.tokens = tokens

theorem Fault.foundOn_tooDeep (tokens : List Token) : Fault.tooDeep.FoundOn tokens where
  fits := trivial
  place := by
    intro place found
    cases found

theorem Cursor.foundOn_of_group {c : Cursor} {opener closer : String} {fault : Fault}
    (pair : Token.openerOf closer = some opener) (found : (c.group opener closer).1 = .error fault) :
    fault.FoundOn c.tokens := by
  unfold group at found
  split at found
  · rename_i opened
    split at found <;> cases found
    rename_i none
    exact ⟨⟨opened, closer, pair, none⟩, fun same => by cases same; rfl⟩
  · rename_i missing
    cases found
    exact ⟨by simpa [Fault.Fits] using missing, fun same => by cases same; rfl⟩

/-! ### Lists of their own -/

/-- `ReadFrom tokens nested`: the list `nested` is a part of `tokens` or cut from what a template in it
embeds. -/
inductive Token.ReadFrom (tokens : List Token) : List Token → Prop where
  | part {part : List Token} : part <:+: tokens → ReadFrom tokens part
  | embedded {t : Token} {parts : List TemplatePart} {inner : String} : t ∈ tokens →
      t.kind = .template parts → .expr inner ∈ parts → ReadFrom tokens (scan inner)

end NoteScript

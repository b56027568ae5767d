import NoteScript.Proofs.Balance
import NoteScript.Proofs.Course
import NoteScript.Proofs.Places
import NoteScript.Proofs.Script

/-!
# Groups and the pairing of brackets

A group is collected with an eye on one shape of brackets only, while the brackets of a source pair with all three shapes in view.
Where the source is well nested the two agree.

* `Token.WellNested.closed`: in well-nested tokens the brackets of any one shape are closed, whatever the other shapes do.
* `Token.exists_partner`: an opening bracket that the check lets pass has its partner, around well-nested tokens.
* `Token.wellNested_of_mem_splitOn`: the groups between the outer commas of well-nested tokens are well nested.
* `Cursor.groupFrom_eq_some_iff`: what a group is, by counts of the two brackets.
* `Cursor.group_matching`: groups of sources whose brackets pair, and the ways in which a group fails.
-/

namespace NoteScript

namespace Token

variable {opener closer : String}
variable {ts : List Token}

/-! ### One shape among three -/

theorem ne_of_pair (pair : (opener, closer) ∈ bracketPairs) : opener ≠ closer :=
  (by decide : ∀ p ∈ bracketPairs, p.1 ≠ p.2) _ pair

/-- Two pairs are the same, or they have no bracket in common. -/
theorem pair_eq_or_apart {opener' closer' : String} (pair : (opener, closer) ∈ bracketPairs)
    (pair' : (opener', closer') ∈ bracketPairs) :
    (opener' = opener ∧ closer' = closer) ∨ (opener' ∉ [opener, closer] ∧ closer' ∉ [opener, closer]) :=
  (by decide : ∀ p ∈ bracketPairs, ∀ q ∈ bracketPairs,
    (q.1 = p.1 ∧ q.2 = p.2) ∨ (q.1 ∉ [p.1, p.2] ∧ q.2 ∉ [p.1, p.2])) _ pair _ pair'

theorem isPunct_iff {t : Token} {texts : List String} : t.isPunct texts = true ↔ ∃ text ∈ texts, t = .mark text := by
  obtain ⟨kind, text⟩ := t
  simp [isPunct, and_comm]

theorem isOpener_mark (pair : (opener, closer) ∈ bracketPairs) : isOpener (.mark opener) = true :=
  (by decide : ∀ p ∈ bracketPairs, isOpener (.mark p.1) = true) _ pair

theorem isCloser_mark (pair : (opener, closer) ∈ bracketPairs) : isCloser (.mark closer) = true :=
  (by decide : ∀ p ∈ bracketPairs, isCloser (.mark p.2) = true) _ pair

/-- A closing bracket is known from the bracket that it answers. -/
theorem eq_mark_of_fits {c : Token} (pair : (opener, closer) ∈ bracketPairs) (closes : c.isCloser = true)
    (fits : (opener, c.text) ∈ bracketPairs) : c = .mark closer := by
  obtain ⟨text, -, rfl⟩ := isPunct_iff.mp closes
  rcases pair_eq_or_apart pair fits with ⟨-, rfl⟩ | ⟨apart, -⟩
  · rfl
  · exact absurd List.mem_cons_self apart

/-- Tokens without brackets have none of one shape. -/
theorem closed_of_plain (pair : (opener, closer) ∈ bracketPairs) (inside : ∀ t ∈ ts, t.isEof = false)
    (plain : brackets ts = []) : Cursor.Closed opener closer ts := by
  refine .flat fun t mem => ⟨inside t mem, ?_⟩
  rw [← Bool.not_eq_true, isPunct_iff]
  rintro ⟨text, spelled, rfl⟩
  rw [brackets, List.map_eq_nil_iff, List.filter_eq_nil_iff] at plain
  refine plain _ mem ?_
  rw [Bool.or_eq_true]
  rcases List.mem_pair.mp spelled with rfl | rfl
  · exact .inl (isOpener_mark pair)
  · exact .inr (isCloser_mark pair)

/-- In well-nested tokens the brackets of one shape are closed: a pair is of this shape, or neither of its brackets is. -/
theorem WellNested.closed (nested : WellNested (brackets ts)) (pair : (opener, closer) ∈ bracketPairs)
    (inside : ∀ t ∈ ts, t.isEof = false) : Cursor.Closed opener closer ts := by
  generalize spelled : brackets ts = word at nested
  induction nested generalizing ts with
  | nil => exact closed_of_plain pair inside spelled
  | pair fits _ _ inside_ih behind_ih =>
    obtain ⟨lead, o, back, rfl, lead_plain, o_bracket, rfl, back_spelled⟩ := brackets_eq_cons spelled
    obtain ⟨group, tail, rfl, group_spelled, tail_spelled⟩ := brackets_eq_append back_spelled
    obtain ⟨gap, c, behind, rfl, gap_plain, c_bracket, rfl, behind_spelled⟩ := brackets_eq_cons tail_spelled
    simp only [List.forall_mem_append, List.forall_mem_cons] at inside
    obtain ⟨in_lead, in_o, in_group, in_gap, in_c, in_behind⟩ := inside
    have around : Cursor.Closed opener closer (group ++ gap) :=
      (inside_ih in_group group_spelled).append (closed_of_plain pair in_gap gap_plain)
    have whole : Cursor.Closed opener closer (o :: (group ++ gap) ++ [c]) := by
      obtain ⟨_, -, rfl⟩ := isPunct_iff.mp (isOpener_of_pair o_bracket fits)
      obtain ⟨_, -, rfl⟩ := isPunct_iff.mp (isCloser_of_pair c_bracket fits)
      rcases pair_eq_or_apart pair fits with ⟨rfl, rfl⟩ | ⟨o_apart, c_apart⟩
      · exact around.group (by simp [isPunct]) (by simp [isPunct]) (by simpa [isPunct] using (ne_of_pair pair).symm)
      · have other : ∀ text ∉ [opener, closer], Cursor.Closed opener closer [.mark text] := by
          intro text apart
          refine .flat fun t mem => ?_
          obtain rfl := List.mem_singleton.mp mem
          exact ⟨rfl, by simpa [isPunct] using apart⟩
        exact ((other _ o_apart).append around).append (other _ c_apart)
    have all := ((closed_of_plain pair in_lead lead_plain).append whole).append (behind_ih in_behind behind_spelled)
    simpa only [List.append_assoc, List.cons_append, List.nil_append] using all

/-! ### The check, by parts -/

/-- Whether the check succeeds depends on the brackets that are open, not on the lines. -/
theorem checkBracketsFrom_ok_of_same {pending pending' : List OpenBracket} {line line' : Nat}
    (same : pending.map (·.opener) = pending'.map (·.opener)) (ok : checkBracketsFrom pending line ts = .ok ()) :
    checkBracketsFrom pending' line' ts = .ok () := by
  induction ts generalizing pending pending' line line' with
  | nil =>
    cases pending with
    | nil =>
      obtain rfl := List.map_eq_nil_iff.mp same.symm
      rfl
    | cons bracket pending => cases ok
  | cons t ts ih =>
    by_cases opens : t.isOpener = true
    · rw [checkBracketsFrom_opener opens] at ok ⊢
      exact ih (by simp [same]) ok
    · by_cases closes : t.isCloser = true
      · cases pending with
        | nil => simp [checkBracketsFrom_stray closes] at ok
        | cons bracket pending =>
          obtain ⟨bracket', pending', rfl, opener_eq, same⟩ := List.map_eq_cons_iff.mp same.symm
          by_cases fits : (bracket.opener, t.text) ∈ bracketPairs
          · rw [checkBracketsFrom_closer closes fits] at ok
            rw [checkBracketsFrom_closer closes (opener_eq ▸ fits)]
            exact ih same.symm ok
          · simp [checkBracketsFrom_crossed closes fits] at ok
      · rw [checkBracketsFrom_plain (by simp [opens, closes])] at ok ⊢
        exact ih same ok

theorem Misfit.not_ok {before after : List Token} {places : List Place} {t : Token} (misfit : Misfit places t)
    (known : LeavesOpen before places) (closes : t.isCloser = true) : checkBrackets (before ++ t :: after) ≠ .ok () := by
  rw [checkBrackets, known.run]
  cases places with
  | nil => simp [checkBracketsFrom_stray closes]
  | cons place places =>
    rw [List.map_cons, checkBracketsFrom_crossed closes (misfit place rfl)]
    simp

/-- Any beginning of tokens that the check lets pass has its open brackets. -/
theorem exists_leavesOpen {front back : List Token} (ok : checkBrackets (front ++ back) = .ok ()) :
    ∃ places, LeavesOpen front places := by
  rcases leavesOpen_or_misfit front with known | ⟨before, t, after, places, rfl, known, closes, misfit⟩
  · exact known
  · rw [List.append_assoc, List.cons_append] at ok
    exact absurd ok (misfit.not_ok known closes)

theorem checkBrackets_eq_ok_iff : checkBrackets ts = .ok () ↔ WellNested (brackets ts) := by
  constructor
  · intro ok
    rw [← List.append_nil ts] at ok
    obtain ⟨places, known⟩ := exists_leavesOpen ok
    cases places with
    | nil => exact known.nested
    | cons place places =>
      have read := known.run []
      rw [← checkBrackets, ok] at read
      cases read
  · intro nested
    have read := nested.run [] 1 []
    rwa [List.append_nil] at read

/-- What follows well-nested tokens in well-nested tokens is well nested. -/
theorem WellNested.of_append {us : List Token} (nested : WellNested (brackets (ts ++ us)))
    (front : WellNested (brackets ts)) : WellNested (brackets us) := by
  rw [← checkBrackets_eq_ok_iff] at nested ⊢
  rw [checkBrackets, front.run] at nested
  exact checkBracketsFrom_ok_of_same rfl nested

/-- Where the check succeeds with a bracket open, the partner of this bracket follows, behind well-nested tokens. -/
theorem exists_partner {bracket : OpenBracket} {pending : List OpenBracket} {line : Nat}
    (ok : checkBracketsFrom (bracket :: pending) line ts = .ok ()) :
    ∃ inside c behind, ts = inside ++ c :: behind ∧ WellNested (brackets inside) ∧ c.isCloser = true ∧
      (bracket.opener, c.text) ∈ bracketPairs := by
  -- behind an inner group there are fewer tokens, and the same bracket is open
  induction size : ts.length using Nat.strong_induction_on generalizing bracket pending line ts with
  | _ n ih =>
    subst size
    cases ts with
    | nil => cases ok
    | cons t rest =>
      by_cases opens : t.isOpener = true
      · rw [checkBracketsFrom_opener opens] at ok
        obtain ⟨inner, c, further, rfl, inner_nested, closes, fits⟩ := ih rest.length (by simp) ok rfl
        rw [inner_nested.run, checkBracketsFrom_closer closes fits] at ok
        obtain ⟨inside, c', behind, rfl, nested, closes', fits'⟩ := ih further.length (by simp; omega) ok rfl
        refine ⟨t :: (inner ++ c :: inside), c', behind, by simp, ?_, closes', fits'⟩
        rw [brackets_bracket (by simp [opens]), brackets_append, brackets_bracket (by simp [closes])]
        exact .pair fits inner_nested nested
      · by_cases closes : t.isCloser = true
        · by_cases fits : (bracket.opener, t.text) ∈ bracketPairs
          · exact ⟨[], t, rest, rfl, .nil, closes, fits⟩
          · simp [checkBracketsFrom_crossed closes fits] at ok
        · have plain : (t.isOpener || t.isCloser) = false := by simp [opens, closes]
          rw [checkBracketsFrom_plain plain] at ok
          obtain ⟨inside, c, behind, rfl, nested, closes, fits⟩ := ih rest.length (by simp) ok rfl
          exact ⟨t :: inside, c, behind, rfl, by rwa [brackets_plain plain], closes, fits⟩

/-- An opening bracket among tokens that pair has its partner. -/
theorem exists_closer (pair : (opener, closer) ∈ bracketPairs) {front back : List Token}
    (ok : checkBrackets (front ++ .mark opener :: back) = .ok ()) :
    ∃ inside behind, back = inside ++ .mark closer :: behind ∧ WellNested (brackets inside) := by
  obtain ⟨places, known⟩ := exists_leavesOpen ok
  rw [checkBrackets, known.run, checkBracketsFrom_opener (isOpener_mark pair)] at ok
  obtain ⟨inside, c, behind, rfl, nested, closes, fits⟩ := exists_partner ok
  obtain rfl := eq_mark_of_fits pair closes fits
  exact ⟨inside, behind, rfl, nested⟩

/-! ### The groups between commas -/

theorem wellNested_of_mem_splitFrom {group : List Token} {places : List Place} (known : LeavesOpen group.reverse places)
    (nested : WellNested (brackets (group.reverse ++ ts))) :
    ∀ part ∈ splitFrom "," places.length group ts, WellNested (brackets part) := by
  induction ts generalizing group places with
  | nil =>
    rw [List.append_nil] at nested
    simpa [splitFrom] using nested
  | cons t rest ih =>
    -- the token goes to the group at hand
    have joins : ∀ {places'}, LeavesOpen (group.reverse ++ [t]) places' →
        ∀ part ∈ splitFrom "," places'.length (t :: group) rest, WellNested (brackets part) := by
      intro places' known'
      refine ih (by rwa [List.reverse_cons]) ?_
      rwa [List.reverse_cons, List.append_assoc, List.singleton_append]
    rw [splitFrom]
    by_cases opens : t.isOpener = true
    · have inner : ((places.length : Int) + 1 == 0) = false := by
        rw [beq_eq_false_iff_ne]
        omega
      simp only [opens, if_true, inner, Bool.false_and, Bool.false_eq_true, if_false]
      exact_mod_cast joins (.more known opens .nil)
    · by_cases closes : t.isCloser = true
      · obtain ⟨text, spelled, rfl⟩ := isPunct_iff.mp closes
        have mark := (by decide : ∀ text ∈ closers, isPunct (.mark text) [","] = false) _ spelled
        by_cases misfit : Misfit places (.mark text)
        · exact absurd (checkBrackets_eq_ok_iff.mpr nested) (misfit.not_ok known closes)
        · simp only [Misfit, not_forall, not_not] at misfit
          obtain ⟨place, innermost, fits⟩ := misfit
          obtain ⟨places, rfl⟩ := List.head?_eq_some_iff.mp innermost
          have depth : ((place :: places).length : Int) - 1 = places.length := by simp
          simp only [opens, closes, if_true, mark, Bool.and_false, Bool.false_eq_true, if_false, depth]
          exact joins (known.close closes fits)
      · have plain : (t.isOpener || t.isCloser) = false := by simp [opens, closes]
        simp only [opens, closes, Bool.false_eq_true, if_false]
        split
        next cut =>
          have outer : places = [] := by simpa using (Bool.and_eq_true_iff.mp cut).1
          subst outer
          rw [List.forall_mem_cons]
          refine ⟨known.nested, ih (.none .nil) ?_⟩
          have rest_nested := nested.of_append known.nested
          rwa [brackets_plain plain] at rest_nested
        next => exact joins (known.append (by rw [brackets_plain plain]; exact .nil))

theorem wellNested_of_mem_splitOn (nested : WellNested (brackets ts)) : ∀ part ∈ splitOn "," ts, WellNested (brackets part) :=
  wellNested_of_mem_splitFrom (LeavesOpen.none .nil : LeavesOpen [].reverse []) nested

end Token

/-! ### What a group is -/

namespace Cursor

open Token

variable {opener closer : String}
variable {depth : Nat} {ts inside : List Token} {c : Cursor} {text : String}

/-- Tokens between the brackets of one shape: what is opened in them is closed in them, with `depth` brackets that were open
before, and the bracket behind them closes one more. -/
structure Encloses (opener closer : String) (depth : Nat) (ts inside : List Token) : Prop where
  behind : ∃ behind, ts = inside ++ .mark closer :: behind
  closes : Closes (.mark opener) (.mark closer) depth inside
  proper : ∀ t ∈ inside, t.isEof = false

theorem encloses_nil : Encloses opener closer depth ts [] ↔ (∃ behind, ts = .mark closer :: behind) ∧ depth = 0 := by
  constructor
  · rintro ⟨behind, closes, -⟩
    exact ⟨behind, closes_nil.mp closes⟩
  · rintro ⟨behind, none⟩
    exact ⟨behind, closes_nil.mpr none, by simp⟩

theorem encloses_cons {depth' : Nat} {t u : Token}
    (step : Closes (.mark opener) (.mark closer) depth (t :: inside) ↔ Closes (.mark opener) (.mark closer) depth' inside)
    (proper : t.isEof = false) :
    Encloses opener closer depth (t :: ts) (u :: inside) ↔ u = t ∧ Encloses opener closer depth' ts inside := by
  constructor
  · rintro ⟨⟨behind, shape⟩, closes, inner⟩
    obtain ⟨rfl, further⟩ := List.cons.inj shape
    exact ⟨rfl, ⟨behind, further⟩, step.mp closes, (List.forall_mem_cons.mp inner).2⟩
  · rintro ⟨rfl, ⟨behind, shape⟩, closes, inner⟩
    exact ⟨⟨behind, by rw [shape, List.cons_append]⟩, step.mpr closes, List.forall_mem_cons.mpr ⟨proper, inner⟩⟩

/-- A group is found exactly if there is one. -/
theorem groupFrom_eq_some_iff (apart : opener ≠ closer) :
    groupFrom opener closer depth ts = some inside ↔ Encloses opener closer depth ts inside := by
  have marks : Token.mark opener ≠ .mark closer := fun same => apart (congrArg Token.text same)
  induction ts generalizing depth inside with
  | nil =>
    refine iff_of_false (by simp [groupFrom]) fun h => ?_
    obtain ⟨behind, shape⟩ := h.behind
    exact absurd shape.symm (by simp)
  | cons t rest ih =>
    -- a token that goes on: what is enclosed starts with it
    have goesOn : ∀ depth', t.isEof = false → (t = .mark closer → depth ≠ 0) →
        (∀ inner, Closes (.mark opener) (.mark closer) depth (t :: inner) ↔ Closes (.mark opener) (.mark closer) depth' inner) →
        ((groupFrom opener closer depth' rest).map (t :: ·) = some inside ↔ Encloses opener closer depth (t :: rest) inside) := by
      intro depth' proper open' step
      rw [Option.map_eq_some_iff]
      cases inside with
      | nil =>
        rw [encloses_nil]
        refine iff_of_false (by simp) ?_
        rintro ⟨⟨behind, shape⟩, none⟩
        exact absurd none (open' (List.cons.inj shape).1)
      | cons u inside =>
        rw [encloses_cons (step inside) proper]
        constructor
        · rintro ⟨_, found, same⟩
          obtain ⟨rfl, rfl⟩ := List.cons.inj same
          exact ⟨rfl, ih.mp found⟩
        · rintro ⟨rfl, found⟩
          exact ⟨inside, ih.mpr found, rfl⟩
    rw [groupFrom.eq_def]
    dsimp only
    by_cases ends : t.isEof = true
    · rw [if_pos ends]
      refine iff_of_false (by simp) fun h => ?_
      obtain ⟨behind, shape⟩ := h.behind
      cases inside with
      | nil =>
        obtain ⟨rfl, -⟩ := List.cons.inj shape
        cases ends
      | cons u inside =>
        obtain ⟨rfl, -⟩ := List.cons.inj shape
        simp [h.proper t List.mem_cons_self] at ends
    · have proper : t.isEof = false := Bool.not_eq_true _ ▸ ends
      rw [if_neg ends]
      by_cases opens : t.isPunct [opener] = true
      · obtain rfl : t = .mark opener := by simpa using isPunct_iff.mp opens
        rw [if_pos opens]
        exact goesOn (depth + 1) proper (fun same => absurd same marks) fun _ => closes_opening marks
      · have notOpening : t ≠ .mark opener := fun same => opens (isPunct_iff.mpr ⟨opener, List.mem_cons_self, same⟩)
        rw [if_neg opens]
        by_cases closes : t.isPunct [closer] = true
        · obtain rfl : t = .mark closer := by simpa using isPunct_iff.mp closes
          rw [if_pos closes]
          cases depth with
          | zero =>
            dsimp only
            rw [Option.some_inj]
            cases inside with
            | nil => exact iff_of_true rfl (encloses_nil.mpr ⟨⟨rest, rfl⟩, rfl⟩)
            | cons u inside =>
              refine iff_of_false (by simp) fun h => ?_
              obtain ⟨behind, shape⟩ := h.behind
              obtain ⟨rfl, -⟩ := List.cons.inj shape
              exact absurd ((closes_closing marks).mp h.closes).1 (Nat.lt_irrefl 0)
          | succ depth =>
            refine goesOn depth proper (fun _ => Nat.succ_ne_zero _) fun _ => ?_
            rw [closes_closing marks, Nat.add_sub_cancel]
            exact and_iff_right (Nat.succ_pos _)
        · have notClosing : t ≠ .mark closer := fun same => closes (isPunct_iff.mpr ⟨closer, List.mem_cons_self, same⟩)
          rw [if_neg closes]
          exact goesOn depth proper (fun same => absurd same notClosing) fun _ => closes_other notOpening notClosing

theorem current_eq_mark_iff : c.current = .mark text ↔ ∃ rest, c.rest = .mark text :: rest := by
  rw [current]
  cases c.rest with
  | nil => simp [eof]
  | cons t rest => simp

theorem atPunct_iff : c.atPunct [text] = true ↔ c.current = .mark text := by
  rw [atPunct, isPunct_iff]
  simp

theorem group_expected (elsewhere : c.current ≠ .mark opener) : c.group opener closer = (.error (.expected opener c), c) := by
  rw [group, if_neg (mt atPunct_iff.mp elsewhere)]

section At

variable {c : Cursor} {rest : List Token}

theorem rest_advance {t : Token} (here : c.rest = t :: rest) : c.advance.rest = rest := by
  simp [advance, here]

theorem group_found {inside : List Token} (here : c.rest = .mark opener :: rest)
    (found : groupFrom opener closer 0 rest = some inside) :
    c.group opener closer = (.ok inside, c.advanceBy (inside.length + 2)) := by
  rw [group, if_pos (atPunct_iff.mpr (current_eq_mark_iff.mpr ⟨rest, here⟩)), rest_advance here, found]

theorem group_missing (here : c.rest = .mark opener :: rest) (none : groupFrom opener closer 0 rest = none) :
    c.group opener closer = (.error (.unterminated opener c), c.advanceBy (c.run (!·.isEof)).length) := by
  rw [group, if_pos (atPunct_iff.mpr (current_eq_mark_iff.mpr ⟨rest, here⟩)), rest_advance here, none]

end At

/-- The bracket that closes the one at the cursor follows: the tokens between them balance, and the closing token is not among
them. -/
def Answered (c : Cursor) (opener closer : String) : Prop :=
  ∃ inside behind, c.rest = .mark opener :: (inside ++ .mark closer :: behind) ∧
    Balances (.mark opener) (.mark closer) inside ∧ ∀ t ∈ inside, t.isEof = false

theorem answered_iff (apart : opener ≠ closer) {rest : List Token} (here : c.rest = .mark opener :: rest) :
    c.Answered opener closer ↔ ∃ inside, groupFrom opener closer 0 rest = some inside := by
  simp only [groupFrom_eq_some_iff apart]
  constructor
  · rintro ⟨inside, behind, shape, balances, proper⟩
    rw [here] at shape
    exact ⟨inside, ⟨behind, (List.cons.inj shape).2⟩, closes_zero.mpr balances, proper⟩
  · rintro ⟨inside, ⟨behind, shape⟩, closes, proper⟩
    exact ⟨inside, behind, by rw [here, shape], closes_zero.mp closes, proper⟩

/-- A cursor on a bracket has the closing token in front of it. -/
theorem exists_eof (last : c.tokens.getLast?.any isEof = true) (here : c.current = .mark text) :
    ∃ t ∈ c.rest, t.isEof = true := by
  obtain ⟨rest, shape⟩ := current_eq_mark_iff.mp here
  rw [tokens, List.getLast?_append_of_ne_nil _ (shape ▸ List.cons_ne_nil _ _), Option.any_eq_true] at last
  obtain ⟨t, found, ends⟩ := last
  exact ⟨t, List.mem_of_getLast? found, ends⟩

/-- The cursor of a group that is never closed stands on the closing token of its list. -/
theorem group_unterminated (apart : opener ≠ closer) (closed : ∃ t ∈ c.rest, t.isEof = true)
    (here : c.current = .mark opener) (open' : ¬c.Answered opener closer) :
    ∃ passed e behind, c.rest = passed ++ e :: behind ∧ (∀ t ∈ passed, t.isEof = false) ∧ e.isEof = true ∧
      c.group opener closer = (.error (.unterminated opener c), c.advanceBy passed.length) := by
  obtain ⟨rest, shape⟩ := current_eq_mark_iff.mp here
  have none : groupFrom opener closer 0 rest = none := by
    rw [answered_iff apart shape] at open'
    exact Option.eq_none_iff_forall_ne_some.mpr fun inside found => open' ⟨inside, found⟩
  obtain ⟨t, mem, ends⟩ := closed
  obtain ⟨e, behind, found⟩ : ∃ e behind, c.rest.dropWhile (!·.isEof) = e :: behind := by
    refine List.exists_cons_of_ne_nil fun empty => ?_
    have proper := List.dropWhile_eq_nil_iff.mp empty t mem
    simp [ends] at proper
  refine ⟨c.run (!·.isEof), e, behind, ?_, fun t mem => ?_, ?_, ?_⟩
  · rw [run, ← found, List.takeWhile_append_dropWhile]
  · simpa using List.mem_takeWhile_imp mem
  · have stops := List.head?_dropWhile_not (fun t : Token => !t.isEof) c.rest
    rw [found] at stops
    simpa using stops
  · exact group_missing shape none

/-- The group of an opening bracket in tokens that the check lets pass is what stands between it and its partner. -/
theorem group_of_wellNested (pair : (opener, closer) ∈ bracketPairs) {behind : List Token}
    (here : c.rest = .mark opener :: (inside ++ .mark closer :: behind)) (nested : WellNested (brackets inside))
    (proper : ∀ t ∈ inside, t.isEof = false) :
    c.group opener closer = (.ok inside, c.advanceBy (inside.length + 2)) := by
  have apart := ne_of_pair pair
  have found : groupFrom opener closer 0 (inside ++ .mark closer :: behind) = some inside :=
    (nested.closed pair proper).groupFrom_eq (isPunct_iff.mpr ⟨closer, List.mem_cons_self, rfl⟩)
      (by simpa [isPunct] using apart.symm) behind
  exact group_found here found

/-- Only the last token of a script closes the list. -/
theorem proper_of_tokenize {source : String} {front behind : List Token} {t : Token}
    (split : tokenize source = front ++ (inside ++ t :: behind)) : ∀ u ∈ inside, u.isEof = false := by
  intro u mem
  have earlier : scan source = front ++ (inside ++ (t :: behind).dropLast) := by
    rw [← List.dropLast_append_of_ne_nil (List.cons_ne_nil t behind), ← List.dropLast_append_of_ne_nil (by simp), ← split,
      tokenize, List.dropLast_concat]
  have scanned : u ∈ scan source := by
    rw [earlier]
    exact List.mem_append_right _ (List.mem_append_left _ mem)
  exact ((scanFrom_cut false source.toList).mem_nonempty u scanned).1

/-- Of an opening bracket in a source whose brackets pair, the group is what stands between it and its partner, and the cursor
is left behind the partner. The group, and each of the parts between its outer commas, has brackets that pair again. On any
list with a closing token a group fails exactly if the cursor is not on the opening bracket, and then it stays there, or if no
bracket answers it, and then the cursor is on the closing token and the fault on the line of the opening bracket. -/
theorem group_matching (opener closer : String) (pair : (opener, closer) ∈ bracketPairs) :
    (∀ source front back, checkBrackets (tokenize source) = .ok () → tokenize source = front ++ .mark opener :: back →
      ∃ inside behind, back = inside ++ .mark closer :: behind ∧ WellNested (brackets inside) ∧
        (∀ inside' behind', back = inside' ++ .mark closer :: behind' → WellNested (brackets inside') → inside' = inside) ∧
        ((ofTokens (tokenize source)).advanceBy front.length).group opener closer =
          (.ok inside, (ofTokens (tokenize source)).advanceBy (front.length + 1 + inside.length + 1)) ∧
        checkBrackets inside = .ok () ∧ ∀ part ∈ splitOn "," inside, checkBrackets part = .ok ()) ∧
    ∀ c : Cursor, c.tokens.getLast?.any isEof = true →
      ((∃ fault, (c.group opener closer).1 = .error fault) ↔ c.current ≠ .mark opener ∨ ¬c.Answered opener closer) ∧
      (c.current ≠ .mark opener → c.group opener closer = (.error (.expected opener c), c)) ∧
      (c.current = .mark opener → ¬c.Answered opener closer →
        ∃ passed e behind, c.rest = passed ++ e :: behind ∧ (∀ t ∈ passed, t.isEof = false) ∧ e.isEof = true ∧
          c.group opener closer = (.error (.unterminated opener c), c.advanceBy passed.length) ∧
          (Fault.unterminated opener c).line? = some (1 + feeds c.before)) := by
  have apart := ne_of_pair pair
  constructor
  · intro source front back ok split
    obtain ⟨inside, behind, rfl, nested⟩ := exists_closer pair (split ▸ ok)
    have here : ((ofTokens (tokenize source)).advanceBy front.length).rest =
        .mark opener :: (inside ++ .mark closer :: behind) := by
      rw [rest_advanceBy, ofTokens, split, List.drop_left]
    have grouped : ∀ inside' behind', inside ++ Token.mark closer :: behind = inside' ++ .mark closer :: behind' →
        WellNested (brackets inside') → ((ofTokens (tokenize source)).advanceBy front.length).group opener closer =
          (.ok inside', ((ofTokens (tokenize source)).advanceBy front.length).advanceBy (inside'.length + 2)) := by
      intro inside' behind' same nested'
      rw [same] at here split
      rw [← List.singleton_append, ← List.append_assoc] at split
      exact group_of_wellNested pair here nested' (proper_of_tokenize split)
    have whole := grouped inside behind rfl nested
    refine ⟨inside, behind, rfl, nested, fun inside' behind' same nested' => ?_, ?_, checkBrackets_eq_ok_iff.mpr nested,
      fun part mem => checkBrackets_eq_ok_iff.mpr (wellNested_of_mem_splitOn nested part mem)⟩
    · have both := (grouped inside' behind' same nested').symm.trans whole
      exact Except.ok.inj (Prod.mk.inj both).1
    · rw [whole, ← advanceBy_add, Nat.add_assoc, Nat.add_assoc, Nat.add_comm 1]
  · intro c last
    have unterminated := fun here open' => group_unterminated apart (exists_eof last here) here open'
    refine ⟨⟨?_, ?_⟩, group_expected, fun here open' => ?_⟩
    · rintro ⟨fault, failed⟩
      rw [← not_and_or]
      rintro ⟨here, answered⟩
      obtain ⟨rest, shape⟩ := current_eq_mark_iff.mp here
      obtain ⟨inside, found⟩ := (answered_iff apart shape).mp answered
      rw [group_found shape found] at failed
      cases failed
    · intro missing
      by_cases here : c.current = .mark opener
      · obtain ⟨passed, e, behind, -, -, -, failed⟩ := unterminated here (missing.resolve_left (not_not.mpr here))
        exact ⟨_, by rw [failed]⟩
      · exact ⟨_, by rw [group_expected here]⟩
    · obtain ⟨passed, e, behind, shape, proper, ends, failed⟩ := unterminated here open'
      exact ⟨passed, e, behind, shape, proper, ends, failed, congrArg some (lineAfter_eq c.before)⟩

/-- A group with brackets of two shapes and a comma of its own in it, and a group that the end of its list cuts. -/
theorem group_matching_parens :
    checkBrackets (tokenize "(a[(b,c)],d)e") = .ok () ∧
    (∃ inside, ((ofTokens (tokenize "(a[(b,c)],d)e")).advanceBy 0).group "(" ")" =
        (.ok inside, (ofTokens (tokenize "(a[(b,c)],d)e")).advanceBy (0 + 1 + inside.length + 1)) ∧
      ∀ part ∈ splitOn "," inside, checkBrackets part = .ok ()) ∧
    ∃ fault, ((ofTokens [.mark "(", .mark "(", .mark ")", eof]).group "(" ")").1 = .error fault := by
  have both := group_matching "(" ")" (by decide)
  have ok : checkBrackets (tokenize "(a[(b,c)],d)e") = .ok () := by decide +kernel
  have split : tokenize "(a[(b,c)],d)e" = [] ++ .mark "(" :: (tokenize "(a[(b,c)],d)e").tail := by decide +kernel
  obtain ⟨inside, -, -, -, -, grouped, -, parts⟩ := both.1 _ _ _ ok split
  have cut : ¬(ofTokens [.mark "(", .mark "(", .mark ")", eof]).Answered "(" ")" := by
    rw [answered_iff (by decide) rfl]
    rintro ⟨inside, found⟩
    cases found
  exact ⟨ok, ⟨inside, grouped, parts⟩, (both.2 _ (by decide)).1.mpr (.inr cut)⟩

end Cursor

end NoteScript

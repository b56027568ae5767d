import NoteScript.Proofs.Balance
import NoteScript.Proofs.Sets

/-!
# Parentheses of converted patterns

Whatever is written for a body, every percent sign has a character behind it and every set is closed. The parentheses are those
of the groups, except that a count repeats the last piece alone: behind a group this is its closing parenthesis.

* `LuaPattern.parens?`: the parentheses of a pattern outside of sets and escapes.
* `Pattern.Reads`: the parts of a body. `Pattern.written`: the parentheses that are written for them.
* `Pattern.Reads.converts`: these are the parentheses of the pattern.
* `Pattern.balances_written_iff`: they balance if and only if each group that is counted is written once.
-/

namespace NoteScript

open Text
open Pattern (isMagic escapeChar)

inductive Paren where
  | opening | closing
deriving DecidableEq

def Paren.of? : Char → Option Paren
  | '(' => some .opening
  | ')' => some .closing
  | _ => none

/-! ### The parentheses of a pattern -/

namespace LuaPattern

/-- The parentheses of a text, where `skip` characters belong to an escape or a set. There are none to tell if a percent sign
stands at the end or a set is not closed. -/
def parensFrom? (skip : Nat) : List Char → Option (List Paren)
  | [] => some []
  | c :: rest =>
    match skip with
    | k + 1 => parensFrom? k rest
    | 0 =>
      if c = '%' then if rest = [] then none else parensFrom? 1 rest
      else if c = '[' then (set? rest).bind fun s => parensFrom? s.2 rest
      else (parensFrom? 0 rest).map ((Paren.of? c).toList ++ ·)

/-- The parentheses outside of sets and escapes, if every set is closed and every percent sign has a character behind it. -/
def parens? (cs : List Char) : Option (List Paren) := parensFrom? 0 cs

theorem parensFrom?_drop (skip : Nat) (cs : List Char) : parensFrom? skip cs = parens? (cs.drop skip) :=
  Text.skip_eq_drop skip cs (fun _ => rfl) fun _ _ _ => rfl

/-- The text is closed in itself and has these parentheses, whatever follows. -/
def Adds (text : List Char) (parens : List Paren) : Prop := ∀ rest, parens? (text ++ rest) = (parens? rest).map (parens ++ ·)

theorem Adds.parens? {text : List Char} {parens : List Paren} (adds : Adds text parens) : parens? text = some parens := by
  have whole := adds []
  rw [List.append_nil] at whole
  rw [whole]
  exact congrArg some (List.append_nil parens)

theorem adds_nil : Adds [] [] := fun rest => by simp

theorem Adds.append {text more : List Char} {parens others : List Paren} (adds : Adds text parens) (addsMore : Adds more others) :
    Adds (text ++ more) (parens ++ others) := by
  intro rest
  rw [List.append_assoc, adds, addsMore, Option.map_map]
  simp [Function.comp_def]

theorem Adds.replicate {text : List Char} {parens : List Paren} (adds : Adds text parens) (n : Nat) :
    Adds (List.replicate n text).flatten (List.replicate n parens).flatten := by
  induction n with
  | zero => exact adds_nil
  | succ n ih =>
    rw [List.replicate_succ, List.replicate_succ, List.flatten_cons, List.flatten_cons]
    exact adds.append ih

theorem adds_escape (c : Char) : Adds ['%', c] [] := by
  intro rest
  change parensFrom? 1 (c :: rest) = _
  rw [parensFrom?_drop]
  simp

theorem adds_char {c : Char} (plain : c ≠ '%' ∧ c ≠ '[') : Adds [c] (Paren.of? c).toList := by
  intro rest
  rw [List.singleton_append, LuaPattern.parens?, parensFrom?, if_neg plain.1, if_neg plain.2]
  rfl

theorem adds_set {body : List Char} {single : Single} (set : ∀ rest, set? (body ++ rest) = some (single, body.length)) :
    Adds ('[' :: body) [] := by
  intro rest
  rw [List.cons_append, LuaPattern.parens?, parensFrom?, if_neg (by decide), if_pos rfl, set, Option.bind_some, parensFrom?_drop,
    List.drop_left]
  simp

theorem adds_escapeChar (c : Char) : Adds (escapeChar c) [] := by
  rw [escapeChar]
  by_cases magic : isMagic c = true
  · rw [if_pos magic]
    exact adds_escape c
  · have other : ∀ d, isMagic d = true → c ≠ d := fun d => ne_of_plain (Bool.not_eq_true _ ▸ magic)
    have none : Paren.of? c = none := Paren.of?.eq_3 c (other _ rfl) (other _ rfl)
    have adds := adds_char ⟨other '%' rfl, other '[' rfl⟩
    rw [if_neg magic]
    rwa [none] at adds

end LuaPattern

/-! ### The parts of a body -/

namespace Pattern

open LuaPattern (parens? Adds)

variable {piece : String} {es : List Element}

/-- How often a piece is written for a count. -/
def Repetition.copies (r : Repetition) : Nat := match r.high with
  | some high => max r.low high
  | none => if r.low = 1 then 1 else r.low + 1

/-- The parts of a body: the boundary of a word, of which nothing is written, the parentheses of a group, and counts. All else is
a piece without parentheses. -/
inductive Element where
  | piece | boundary | opening | closing
  | count (r : Repetition)

/-- A body without alternatives. Classes are closed and not empty. -/
inductive Reads : List Char → List Element → Prop where
  | nil : Reads [] []
  | pair {c : Char} {cs : List Char} {es : List Element} : c ≠ 'b' → Reads cs es → Reads ('\\' :: c :: cs) (.piece :: es)
  | boundary {cs : List Char} {es : List Element} : Reads cs es → Reads ('\\' :: 'b' :: cs) (.boundary :: es)
  | set (negated : Bool) {members cs : List Char} {es : List Element} : Inside members → members ≠ [] →
      (negated = false → members.head? ≠ some '^') → Reads cs es →
      Reads ('[' :: ((if negated then ['^'] else []) ++ (members ++ ']' :: cs))) (.piece :: es)
  | capture {cs : List Char} {es : List Element} : (∀ rest, cs ≠ '?' :: ':' :: rest) → Reads cs es →
      Reads ('(' :: cs) (.opening :: es)
  | group {cs : List Char} {es : List Element} : Reads cs es → Reads ('(' :: '?' :: ':' :: cs) (.opening :: es)
  | closing {cs : List Char} {es : List Element} : Reads cs es → Reads (')' :: cs) (.closing :: es)
  | count {text cs : List Char} {r : Repetition} {es : List Element} : IsCount text r → Reads cs es →
      Reads ('\x7b' :: (text ++ cs)) (.count r :: es)
  | mark {c : Char} (isLazy : Bool) {cs : List Char} {es : List Element} : c ∈ ['*', '+', '?'] → cs.head? ≠ some '?' →
      Reads cs es → Reads (c :: (Regex.lazyMark isLazy ++ cs)) (.piece :: es)
  | char {c : Char} {cs : List Char} {es : List Element} : c ∉ ['\\', '[', '(', ')', '|', '*', '+', '?'] →
      (c = '\x7b' → ∀ text r rest, IsCount text r → cs ≠ text ++ rest) → Reads cs es → Reads (c :: cs) (.piece :: es)

def Element.parens : Element → List Paren
  | .opening => [.opening]
  | .closing => [.closing]
  | _ => []

/-- The parentheses of the groups. -/
def groups (es : List Element) : List Paren := es.flatMap Element.parens

/-- The parentheses that are written, where `last` are those of the last piece so far. A count repeats them. -/
def written (last : List Paren) : List Element → List Paren
  | [] => last
  | .count r :: es => written (List.replicate r.copies last).flatten es
  | .boundary :: es => written last es
  | e :: es => last ++ written e.parens es

/-! ### Pieces -/

theorem adds_shorthand {c : Char} (found : shorthand? c = some piece) : Adds piece.toList [] := by
  unfold shorthand? at found
  split at found <;> cases found
  · exact @LuaPattern.adds_set ['%', 'w', '_', ']'] (.set false [.named 'w', .char '_']) fun rest => rfl
  · exact @LuaPattern.adds_set ['^', '%', 'w', '_', ']'] (.set true [.named 'w', .char '_']) fun rest => rfl
  · exact LuaPattern.adds_escape 'd'
  · exact LuaPattern.adds_escape 'D'
  · exact LuaPattern.adds_escape 's'
  · exact LuaPattern.adds_escape 'S'

theorem exists_escapedPiece {c : Char} (boundary : c ≠ 'b') : ∃ piece, escapedPiece c = [piece] ∧ Adds piece.toList [] := by
  unfold escapedPiece
  cases found : shorthand? c with
  | some piece => exact ⟨piece, rfl, adds_shorthand found⟩
  | none =>
    dsimp only
    split
    · exact absurd rfl boundary
    · exact ⟨_, rfl, LuaPattern.adds_escapeChar '\n'⟩
    · exact ⟨_, rfl, LuaPattern.adds_escapeChar '\t'⟩
    · exact ⟨_, rfl, LuaPattern.adds_escapeChar '\r'⟩
    · exact ⟨_, rfl, String.toList_ofList ▸ LuaPattern.adds_escapeChar _⟩

theorem adds_copies {parens : List Paren} (adds : Adds piece.toList parens) (n : Nat) :
    Adds (copies n piece).toList (List.replicate n parens).flatten := by
  rw [toList_copies]
  exact adds.replicate n

/-- A count writes copies of the last piece, with marks that have no parentheses. -/
theorem adds_unroll {parens : List Paren} (adds : Adds piece.toList parens) (r : Repetition) :
    Adds (r.unroll piece).toList (List.replicate r.copies parens).flatten := by
  have marked : ∀ mark, Adds mark.toList [] → Adds (piece ++ mark).toList parens := by
    intro mark addsMark
    rw [String.toList_append, ← List.append_nil parens]
    exact adds.append addsMark
  obtain ⟨low, high⟩ := r
  cases high with
  | some high =>
    have total : Repetition.copies ⟨low, some high⟩ = low + (high - low) := by
      change max low high = _
      omega
    rw [unroll_some, total, List.replicate_add, List.flatten_append, String.toList_append]
    exact (adds_copies adds low).append (adds_copies (marked "?" (LuaPattern.adds_char (by decide))) (high - low))
  | none =>
    have star : Adds (piece ++ "*").toList parens := marked "*" (LuaPattern.adds_char (by decide))
    by_cases one : low = 1
    · subst one
      change Adds (piece ++ "+").toList (List.replicate 1 parens).flatten
      rw [List.replicate_one, List.flatten_singleton]
      exact marked "+" (LuaPattern.adds_char (by decide))
    · have total : Repetition.copies ⟨low, none⟩ = low + 1 := if_neg one
      rw [unroll_none one, total, List.replicate_succ', List.flatten_append, List.flatten_singleton, String.append_assoc,
        String.toList_append]
      exact (adds_copies adds low).append star

/-- The last of the pieces, and those before it, have these parentheses. -/
structure Holds (pieces : List String) (before last : List Paren) : Prop where
  head : Adds (pieces.headD "").toList last
  tail : Adds (String.join pieces.tail.reverse).toList before

section Steps

variable {pieces : List String} {before last : List Paren}

theorem Holds.whole (holds : Holds pieces before last) : Adds (String.join pieces.reverse).toList (before ++ last) := by
  have split : (String.join pieces.reverse).toList = (String.join pieces.tail.reverse).toList ++ (pieces.headD "").toList := by
    cases pieces with
    | nil => rfl
    | cons piece pieces => simp
  rw [split]
  exact holds.tail.append holds.head

theorem Holds.write (holds : Holds pieces before last) {piece : String} {parens : List Paren} (adds : Adds piece.toList parens) :
    Holds (piece :: pieces) (before ++ last) parens := ⟨adds, holds.whole⟩

theorem Holds.count (holds : Holds pieces before last) (r : Repetition) :
    Holds (r.unroll (pieces.headD "") :: pieces.tail) before (List.replicate r.copies last).flatten :=
  ⟨adds_unroll holds.head r, holds.tail⟩

/-- The conversion succeeds and writes the parentheses of the parts behind those that are there. -/
def Converts (pieces : List String) (before last : List Paren) (cs : List Char) (es : List Element) : Prop :=
  ∃ pieces', convertFrom pieces 0 cs = some pieces' ∧ Adds (String.join pieces'.reverse).toList (before ++ written last es)

theorem Converts.write {cs text : List Char} {e : Element} {es : List Element} {piece : String}
    (step : convertFrom pieces 0 text = convertFrom (piece :: pieces) 0 cs)
    (parens : written last (e :: es) = last ++ written e.parens es)
    (next : Converts (piece :: pieces) (before ++ last) e.parens cs es) : Converts pieces before last text (e :: es) := by
  rw [Converts, step, parens, ← List.append_assoc]
  exact next

theorem convertFrom_class (pieces : List String) (negated : Bool) {inner : List Char} (inside : Inside inner) (nonempty : inner ≠ [])
    (caret : negated = false → inner.head? ≠ some '^') (cs : List Char) : ∃ piece, Adds piece.toList [] ∧
    convertFrom pieces 0 ('[' :: ((if negated then ['^'] else []) ++ (inner ++ ']' :: cs))) = convertFrom (piece :: pieces) 0 cs := by
  obtain ⟨⟨body, piece, set⟩, size⟩ := classPiece_inside negated inside nonempty caret cs
  have adds : Adds ('[' :: body) [] := LuaPattern.adds_set set
  rw [← piece] at adds
  have split : (if negated then ['^'] else []) ++ (inner ++ ']' :: cs) =
      (if negated then ['^'] else []) ++ (inner ++ [']']) ++ cs := by simp
  rw [split] at size adds ⊢
  exact ⟨_, adds, convertFrom_write (by rw [← size]; rfl) pieces⟩

theorem convertFrom_char (pieces : List String) {c : Char} {cs : List Char} (other : c ∉ ['\\', '[', '(', ')', '|', '*', '+', '?'])
    (noCount : c = '\x7b' → ∀ text r rest, IsCount text r → cs ≠ text ++ rest) : ∃ piece, Adds piece.toList [] ∧
    convertFrom pieces 0 (c :: cs) = convertFrom (piece :: pieces) 0 cs := by
  by_cases brace : c = '\x7b'
  · subst brace
    have none : repetition? cs = none := by
      refine Option.eq_none_iff_forall_ne_some.mpr fun found counted => ?_
      exact noCount rfl _ found.1 _ (exists_count counted) (List.take_append_drop found.2 cs).symm
    have step : step '\x7b' ([] ++ cs) = .write ["\x7b"] 0 := by rw [List.nil_append, step_brace, none]
    exact ⟨"\x7b", LuaPattern.adds_char (by decide), convertFrom_write step pieces⟩
  · have alone := @step_alone c (by simp_all) ([] ++ cs)
    refine ⟨_, ?_, convertFrom_write alone pieces⟩
    by_cases keeps : c ∈ [')', '.', '^', '$']
    · rw [if_pos keeps]
      simp only [List.mem_cons, List.not_mem_nil, or_false] at keeps
      rcases keeps with rfl | rfl | rfl | rfl
      · exact absurd (by decide) other
      all_goals exact LuaPattern.adds_char (by decide)
    · rw [if_neg keeps, String.toList_ofList]
      exact LuaPattern.adds_escapeChar c

/-- The parentheses of a body are written part by part. -/
theorem Reads.converts {cs : List Char} {es : List Element} (reads : Reads cs es) (holds : Holds pieces before last) :
    Converts pieces before last cs es := by
  -- all parts but boundaries and counts put one piece behind the others
  induction reads generalizing pieces before last with
  | nil => exact ⟨pieces, rfl, holds.whole⟩
  | @pair c cs es boundary _ ih =>
    obtain ⟨piece, written, adds⟩ := exists_escapedPiece boundary
    have step : step '\\' ([c] ++ cs) = .write [piece] 1 := congrArg (Step.write · 1) written
    exact .write (convertFrom_write step pieces) rfl (ih (holds.write adds))
  | boundary _ ih => exact ih holds
  | @set negated inner cs es inside nonempty caret _ ih =>
    obtain ⟨piece, adds, step⟩ := convertFrom_class pieces negated inside nonempty caret cs
    exact .write step rfl (ih (holds.write adds))
  | @capture cs es apart _ ih =>
    have step : step '(' ([] ++ cs) = .write ["("] 0 := by
      change Step.write ["("] (if ['?', ':'].isPrefixOf cs then 2 else 0) = _
      rw [if_neg]
      intro found
      obtain ⟨rest, rfl⟩ := List.isPrefixOf_iff_prefix.mp found
      exact apart rest rfl
    exact .write (convertFrom_write step pieces) rfl (ih (holds.write (LuaPattern.adds_char (by decide))))
  | @group cs es _ ih =>
    have step : step '(' (['?', ':'] ++ cs) = .write ["("] 2 := rfl
    exact .write (convertFrom_write step pieces) rfl (ih (holds.write (LuaPattern.adds_char (by decide))))
  | @closing cs es _ ih =>
    have step : step ')' ([] ++ cs) = .write [")"] 0 := rfl
    exact .write (convertFrom_write step pieces) rfl (ih (holds.write (LuaPattern.adds_char (by decide))))
  | @count text cs r es isCount _ ih =>
    obtain ⟨pieces', converted, adds⟩ := ih (holds.count r)
    refine ⟨pieces', ?_, adds⟩
    rw [← List.cons_append, convertFrom_count isCount, converted]
  | @mark c isLazy cs es isMark apart _ ih =>
    have adds : Adds (if c = '*' ∧ isLazy = true then "-" else String.singleton c).toList [] := by
      simp only [List.mem_cons, List.not_mem_nil, or_false] at isMark
      rcases isMark with rfl | rfl | rfl <;> cases isLazy <;> exact LuaPattern.adds_char (by decide)
    exact .write (convertFrom_write (Regex.step_mark isMark isLazy apart) pieces) rfl (ih (holds.write adds))
  | @char c cs es other noCount _ ih =>
    obtain ⟨piece, adds, step⟩ := convertFrom_char pieces other noCount
    exact .write step rfl (ih (holds.write adds))

end Steps

/-! ### When they balance -/

/-- What a count may stand behind. -/
def Element.isRepeatable : Element → Bool
  | .piece => true
  | .closing => true
  | _ => false

/-- Every count stands behind a piece or a group, where `behind` says so of the first part. -/
def placed (behind : Bool) : List Element → Bool
  | [] => true
  | .count _ :: es => behind && placed false es
  | e :: es => placed e.isRepeatable es

/-- How often the groups that are counted are written. -/
def groupCopies : List Element → List Nat
  | [] => []
  | .closing :: .count r :: es => r.copies :: groupCopies es
  | _ :: es => groupCopies es

/-- The parentheses of the groups, with those that close a group repeated as counted. -/
def repeated : List Element → List Paren
  | [] => []
  | .closing :: .count r :: es => List.replicate r.copies .closing ++ repeated es
  | e :: es => e.parens ++ repeated es

/-- The first part is no count, so that it does not matter what comes before. -/
theorem placed_of_ne_count (other : ∀ r rest, es ≠ .count r :: rest) (behind : Bool) : placed behind es = placed false es := by
  cases es with
  | nil => rfl
  | cons e es =>
    cases e with
    | count r => exact absurd rfl (other r es)
    | piece => rfl
    | boundary => rfl
    | opening => rfl
    | closing => rfl

/-- If every count has something to repeat, no other parentheses than those that close a group are repeated. -/
theorem written_eq_repeated {behind : Bool} (isPlaced : placed behind es = true) {last : List Paren}
    (once : last ≠ [] → placed false es = true) : written last es = last ++ repeated es := by
  fun_induction repeated es generalizing behind last with
  | case1 => exact (List.append_nil last).symm
  | case2 r es ih =>
    have rest : placed false es = true := isPlaced
    change last ++ written (List.replicate r.copies [Paren.closing]).flatten es = _
    rw [List.flatten_replicate_singleton, ih rest fun _ => rest]
  | case3 e es notCounted ih =>
    cases e with
    | piece => exact congrArg (last ++ ·) (ih isPlaced fun some => absurd rfl some)
    | boundary => exact ih isPlaced fun _ => isPlaced
    | opening => exact congrArg (last ++ ·) (ih isPlaced fun _ => isPlaced)
    | closing =>
      have rest := placed_of_ne_count (fun r rest => notCounted r rest rfl) true
      exact congrArg (last ++ ·) (ih isPlaced fun _ => rest ▸ isPlaced)
    | count r =>
      -- the count of a group is taken with its parenthesis above, so there is nothing here to repeat
      have none : last = [] := by
        by_contra some
        cases once some
      rw [placed, Bool.and_eq_true] at isPlaced
      subst none
      change written (List.replicate r.copies []).flatten es = _
      rw [List.flatten_replicate_nil]
      exact ih isPlaced.2 fun some => absurd rfl some

theorem count_opening_repeated (es : List Element) : (repeated es).count .opening = (groups es).count .opening := by
  fun_induction repeated es with
  | case1 => rfl
  | case2 r es ih =>
    rw [List.count_append, List.count_replicate, ih]
    simp [groups, Element.parens]
  | case3 e es notCounted ih => rw [List.count_append, ih, groups, groups, List.flatMap_cons, List.count_append]

/-- Where no group is left out, parentheses are added for every group that is written more than once. -/
theorem count_closing_repeated (positive : 0 ∉ groupCopies es) : (groups es).count .closing ≤ (repeated es).count .closing ∧
      ((groups es).count .closing = (repeated es).count .closing → ∀ n ∈ groupCopies es, n = 1) := by
  fun_induction repeated es with
  | case1 => exact ⟨Nat.le_refl _, fun _ => List.forall_mem_nil _⟩
  | case2 r es ih =>
    rw [groupCopies, List.mem_cons, not_or] at positive
    obtain ⟨least, once⟩ := ih positive.2
    have closings : (groups (.closing :: .count r :: es)).count .closing = (groups es).count .closing + 1 := List.count_cons_self
    rw [closings, List.count_append, List.count_replicate_self, groupCopies]
    refine ⟨by omega, fun equal => ?_⟩
    exact List.forall_mem_cons.mpr ⟨by omega, once (by omega)⟩
  | case3 e es notCounted ih =>
    rw [groupCopies.eq_3 e es notCounted] at positive ⊢
    obtain ⟨least, once⟩ := ih positive
    rw [List.count_append, groups, List.flatMap_cons, List.count_append]
    rw [groups] at least once
    exact ⟨by omega, fun equal => once (by omega)⟩

theorem repeated_eq_groups (once : ∀ n ∈ groupCopies es, n = 1) : repeated es = groups es := by
  fun_induction repeated es with
  | case1 => rfl
  | case2 r es ih =>
    rw [groupCopies, List.forall_mem_cons] at once
    rw [ih once.2, once.1]
    rfl
  | case3 e es notCounted ih =>
    rw [groupCopies.eq_3 e es notCounted] at once
    rw [ih once]
    rfl

/-- If no group is left out, the parentheses balance if and only if every group is written once. -/
theorem balances_written_iff (isPlaced : placed false es = true)
    (balanced : Balances .opening .closing (groups es)) (positive : 0 ∉ groupCopies es) :
    Balances .opening .closing (written [] es) ↔ ∀ n ∈ groupCopies es, n = 1 := by
  rw [written_eq_repeated isPlaced fun some => absurd rfl some, List.nil_append]
  constructor
  · intro repeatedBalances
    refine (count_closing_repeated positive).2 ?_
    rw [← balanced.1, ← repeatedBalances.1, count_opening_repeated]
  · intro once
    rwa [repeated_eq_groups once]

/-- A body without alternatives is converted. In the pattern every percent sign has a character behind it and every set is
closed, and the parentheses are those of the groups with the last piece before a count repeated. Where counts stand behind pieces
and groups and leave out no group, they balance if and only if every group that is counted is written once. -/
theorem parens_ofRegex {literal : String} {body flags : List Char} {es : List Element}
    (isLiteral : IsLiteral literal.toList body flags) (reads : Reads body es) : ∃ text : String,
    ofRegex literal = ⟨some text, flags.contains 'g'⟩ ∧
    parens? text.toList = some (written [] es) ∧
    (placed false es = true → Balances .opening .closing (groups es) → 0 ∉ groupCopies es →
      (Balances .opening .closing (written [] es) ↔ ∀ n ∈ groupCopies es, n = 1)) := by
  have start : Holds [] [] [] := ⟨LuaPattern.adds_nil, LuaPattern.adds_nil⟩
  obtain ⟨pieces, converted, adds⟩ := reads.converts start
  refine ⟨String.join pieces.reverse, ?_, adds.parens?, balances_written_iff⟩
  rw [ofRegex, splitLiteral_eq_some_iff.mpr isLiteral]
  dsimp only
  rw [ofBody, converted]
  rfl

theorem parens_ofRegex_group : ∃ text : String, ofRegex "/(a\x7b2\x7d[)%]+)\x7b1,\x7d\\)/g" = ⟨some text, true⟩ ∧
    parens? text.toList = some [.opening, .closing] ∧ Balances Paren.opening .closing [.opening, .closing] := by
  have isLiteral : IsLiteral "/(a\x7b2\x7d[)%]+)\x7b1,\x7d\\)/g".toList "(a\x7b2\x7d[)%]+)\x7b1,\x7d\\)".toList ['g'] :=
    ⟨by decide, by decide, .inl rfl⟩
  have reads : Reads "(a\x7b2\x7d[)%]+)\x7b1,\x7d\\)".toList
      [.opening, .piece, .count ⟨2, some 2⟩, .piece, .piece, .closing, .count ⟨1, none⟩, .piece] :=
    .capture (by rintro _ ⟨⟩) <| .char (by decide) (by rintro ⟨⟩) <| .count (Regex.isCount_exactly 2) <|
      .set false (.char (by decide) (by decide) (.char (by decide) (by decide) .nil)) (by decide) (by decide) <|
      .mark false (by decide) (by decide) <| .closing <| .count (Regex.isCount_atLeast 1) <| .pair (by decide) .nil
  obtain ⟨text, converted, parens, balances⟩ := parens_ofRegex isLiteral reads
  exact ⟨text, converted, parens, (balances (by decide) (by decide) (by decide)).mpr (by decide)⟩

/-- Of a group that is counted the closing parenthesis alone is repeated. -/
theorem not_balances_counted_group : ofRegex "/(?:ab)\x7b2\x7d/" = ⟨some "(ab))", false⟩ ∧
    parens? "(ab))".toList = some [.opening, .closing, .closing] ∧
    ¬Balances Paren.opening .closing [.opening, .closing, .closing] :=
  ⟨by decide, by decide, by decide⟩

end Pattern

end NoteScript

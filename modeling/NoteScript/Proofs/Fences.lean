import Mathlib.Data.List.TakeWhile
import Mathlib.Tactic.Common
import NoteScript.Note
import NoteScript.Proofs.Characters

/-!
# Which lines of a note are queries

A fence opens a block only where no earlier block is open, and a block goes on to the first line that closes it, whatever stands in
between. So it depends on all that comes before whether a line is searched. Here that is said without the scan, by going back
from a line to the blocks in front of it.

* `Opening`, `Closing`: the lines that open and close a block.
* `Free`, `Region`: lines that no earlier block reaches, and the blocks that start at such a line.
* `Expressions`: the inline expressions of a line, from left to right.
* `Part`: what a single line adds to the queries; `parts_queriesFrom`: the scan finds this, line by line.
* `queries_scan`: what there is among the queries of a note, and in which order.
* `fence_hides_iff`: when no inline expression is found between a fence and the line that closes it.
-/

namespace NoteScript.Note

open Text

variable {line : String} {j' : Nat}

/-- A run that ends before the list does ends at an element outside the class. -/
theorem exists_stop {α : Type} {p : α → Bool} {l : List α} (ends : (l.takeWhile p).length < l.length) :
    ∃ a rest, l = l.takeWhile p ++ a :: rest ∧ p a = false := by
  have split : l.takeWhile p ++ l.dropWhile p = l := List.takeWhile_append_dropWhile
  have stop := List.head?_dropWhile_not p l
  cases rest : l.dropWhile p with
  | nil =>
    rw [rest, List.append_nil] at split
    rw [split] at ends
    exact absurd ends (Nat.lt_irrefl _)
  | cons a rest' => exact ⟨a, rest', by rw [← rest, split], by simpa [rest] using stop⟩

/-! ### Fences -/

/-- White space and the mark of a fence, with a word right behind it. -/
def Opening (line : String) (word : List Char) : Prop :=
  ∃ blank rest, line.toList = blank ++ (fence ++ (word ++ rest)) ∧ (∀ c ∈ blank, isSpace c = true) ∧ word ≠ [] ∧
    (∀ c ∈ word, isSpace c = false) ∧ rest.head?.all isSpace = true

/-- The mark of a fence with white space around it. -/
def Closing (line : String) : Prop :=
  ∃ blank rest, line.toList = blank ++ (fence ++ rest) ∧ (∀ c ∈ blank, isSpace c = true) ∧ ∀ c ∈ rest, isSpace c = true

theorem afterFence?_eq_some_iff {behind : List Char} : afterFence? line = some behind ↔
    ∃ blank, line.toList = blank ++ (fence ++ behind) ∧ ∀ c ∈ blank, isSpace c = true := by
  constructor
  · intro found
    simp only [afterFence?] at found
    split at found
    · rename_i marked
      obtain ⟨rest, shape⟩ := List.isPrefixOf_iff_prefix.mp marked
      have start : line.toList.takeWhile isSpace ++ trimStart line.toList = line.toList := List.takeWhile_append_dropWhile
      rw [← shape, List.drop_left] at found
      obtain rfl := Option.some.inj found
      exact ⟨line.toList.takeWhile isSpace, by rw [shape, start], fun c mem => List.mem_takeWhile_imp mem⟩
    · cases found
  · rintro ⟨blank, shape, spaces⟩
    have start : trimStart line.toList = fence ++ behind := by
      rw [shape, trimStart, List.dropWhile_append_of_pos spaces]
      exact List.dropWhile_cons_of_neg (by decide)
    simp only [afterFence?, start]
    rw [if_pos (List.isPrefixOf_iff_prefix.mpr (List.prefix_append _ _)), List.drop_left]

theorem fenceWord?_eq_some_iff {word : List Char} : fenceWord? line = some word ↔ Opening line word := by
  have taken : fenceWord? line = (afterFence? line).bind fun behind =>
      if (behind.takeWhile (!isSpace ·)).isEmpty then none else some (behind.takeWhile (!isSpace ·)) := rfl
  rw [taken, Option.bind_eq_some_iff]
  simp only [afterFence?_eq_some_iff]
  constructor
  · rintro ⟨behind, ⟨blank, shape, spaces⟩, found⟩
    split at found
    · cases found
    · rename_i nonempty
      obtain rfl := Option.some.inj found
      refine ⟨blank, behind.dropWhile (!isSpace ·), ?_, spaces, by simpa using nonempty, fun c mem => ?_, ?_⟩
      · rw [List.takeWhile_append_dropWhile, shape]
      · simpa using List.mem_takeWhile_imp mem
      · have stop := List.head?_dropWhile_not (!isSpace ·) behind
        cases head : (behind.dropWhile (!isSpace ·)).head? with
        | none => rfl
        | some c => simpa [head] using stop
  · rintro ⟨blank, rest, shape, spaces, nonempty, solid, ends⟩
    have word' : (word ++ rest).takeWhile (!isSpace ·) = word := by
      rw [List.takeWhile_append_of_pos (by simpa using solid)]
      cases rest with
      | nil => simp
      | cons c rest => rw [List.takeWhile_cons_of_neg (by simpa using ends), List.append_nil]
    refine ⟨word ++ rest, ⟨blank, shape, spaces⟩, ?_⟩
    rw [word', if_neg (by simpa using nonempty)]

theorem closesFence_iff : closesFence line = true ↔ Closing line := by
  simp only [closesFence, Option.any_eq_true, List.all_eq_true, afterFence?_eq_some_iff, Closing]
  constructor
  · rintro ⟨rest, ⟨blank, shape, spaces⟩, spaces'⟩
    exact ⟨blank, rest, shape, spaces, spaces'⟩
  · rintro ⟨blank, rest, shape, spaces, spaces'⟩
    exact ⟨rest, ⟨blank, shape, spaces⟩, spaces'⟩

/-! ### Blocks -/

/-- The line `j` is the first one behind the line `i` that closes a block. -/
structure ClosedBy (lines : List String) (i j : Nat) : Prop where
  behind : i < j
  closing : ∃ line, lines[j]? = some line ∧ Closing line
  first : ∀ k line, i < k → k < j → lines[k]? = some line → ¬ Closing line

/-- No block that opens in front of the line reaches it. A fence inside an earlier block opens none. -/
def Free (lines : List String) (i : Nat) : Prop :=
  ∀ k < i, Free lines k → ∀ line word j, lines[k]? = some line → Opening line word → ClosedBy lines k j → j < i

/-- A block from its opening fence to its closing one. -/
structure Region (lines : List String) (i j : Nat) (word : List Char) : Prop where
  free : Free lines i
  opening : ∃ line, lines[i]? = some line ∧ Opening line word
  closed : ClosedBy lines i j

variable {lines : List String} {i j : Nat} {word : List Char}

theorem Region.opens (h : Region lines i j word) (here : lines[i]? = some line) : Opening line word := by
  obtain ⟨line', found, opens⟩ := h.opening
  rwa [Option.some.inj (here.symm.trans found)]

theorem free_iff : Free lines i ↔ ∀ f g word, Region lines f g word → f < i → g < i := by
  rw [Free]
  constructor
  · rintro h f g word ⟨free, ⟨line, found, opens⟩, closed⟩ before
    exact h f before free line word g found opens closed
  · intro h k before free line word j found opens closed
    exact h k j word ⟨free, ⟨line, found, opens⟩, closed⟩ before

theorem ClosedBy.unique (h : ClosedBy lines i j) (h' : ClosedBy lines i j') : j = j' := by
  obtain ⟨line, found, closes⟩ := h.closing
  obtain ⟨line', found', closes'⟩ := h'.closing
  rcases Nat.lt_trichotomy j j' with less | same | more
  · exact absurd closes (h'.first j line h.behind less found)
  · exact same
  · exact absurd closes' (h.first j' line' h'.behind more found')

/-- Two blocks have no line in common. -/
theorem Region.disjoint {i' : Nat} {word' : List Char} (h : Region lines i j word) (h' : Region lines i' j' word')
    (other : i ≠ i') : j < i' ∨ j' < i := by
  rcases Nat.lt_or_gt_of_ne other with less | more
  · exact .inl (free_iff.mp h'.free _ _ _ h less)
  · exact .inr (free_iff.mp h.free _ _ _ h' more)

/-- Behind a line that opens no block the next one is as free. -/
theorem Free.succ (h : Free lines i) (none : ∀ j word, ¬ Region lines i j word) : Free lines (i + 1) := by
  refine free_iff.mpr fun f g word region before => ?_
  rcases Nat.lt_succ_iff_lt_or_eq.mp before with earlier | rfl
  · exact Nat.lt_succ_of_lt (free_iff.mp h f g word region earlier)
  · exact absurd region (none g word)

/-- The line behind a block is free. -/
theorem Region.free_behind (h : Region lines i j word) : Free lines (j + 1) := by
  refine free_iff.mpr fun f g word' region before => Nat.lt_succ_of_le ?_
  by_cases same : f = i
  · subst same
    exact Nat.le_of_eq (region.closed.unique h.closed)
  · rcases region.disjoint h same with earlier | later
    · exact Nat.le_of_lt (Nat.lt_trans earlier h.closed.behind)
    · exact absurd before (by omega)

/-! ### Inline expressions -/

/-- A text with an inline expression in it. -/
structure Holds (cs front source rest : List Char) : Prop where
  split : cs = front ++ (Token.backtick :: '$' :: '=' :: (source ++ Token.backtick :: rest))
  inside : Token.backtick ∉ source

/-- The inline expressions of a text: the one that starts first, and those of the text behind it. -/
inductive Expressions : List Char → List String → Prop where
  | none {cs : List Char} (absent : ∀ front source rest, ¬ Holds cs front source rest) : Expressions cs []
  | next {cs front source rest : List Char} {others : List String} (here : Holds cs front source rest)
      (first : ∀ front' source' rest', Holds cs front' source' rest' → front.length ≤ front'.length)
      (further : Expressions rest others) : Expressions cs (String.ofList source :: others)

theorem inlineAt?_eq_some_iff {cs source : List Char} {taken : Nat} : inlineAt? cs = some (source, taken) ↔
    ∃ rest, Holds cs [] source rest ∧ taken = source.length + 3 := by
  constructor
  · intro found
    unfold inlineAt? at found
    split at found
    · rename_i marked
      obtain ⟨behind, rfl⟩ := List.isPrefixOf_iff_prefix.mp marked
      dsimp only at found
      rw [show ([Token.backtick, '$', '='] ++ behind).drop 3 = behind from rfl] at found
      split at found
      · rename_i closed
        obtain ⟨rfl, rfl⟩ := Prod.mk.inj (Option.some.inj found)
        obtain ⟨c, rest, split, mark⟩ := exists_stop closed
        obtain rfl : c = Token.backtick := by simpa using mark
        exact ⟨rest, ⟨congrArg _ split, fun mem => by simpa using List.mem_takeWhile_imp mem⟩, rfl⟩
      · cases found
    · cases found
  · rintro ⟨rest, ⟨rfl, inside⟩, rfl⟩
    have source' : (source ++ Token.backtick :: rest).takeWhile (· != Token.backtick) = source := by
      have other : ∀ c ∈ source, (c != Token.backtick) = true := by
        intro c mem
        rw [bne_iff_ne]
        rintro rfl
        exact inside mem
      rw [List.takeWhile_append_of_pos other, List.takeWhile_cons_of_neg (by simp), List.append_nil]
    have marked : [Token.backtick, '$', '='].isPrefixOf
        ([] ++ (Token.backtick :: '$' :: '=' :: (source ++ Token.backtick :: rest))) = true := by
      simp [List.isPrefixOf]
    rw [inlineAt?, if_pos marked]
    simp [source']

theorem inlineFrom_drop (skip : Nat) (cs : List Char) : inlineFrom skip cs = inlineFrom 0 (cs.drop skip) :=
  Text.skip_eq_drop skip cs (fun _ => rfl) fun _ _ _ => rfl

/-- A character that starts no expression can be left out. -/
theorem Expressions.cons {c : Char} {cs : List Char} {sources : List String} (h : Expressions cs sources)
    (absent : ∀ source rest, ¬ Holds (c :: cs) [] source rest) : Expressions (c :: cs) sources := by
  have later : ∀ {front source rest}, Holds (c :: cs) front source rest →
      ∃ front', front = c :: front' ∧ Holds cs front' source rest := by
    rintro front source rest ⟨split, inside⟩
    cases front with
    | nil => exact absurd ⟨split, inside⟩ (absent source rest)
    | cons d front =>
      obtain ⟨rfl, split'⟩ := List.cons.inj split
      exact ⟨front, rfl, split', inside⟩
  cases h with
  | none none =>
    refine .none fun front source rest holds => ?_
    obtain ⟨front', -, holds'⟩ := later holds
    exact none front' source rest holds'
  | @next _ front source rest _ here first further =>
    have here' : Holds (c :: cs) (c :: front) source rest := ⟨congrArg _ here.split, here.inside⟩
    refine .next here' (fun front' source' rest' holds => ?_) further
    obtain ⟨front'', rfl, holds'⟩ := later holds
    exact Nat.succ_le_succ (first front'' source' rest' holds')

theorem expressions_inlineFrom (cs : List Char) : Expressions cs (inlineFrom 0 cs) := by
  induction size : cs.length using Nat.strong_induction_on generalizing cs with
  | _ n ih =>
    subst size
    cases cs with
    | nil => exact .none fun front source rest holds => by simpa using holds.split
    | cons c cs =>
      rw [inlineFrom]
      cases found : inlineAt? (c :: cs) with
      | none =>
        refine (ih cs.length (Nat.lt_succ_self _) cs rfl).cons fun source rest holds => ?_
        simp [inlineAt?_eq_some_iff.mpr ⟨rest, holds, rfl⟩] at found
      | some expression =>
        obtain ⟨source, taken⟩ := expression
        obtain ⟨rest, holds, rfl⟩ := inlineAt?_eq_some_iff.mp found
        obtain ⟨rfl, behind⟩ := List.cons.inj holds.split
        have left : cs.drop (source.length + 3) = rest := by
          rw [behind, show source.length + 3 = ('$' :: '=' :: (source ++ [Token.backtick])).length by simp]
          exact (congrArg _ (by simp)).trans List.drop_left
        refine .next holds (fun _ _ _ _ => Nat.zero_le _) ?_
        rw [inlineFrom_drop, left]
        exact ih rest.length (by simp [behind]; omega) rest rfl

/-! ### The scan, line by line -/

/-- The query that a block is, with the lines between its fences. -/
def blockQuery (lines : List String) (i j : Nat) : QueryBlock :=
  ⟨.block, String.intercalate "\n" ((lines.take j).drop (i + 1)), i + 1⟩

/-- What a line adds to the queries. -/
inductive Part (lines : List String) (i : Nat) : List QueryBlock → Prop where
  | block {j : Nat} {word : List Char} (region : Region lines i j word) (query : isQueryWord word = true) :
      Part lines i [blockQuery lines i j]
  | foreign {j : Nat} {word : List Char} (region : Region lines i j word) (other : isQueryWord word = false) : Part lines i []
  | unclosed {line : String} {word : List Char} (found : lines[i]? = some line) (opens : Opening line word)
      (never : ∀ j, ¬ ClosedBy lines i j) : Part lines i []
  | inside {f g : Nat} {word : List Char} (region : Region lines f g word) (behind : f < i) (upTo : i ≤ g) : Part lines i []
  | text {line : String} {sources : List String} (found : lines[i]? = some line) (plain : ∀ word, ¬ Opening line word)
      (free : Free lines i) (expressions : Expressions line.toList sources) :
      Part lines i (sources.map fun source => ⟨.inline, source, i + 1⟩)

/-- What the lines from `i` on add to the queries, one after the other. -/
inductive Parts (lines : List String) : Nat → List QueryBlock → Prop where
  | done {i : Nat} (all : lines.length ≤ i) : Parts lines i []
  | line {i : Nat} {here further : List QueryBlock} (part : Part lines i here) (rest : Parts lines (i + 1) further) :
      Parts lines i (here ++ further)

theorem queriesFrom_drop (number skip : Nat) (ls : List String) :
    queriesFrom number skip ls = queriesFrom (number + skip) 0 (ls.drop skip) := by
  induction ls generalizing number skip with
  | nil => simp [queriesFrom]
  | cons line rest ih =>
    cases skip with
    | zero => rfl
    | succ skip => rw [queriesFrom, List.drop_succ_cons, ih, Nat.add_right_comm, Nat.add_assoc]

/-- The line of an opening fence adds its block if that is a query. -/
theorem Region.part (h : Region lines i j word) : Part lines i (if isQueryWord word then [blockQuery lines i j] else []) := by
  cases query : isQueryWord word with
  | true => exact .block h query
  | false => exact .foreign h query

/-- The lines of a block add nothing but the block. -/
theorem Region.parts (h : Region lines i j word) {found : List QueryBlock} (rest : Parts lines (j + 1) found) :
    Parts lines i ((if isQueryWord word then [blockQuery lines i j] else []) ++ found) := by
  have inside : ∀ n, i + n ≤ j → Parts lines (j + 1 - n) found := by
    intro n
    induction n with
    | zero => exact fun _ => rest
    | succ n ih =>
      intro within
      have part : Part lines (j - n) [] := .inside h (by omega) (by omega)
      have later := ih (by omega)
      rw [Nat.succ_sub (by omega)] at later
      rw [Nat.add_sub_add_right]
      exact .line part later
  have behind := h.closed.behind
  have body := inside (j - i) (by omega)
  rw [show j + 1 - (j - i) = i + 1 by omega] at body
  exact .line h.part body

/-- The line that closes a block is the first one behind its body. -/
theorem closedBy_iff {rest : List String} (here : lines.drop i = line :: rest) : ClosedBy lines i j ↔
    (rest.takeWhile (!closesFence ·)).length < rest.length ∧ j = i + 1 + (rest.takeWhile (!closesFence ·)).length := by
  have at' : ∀ k, lines[i + 1 + k]? = rest[k]? := by
    intro k
    have dropped : (lines.drop (i + 1))[k]? = rest[k]? := by
      rw [← List.drop_drop, here]
      rfl
    rw [← dropped, List.getElem?_drop]
  generalize body : rest.takeWhile (!closesFence ·) = ls
  have open' : ∀ k line, k < ls.length → rest[k]? = some line → ¬ Closing line := by
    intro k line less found
    rw [← List.takeWhile_append_dropWhile (p := (!closesFence ·)) (l := rest), body, List.getElem?_append_left less] at found
    have mem : line ∈ rest.takeWhile (!closesFence ·) := body ▸ List.mem_of_getElem? found
    rw [← closesFence_iff]
    simpa using List.mem_takeWhile_imp mem
  have first : ls.length < rest.length → ClosedBy lines i (i + 1 + ls.length) := by
    intro closed
    refine ⟨by omega, ?_, fun k line more less found => ?_⟩
    · obtain ⟨last, others, split, closes⟩ := exists_stop (by rwa [body])
      refine ⟨last, ?_, closesFence_iff.mp (by simpa using closes)⟩
      rw [at', split, body]
      simp
    · refine open' (k - (i + 1)) line (by omega) ?_
      rw [← at', ← found]
      congr 1
      omega
  constructor
  · intro closed
    have behind := closed.behind
    obtain ⟨last, found, closes⟩ := closed.closing
    rw [show j = i + 1 + (j - (i + 1)) by omega, at'] at found
    have inside : j - (i + 1) < rest.length := (List.getElem?_eq_some_iff.mp found).1
    have less : ls.length < rest.length := by
      by_contra all
      exact open' _ last (by omega) found closes
    exact ⟨less, closed.unique (first less)⟩
  · rintro ⟨less, rfl⟩
    exact first less

/-- A step of the scan, from a line that no block reaches to the nearest one behind it. -/
structure Steps (lines : List String) (i n : Nat) (here : List QueryBlock) : Prop where
  forth : i < n
  free : Free lines n
  nearest : ∀ m, i < m → Free lines m → n ≤ m
  part : Part lines i here
  parts : ∀ found, Parts lines n found → Parts lines i (here ++ found)
  scanned : queriesFrom (i + 1) 0 (lines.drop i) = here ++ queriesFrom (n + 1) 0 (lines.drop n)

theorem exists_step (free : Free lines i) (inside : i < lines.length) : ∃ n here, Steps lines i n here := by
  cases here : lines.drop i with
  | nil => exact absurd (List.drop_eq_nil_iff.mp here) (by omega)
  | cons line rest =>
    have found : lines[i]? = some line := by
      rw [← Nat.add_zero i, ← List.getElem?_drop, here]
      rfl
    have next : lines.drop (i + 1) = rest := by
      rw [← List.drop_drop, here]
      rfl
    have single : ∀ {part : List QueryBlock}, Part lines i part → (∀ j word, ¬ Region lines i j word) →
        queriesFrom (i + 1) 0 (line :: rest) = part ++ queriesFrom (i + 1 + 1) 0 rest → ∃ n here, Steps lines i n here :=
      fun part none scanned => ⟨i + 1, _, Nat.lt_succ_self i, free.succ none, fun _ more _ => more, part, fun _ => .line part,
        by rwa [here, next]⟩
    cases fence : fenceWord? line with
    | none =>
      have plain : ∀ word, ¬ Opening line word := by
        intro word opens
        simp [fenceWord?_eq_some_iff.mpr opens] at fence
      refine single (.text found plain free (expressions_inlineFrom _)) (fun _ word region => plain word (region.opens found)) ?_
      rw [queriesFrom, fence]
      rfl
    | some word =>
      have opens := fenceWord?_eq_some_iff.mp fence
      by_cases closed : (rest.takeWhile (!closesFence ·)).length < rest.length
      · have region : Region lines i (i + 1 + (rest.takeWhile (!closesFence ·)).length) word :=
          ⟨free, ⟨line, found, opens⟩, (closedBy_iff here).mpr ⟨closed, rfl⟩⟩
        have body : (lines.take (i + 1 + (rest.takeWhile (!closesFence ·)).length)).drop (i + 1) =
            rest.takeWhile (!closesFence ·) := by
          rw [List.drop_take, next, Nat.add_sub_cancel_left]
          exact (List.prefix_iff_eq_take.mp (List.takeWhile_prefix _)).symm
        have jump : ∀ n, queriesFrom (i + 1 + 1) (n + 1) rest =
            queriesFrom (i + 1 + n + 1 + 1) 0 (lines.drop (i + 1 + n + 1)) := by
          intro n
          rw [queriesFrom_drop, ← next, List.drop_drop]
          congr 1
          omega
        refine ⟨_, _, Nat.lt_succ_of_lt region.closed.behind, region.free_behind,
          fun m more free' => free_iff.mp free' _ _ _ region more, region.part, fun _ => region.parts, ?_⟩
        rw [here, queriesFrom, fence, blockQuery, body]
        dsimp only
        rw [if_pos closed, jump]
      · refine single (.unclosed found opens fun j closes => closed ((closedBy_iff here).mp closes).1)
          (fun j _ region => closed ((closedBy_iff here).mp region.closed).1) ?_
        rw [queriesFrom, fence]
        dsimp only
        rw [if_neg closed]
        rfl

theorem parts_queriesFrom (free : Free lines i) : Parts lines i (queriesFrom (i + 1) 0 (lines.drop i)) := by
  induction left : lines.length - i using Nat.strong_induction_on generalizing i with
  | _ n ih =>
    by_cases inside : i < lines.length
    · obtain ⟨n, here, step⟩ := exists_step free inside
      have forth := step.forth
      rw [step.scanned]
      exact step.parts _ (ih _ (by omega) step.free rfl)
    · rw [List.drop_eq_nil_of_le (by omega)]
      exact .done (by omega)

/-! ### What the scan finds -/

/-- A line that opens no block and is part of none. -/
def Searched (lines : List String) (i : Nat) : Prop :=
  (∃ line, lines[i]? = some line ∧ ∀ word, ¬ Opening line word) ∧ ∀ f g word, Region lines f g word → ¬ (f ≤ i ∧ i ≤ g)

/-- The inline expressions among some queries that are reported for a line. -/
def inlineSources (found : List QueryBlock) (i : Nat) : List String :=
  (found.filter fun q => q.kind = .inline ∧ q.line = i + 1).map (·.source)

theorem inlineSources_eq_nil {found : List QueryBlock} :
    inlineSources found i = [] ↔ ∀ q ∈ found, q.kind = .inline → q.line ≠ i + 1 := by
  simp [inlineSources]

theorem Region.word_eq {word' : List Char} (h : Region lines i j word) (h' : Region lines i j' word') : word = word' := by
  obtain ⟨line, found, opens⟩ := h.opening
  exact Option.some.inj ((fenceWord?_eq_some_iff.mpr opens).symm.trans (fenceWord?_eq_some_iff.mpr (h'.opens found)))

namespace Part

variable {here : List QueryBlock}

theorem line_eq (h : Part lines i here) : ∀ q ∈ here, q.line = i + 1 := by
  cases h with
  | block => simp [blockQuery]
  | _ => simp

/-- A line adds a block exactly if it opens one that is a query. -/
theorem mem_block_iff (h : Part lines i here) (q : QueryBlock) : q ∈ here ∧ q.kind = .block ↔
    ∃ j word, Region lines i j word ∧ isQueryWord word = true ∧ q = blockQuery lines i j := by
  constructor
  · rintro ⟨mem, kind⟩
    cases h with
    | @block j word region query => exact ⟨j, word, region, query, List.mem_singleton.mp mem⟩
    | text =>
      obtain ⟨source, -, rfl⟩ := List.mem_map.mp mem
      cases kind
    | _ => cases mem
  · rintro ⟨j, word, region, query, rfl⟩
    cases h with
    | block region' =>
      rw [region.closed.unique region'.closed]
      exact ⟨List.mem_singleton_self _, rfl⟩
    | foreign region' other => simp [region.word_eq region', other] at query
    | unclosed found opens never => exact absurd region.closed (never j)
    | inside region' behind upTo => exact absurd (free_iff.mp region.free _ _ _ region' behind) (by omega)
    | text found plain => exact absurd (region.opens found) (plain word)

/-- A line that is searched adds its inline expressions. -/
theorem expressions (h : Part lines i here) (searched : Searched lines i) {line : String} (at' : lines[i]? = some line) :
    Expressions line.toList (inlineSources here i) := by
  obtain ⟨⟨line', found, plain⟩, apart⟩ := searched
  rw [at'] at found
  cases found
  cases h with
  | block region | foreign region => exact absurd ⟨Nat.le_refl i, Nat.le_of_lt region.closed.behind⟩ (apart _ _ _ region)
  | unclosed found opens =>
    rw [at'] at found
    cases found
    exact absurd opens (plain _)
  | inside region behind upTo => exact absurd ⟨Nat.le_of_lt behind, upTo⟩ (apart _ _ _ region)
  | @text _ sources found plain free expressions =>
    rw [at'] at found
    cases found
    have all : inlineSources (sources.map fun source => ⟨.inline, source, i + 1⟩) i = sources := by
      rw [inlineSources, List.filter_eq_self.mpr (by simp), List.map_map]
      exact List.map_id _
    rwa [all]

theorem searched (h : Part lines i here) {q : QueryBlock} (mem : q ∈ here) (kind : q.kind = .inline) : Searched lines i := by
  cases h with
  | block =>
    rw [List.mem_singleton.mp mem] at kind
    cases kind
  | text found plain free =>
    refine ⟨⟨_, found, plain⟩, fun f g word region within => ?_⟩
    rcases Nat.lt_or_eq_of_le within.1 with before | rfl
    · exact absurd (free_iff.mp free f g word region before) (by omega)
    · exact plain word (region.opens found)
  | _ => cases mem

end Part

/-- From a line on that no block reaches, the scan goes on as if it started there. -/
theorem exists_before {m : Nat} (free : Free lines i) (free' : Free lines m) (upTo : i ≤ m) : ∃ before,
    queriesFrom (i + 1) 0 (lines.drop i) = before ++ queriesFrom (m + 1) 0 (lines.drop m) ∧ ∀ q ∈ before, q.line ≤ m := by
  induction left : m - i using Nat.strong_induction_on generalizing i with
  | _ n ih =>
    rcases Nat.lt_or_eq_of_le upTo with less | rfl
    · by_cases inside : i < lines.length
      · obtain ⟨n, here, step⟩ := exists_step free inside
        have forth := step.forth
        have within := step.nearest m less free'
        obtain ⟨before, rest, lines⟩ := ih _ (by omega) step.free within rfl
        refine ⟨here ++ before, by rw [step.scanned, rest, List.append_assoc], fun q mem => ?_⟩
        rcases List.mem_append.mp mem with now | later
        · rw [step.part.line_eq q now]
          exact less
        · exact lines q later
      · refine ⟨[], ?_, List.forall_mem_nil _⟩
        rw [List.drop_eq_nil_of_le (by omega), List.drop_eq_nil_of_le (by omega)]
        rfl
    · exact ⟨[], rfl, List.forall_mem_nil _⟩

/-- What there is among the queries of some lines, and in which order. -/
structure IsScan (lines : List String) (found : List QueryBlock) : Prop where
  ordered : found.Pairwise (·.line ≤ ·.line)
  blocks : ∀ q, q ∈ found ∧ q.kind = .block ↔
    ∃ i j word, Region lines i j word ∧ isQueryWord word = true ∧ q = blockQuery lines i j
  once : (found.filter (·.kind = .block)).Pairwise (·.line < ·.line)
  searched : ∀ q ∈ found, q.kind = .inline → ∃ i, Searched lines i ∧ q.line = i + 1
  disjoint : ∀ i j word i' j' word', Region lines i j word → Region lines i' j' word' → i ≠ i' → j < i' ∨ j' < i
  expressions : ∀ i line, lines[i]? = some line → Searched lines i → Expressions line.toList (inlineSources found i)

namespace Parts

variable {found : List QueryBlock}

theorem lt_line (h : Parts lines i found) : ∀ q ∈ found, i < q.line := by
  induction h with
  | done => exact List.forall_mem_nil _
  | @line i here further part _ ih =>
    intro q mem
    rcases List.mem_append.mp mem with now | later
    · rw [part.line_eq q now]
      exact Nat.lt_succ_self i
    · exact Nat.lt_of_succ_lt (ih q later)

theorem ordered (h : Parts lines i found) : found.Pairwise (·.line ≤ ·.line) := by
  induction h with
  | done => exact .nil
  | line part rest ih =>
    refine List.pairwise_append.mpr ⟨List.pairwise_of_forall_mem_list fun a ha b hb => ?_, ih, fun a ha b hb => ?_⟩
    · rw [part.line_eq a ha, part.line_eq b hb]
    · rw [part.line_eq a ha]
      exact Nat.le_of_lt (rest.lt_line b hb)

theorem mem_block_iff (h : Parts lines i found) (q : QueryBlock) : q ∈ found ∧ q.kind = .block ↔
    ∃ f j word, i ≤ f ∧ Region lines f j word ∧ isQueryWord word = true ∧ q = blockQuery lines f j := by
  induction h with
  | @done i all =>
    refine ⟨fun ⟨mem, _⟩ => absurd mem List.not_mem_nil, ?_⟩
    rintro ⟨f, j, word, behind, region, -⟩
    obtain ⟨line, found, -⟩ := region.opening
    exact absurd (List.getElem?_eq_some_iff.mp found).1 (by omega)
  | @line i here further part rest ih =>
    rw [List.mem_append, or_and_right, part.mem_block_iff, ih]
    constructor
    · rintro (⟨j, word, now⟩ | ⟨f, j, word, behind, later⟩)
      · exact ⟨i, j, word, Nat.le_refl i, now⟩
      · exact ⟨f, j, word, by omega, later⟩
    · rintro ⟨f, j, word, behind, other⟩
      rcases Nat.lt_or_eq_of_le behind with less | rfl
      · exact .inr ⟨f, j, word, less, other⟩
      · exact .inl ⟨j, word, other⟩

theorem once (h : Parts lines i found) : (found.filter (·.kind = .block)).Pairwise (·.line < ·.line) := by
  induction h with
  | done => exact .nil
  | line part rest ih =>
    rw [List.filter_append]
    refine List.pairwise_append.mpr ⟨?_, ih, fun a ha b hb => ?_⟩
    · cases part with
      | text =>
        rw [List.filter_eq_nil_iff.mpr (by simp)]
        exact .nil
      | block => simp [blockQuery]
      | _ => exact .nil
    · rw [part.line_eq a (List.mem_filter.mp ha).1]
      exact rest.lt_line b (List.mem_filter.mp hb).1

theorem searched (h : Parts lines i found) : ∀ q ∈ found, q.kind = .inline → ∃ k, Searched lines k ∧ q.line = k + 1 := by
  induction h with
  | done => exact List.forall_mem_nil _
  | @line i here further part _ ih =>
    intro q mem kind
    rcases List.mem_append.mp mem with now | later
    · exact ⟨i, part.searched now kind, part.line_eq q now⟩
    · exact ih q later kind

theorem expressions (h : Parts lines i found) {k : Nat} {line : String} (behind : i ≤ k) (at' : lines[k]? = some line)
    (search : Searched lines k) : Expressions line.toList (inlineSources found k) := by
  induction h with
  | done all => exact absurd (List.getElem?_eq_some_iff.mp at').1 (by omega)
  | @line i here further part rest ih =>
    have split : inlineSources (here ++ further) k = inlineSources here k ++ inlineSources further k := by
      simp [inlineSources]
    rw [split]
    rcases Nat.lt_or_eq_of_le behind with less | rfl
    · have nothing : inlineSources here k = [] := by
        refine inlineSources_eq_nil.mpr fun q mem _ => ?_
        rw [part.line_eq q mem]
        omega
      rw [nothing]
      exact ih less
    · rw [inlineSources_eq_nil.mpr fun q mem _ => Nat.ne_of_gt (rest.lt_line q mem), List.append_nil]
      exact part.expressions search at'

end Parts

theorem free_zero (lines : List String) : Free lines 0 := free_iff.mpr fun _ _ _ _ before => absurd before (Nat.not_lt_zero _)

/-- The queries of a note in the order of their lines: the blocks that are queries, each once, and from left to right the inline
expressions of the lines that open no block and are part of none. Two blocks have no line in common. -/
theorem queries_scan (markdown : String) : IsScan (Text.lines markdown) (queries markdown) := by
  have free : Free (Text.lines markdown) 0 := free_iff.mpr fun _ _ _ _ before => absurd before (Nat.not_lt_zero _)
  have parts := parts_queriesFrom free
  exact {
    ordered := parts.ordered
    blocks := fun q => by simpa [queries] using parts.mem_block_iff q
    once := parts.once
    disjoint := fun _ _ _ _ _ _ h h' other => h.disjoint h' other
    searched := parts.searched
    expressions := fun i _ at' => parts.expressions (Nat.zero_le i) at' }

/-! ### What a fence hides -/

/-- The mark of a fence opens a block just if a word is right behind it. -/
theorem exists_opening_iff {behind : List Char} (marked : afterFence? line = some behind) :
    (∃ word, Opening line word) ↔ behind.head?.any (!isSpace ·) = true := by
  simp only [← fenceWord?_eq_some_iff]
  have found : fenceWord? line = if (behind.takeWhile (!isSpace ·)).isEmpty then none else some (behind.takeWhile (!isSpace ·)) := by
    rw [fenceWord?, marked]
    rfl
  rw [found]
  cases behind with
  | nil => simp
  | cons c behind => cases space : isSpace c <;> simp [space]

theorem Opening.not_closing (opens : Opening line word) : ¬ Closing line := by
  rintro ⟨blank, rest, shape, spaces, all⟩
  have solid := (exists_opening_iff (afterFence?_eq_some_iff.mpr ⟨blank, shape, spaces⟩)).mp ⟨word, opens⟩
  cases rest with
  | nil => cases solid
  | cons c rest => simp [all c List.mem_cons_self] at solid

/-- A block that opens in front of a closing line and behind a free one ends there. -/
theorem ClosedBy.free_behind (h : ClosedBy lines i j) (free : Free lines i) : Free lines (j + 1) := by
  refine free_iff.mpr fun f g word region before => ?_
  have behind := h.behind
  by_contra reaches
  rcases Nat.lt_or_ge f i with earlier | later
  · have := free_iff.mp free f g word region earlier
    omega
  · have inside : f < j := by
      obtain ⟨last, found, closes⟩ := h.closing
      obtain ⟨line, opening, opens⟩ := region.opening
      rcases Nat.lt_or_eq_of_le (Nat.le_of_lt_succ before) with less | rfl
      · exact less
      · rw [found] at opening
        cases opening
        exact absurd closes (Opening.not_closing opens)
    obtain ⟨last, found, closes⟩ := h.closing
    exact region.closed.first j last inside (by omega) found closes

/-- A line of a fence that no block reaches, and the first closing line behind it. The scan goes on behind that line as if it
started there. No inline expression is found between the two if a word is right behind the mark of the fence. Where none is, the
line opens no block, and no expression is found only if there is none on the lines between that are searched. -/
theorem fence_hides_iff (markdown : String) {line : String} {i j : Nat} {behind : List Char}
    (found : (Text.lines markdown)[i]? = some line) (free : Free (Text.lines markdown) i)
    (marked : afterFence? line = some behind) (closed : ClosedBy (Text.lines markdown) i j) :
    Free (Text.lines markdown) (j + 1) ∧
      (∃ before, queries markdown = before ++ queriesFrom (j + 2) 0 ((Text.lines markdown).drop (j + 1)) ∧
        ∀ q ∈ before, q.line ≤ j + 1) ∧
      ((∀ q ∈ queries markdown, q.kind = .inline → ¬ (i + 1 < q.line ∧ q.line ≤ j)) ↔
        behind.head?.any (!isSpace ·) = true ∨ ∀ k text, i < k → k < j → Searched (Text.lines markdown) k →
          (Text.lines markdown)[k]? = some text → Expressions text.toList []) := by
  have resumes := closed.free_behind free
  have parts := parts_queriesFrom (free_zero (Text.lines markdown))
  have expressions : ∀ {k text}, (Text.lines markdown)[k]? = some text → Searched (Text.lines markdown) k →
      Expressions text.toList (inlineSources (queries markdown) k) := parts.expressions (Nat.zero_le _)
  refine ⟨resumes, exists_before (free_zero _) resumes (Nat.zero_le _), ?_⟩
  rw [← exists_opening_iff marked]
  constructor
  · refine fun hidden => .inr fun k text more less searched here => ?_
    have nothing : inlineSources (queries markdown) k = [] :=
      inlineSources_eq_nil.mpr fun q mem kind line => hidden q mem kind (by omega)
    exact nothing ▸ expressions here searched
  · rintro shown q mem kind ⟨more, less⟩
    obtain ⟨k, searched, number⟩ := parts.searched q mem kind
    rcases shown with ⟨word, opens⟩ | none
    · exact searched.2 i j word ⟨free, ⟨line, found, opens⟩, closed⟩ (by omega)
    · obtain ⟨text, here, -⟩ := searched.1
      have empty := none k text (by omega) (by omega) searched here
      have expressions := expressions here searched
      have listed : q.source ∈ inlineSources (queries markdown) k :=
        List.mem_map_of_mem (List.mem_filter.mpr ⟨mem, by simp [kind, number]⟩)
      generalize inlineSources (queries markdown) k = sources at expressions listed
      cases empty with
      | none absent =>
        cases expressions with
        | none => cases listed
        | next holds => exact absent _ _ _ holds

/-- A block that is no query hides the expression in it. -/
theorem fence_hides_text : let note := "```text\n`$=dv.current()`\n```\nafter `$=1 + 1`"
    afterFence? "```text" = some "text".toList ∧ ClosedBy (Text.lines note) 0 2 ∧
      ∀ q ∈ queries note, q.kind = .inline → ¬ (1 < q.line ∧ q.line ≤ 2) := by
  intro note
  have marked : afterFence? "```text" = some "text".toList := by decide
  have lines : (Text.lines note).drop 0 = "```text" :: ["`$=dv.current()`", "```", "after `$=1 + 1`"] := by decide +kernel
  have closed : ClosedBy (Text.lines note) 0 2 := (closedBy_iff lines).mpr (by decide +kernel)
  have hidden := (fence_hides_iff note (by decide +kernel) (free_zero _) marked closed).2.2.mpr (.inl (by decide))
  exact ⟨marked, closed, hidden⟩

/-- Between a fence without a word and the next fence an expression is found. -/
theorem fence_hides_nothing_untagged :
    afterFence? "```" = some [] ∧ closesFence "```" = true ∧ queries "```\n`$=x`\n```" = [⟨.inline, "x", 2⟩] := by
  decide +kernel

end NoteScript.Note

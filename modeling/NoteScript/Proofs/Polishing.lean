import NoteScript.Proofs.Smooth
import NoteScript.Proofs.Whitespace

/-!
# Polishing lines

On a smooth text the passes find no string, no comment and no update, so that all they do is to count indices from one
(`Shifts`) and to tidy white space. The count of an index stays within its line, and it changes neither the first nor the
last character of a text.

* `Shifts`: how a text is changed by counting its indices from one, `shifts_of_smooth`: the pass does that.
* `IsLine`, `polish_lines`: lines are polished one by one.
-/

namespace NoteScript

open Text

namespace Polish

/-! ### Nothing to find -/

/-- The characters of a text with none of them in a string or a comment. -/
def bare (cs : List Char) : List Glyph := cs.map fun c => ⟨c, false⟩

theorem unmark_bare (cs : List Char) : unmark (bare cs) = cs := by
  simp [unmark, bare, Function.comp_def]

/-- Two marks in a row that count something up or down, or open a comment or a long string. -/
def strongMarks : List (Char × Char) := [('+', '+'), ('-', '-'), ('[', '['), ('[', '=')]

/-- No two neighbours are such marks. -/
abbrev NoStrongMark (cs : List Char) : Prop := cs.IsChain fun a b => (a, b) ∉ strongMarks

theorem noStrongMark_of_noDoubleMark {cs : List Char} (pairs : NoDoubleMark cs) : NoStrongMark cs := by
  have among : ∀ p ∈ strongMarks, p ∈ doubleMarks := by decide
  exact pairs.imp fun a b other strong => other (among _ strong)

/-- Where nothing opens a string or a comment, no character stands in one. -/
theorem markFrom_bare {cs : List Char} (quotes : ∀ c ∈ cs, c ∉ ['"', '\''])
    (pairs : NoStrongMark cs) (before : Option Char) : markFrom before 0 cs = bare cs := by
  induction cs generalizing before with
  | nil => rfl
  | cons c cs ih =>
    obtain ⟨first, later⟩ := List.forall_mem_cons.mp quotes
    obtain ⟨meet, further⟩ := List.isChain_cons.mp pairs
    have nothing : spanAt before (c :: cs) = 0 := by
      unfold spanAt
      split
      · rename_i shape
        simp_all
      · rename_i shape
        obtain ⟨rfl, rfl⟩ := List.cons.inj shape
        exact absurd (meet '-' rfl) (by decide)
      · rename_i shape
        obtain ⟨rfl, rfl⟩ := List.cons.inj shape
        exact absurd (meet '-' rfl) (by decide)
      · rfl
    rw [markFrom, nothing]
    simp only [ih later further]
    rfl

/-- A pass that matches nowhere changes nothing. -/
theorem replaceHits_none {hit? : Option Char → List Glyph → Option Hit} {glyphs : List Glyph}
    (nothing : ∀ before rest, rest <:+ glyphs → hit? before rest = none) (before : Option Char) :
    replaceHits hit? before 0 glyphs = unmark glyphs := by
  induction glyphs generalizing before with
  | nil => rfl
  | cons g glyphs ih =>
    have later := ih fun before rest suffix => nothing before rest (suffix.trans (List.suffix_cons g glyphs))
    simp only [replaceHits, nothing before _ (List.suffix_refl _), later]
    rfl

section Updates

variable {glyphs : List Glyph} {marks : List (Char × Char)}

theorem isChain_suffix {rest : List Glyph} (h : (unmark glyphs).IsChain fun a b => (a, b) ∉ marks) (suffix : rest <:+ glyphs) :
    (unmark rest).IsChain fun a b => (a, b) ∉ marks :=
  List.IsChain.suffix h (suffix.map _)

theorem pair_notMem (h : (unmark glyphs).IsChain fun a b => (a, b) ∉ marks) {n : Nat} {a b : Char}
    {guarded guarded' : Bool} {rest : List Glyph} (shape : glyphs.drop n = ⟨a, guarded⟩ :: ⟨b, guarded'⟩ :: rest) :
    (a, b) ∉ marks := by
  have inside := isChain_suffix h (List.drop_suffix n glyphs)
  rw [shape] at inside
  exact (List.isChain_cons_cons.mp inside).1

theorem compoundOperator?_eq_none (h : NoDoubleMark (unmark glyphs)) : compoundOperator? glyphs = none := by
  unfold compoundOperator?
  dsimp only
  split
  · rename_i shape
    exact absurd (pair_notMem h shape) (by decide)
  · rename_i shape
    exact absurd (pair_notMem h shape) (by decide)
  · rename_i shape
    have further := congrArg (List.drop 1) shape
    rw [List.drop_drop] at further
    exact absurd (pair_notMem h further) (by decide)
  · rfl

theorem compoundHit?_eq_none (h : NoDoubleMark (unmark glyphs)) (before : Option Char) : compoundHit? before glyphs = none := by
  have nothing : ∀ target, compoundFrom target glyphs = none := by
    induction glyphs with
    | nil => exact fun _ => rfl
    | cons g glyphs ih =>
      intro target
      have further := isChain_suffix h (List.suffix_cons g glyphs)
      simp only [compoundFrom, compoundOperator?_eq_none further, ih further, ite_self]
  rw [compoundHit?, nothing]
  rfl

theorem incrementHit?_eq_none (h : NoStrongMark (unmark glyphs)) (before : Option Char) : incrementHit? before glyphs = none := by
  unfold incrementHit?
  dsimp only
  split
  · rfl
  · split
    · rename_i shape
      exact absurd (pair_notMem h shape) (by decide)
    · rfl

theorem decrementHit?_eq_none (h : NoStrongMark (unmark glyphs)) (before : Option Char) : decrementHit? before glyphs = none := by
  unfold decrementHit?
  dsimp only
  split
  · rfl
  · split
    · rename_i shape
      exact absurd (pair_notMem h shape) (by decide)
    · rfl

end Updates

/-- A pass that needs one of some marks changes no text without them. -/
theorem replaceIn_idle {hit? : Option Char → List Glyph → Option Hit} {marks : List (Char × Char)}
    (nothing : ∀ {glyphs : List Glyph}, ((unmark glyphs).IsChain fun a b => (a, b) ∉ marks) → ∀ before, hit? before glyphs = none)
    {cs : List Char} (quotes : ∀ c ∈ cs, c ∉ ['"', '\'']) (strong : NoStrongMark cs) (pairs : cs.IsChain fun a b => (a, b) ∉ marks) :
    replaceIn hit? cs = cs := by
  have all : (unmark (bare cs)).IsChain fun a b => (a, b) ∉ marks := by rwa [unmark_bare]
  rw [replaceIn, mark, markFrom_bare quotes strong,
    replaceHits_none fun before rest suffix => nothing (isChain_suffix all suffix) before, unmark_bare]

/-! ### Indices -/

/-- A text starts with a decimal index in brackets. -/
structure IndexAt (cs digits rest : List Char) : Prop where
  split : cs = '[' :: (digits ++ ']' :: rest)
  nonempty : digits ≠ []
  decimal : ∀ d ∈ digits, isDecimal d = true

/-- An index counted from one. -/
def nextIndex (digits : List Char) : List Char := '[' :: Nat.toDigits 10 (decimalValue digits + 1) ++ [']']

/-- A text with the indices that follow a word or a closing bracket counted from one, where `before` is the character in
front of it. -/
inductive Shifts : Option Char → List Char → List Char → Prop where
  | nil {before : Option Char} : Shifts before [] []
  | index {before : Option Char} {cs digits rest out : List Char} (found : IndexAt cs digits rest)
      (follows : before.any endsTarget = true) (further : Shifts (some ']') rest out) :
      Shifts before cs (nextIndex digits ++ out)
  | char {before : Option Char} {c : Char} {rest out : List Char}
      (none : before.any endsTarget = true → ∀ digits rest', ¬ IndexAt (c :: rest) digits rest')
      (further : Shifts (some c) rest out) : Shifts before (c :: rest) (c :: out)

theorem getLast?_cons_or (c : Char) (cs : List Char) (before : Option Char) :
    (c :: cs).getLast?.or before = cs.getLast?.or (some c) := by
  rw [List.getLast?_cons, Option.some_or]
  cases cs.getLast? <;> rfl

namespace IndexAt

variable {cs digits rest : List Char}

theorem takeWhile_eq (h : IndexAt cs digits rest) : cs.tail.takeWhile isDecimal = digits ∧ cs.tail.drop digits.length = ']' :: rest := by
  have closing : isDecimal ']' = false := by decide
  rw [h.split, List.tail_cons, List.takeWhile_append_of_pos h.decimal, List.takeWhile_cons_of_neg (by simp [closing]),
    List.append_nil, List.drop_left]
  exact ⟨rfl, rfl⟩

theorem unique (h : IndexAt cs digits rest) {digits' rest' : List Char} (h' : IndexAt cs digits' rest') :
    digits = digits' ∧ rest = rest' := by
  obtain rfl : digits = digits' := h.takeWhile_eq.1.symm.trans h'.takeWhile_eq.1
  exact ⟨rfl, (List.cons.inj (h.takeWhile_eq.2.symm.trans h'.takeWhile_eq.2)).2⟩

end IndexAt

/-- The match for an index, where there is one. -/
theorem indexHit?_bare (before : Option Char) (cs : List Char) :
    (∃ digits rest, IndexAt cs digits rest ∧ before.any endsTarget = true ∧
      indexHit? before (bare cs) = some ⟨nextIndex digits, digits.length + 1⟩) ∨
    (before.any endsTarget = true → ∀ digits rest, ¬ IndexAt cs digits rest) ∧ indexHit? before (bare cs) = none := by
  by_cases opens : ∃ rest, cs = '[' :: rest
  · obtain ⟨rest, rfl⟩ := opens
    have digits : unmark ((bare rest).takeWhile (isDecimal ·.char)) = rest.takeWhile isDecimal := by
      simp [bare, unmark, List.takeWhile_map, Function.comp_def]
    have closes : ∀ n, (((bare rest).drop n).head?.any (·.char == ']')) = ((rest.drop n).head? == some ']') := by
      intro n
      rw [bare, ← List.map_drop]
      cases rest.drop n <;> rfl
    have shape : indexHit? before (bare ('[' :: rest)) = if before.any endsTarget && !(rest.takeWhile isDecimal).isEmpty &&
            (rest.drop (rest.takeWhile isDecimal).length).head? == some ']' then
          some ⟨nextIndex (rest.takeWhile isDecimal), (rest.takeWhile isDecimal).length + 1⟩
        else none := by
      rw [← digits, ← closes]
      rfl
    rw [shape]
    split
    · rename_i found
      simp only [Bool.and_eq_true, Bool.not_eq_true', beq_iff_eq] at found
      obtain ⟨⟨follows, nonempty⟩, closing⟩ := found
      obtain ⟨rest', tail⟩ : ∃ rest', rest.drop (rest.takeWhile isDecimal).length = ']' :: rest' := by
        rw [List.head?_eq_some_iff] at closing
        exact closing
      refine .inl ⟨_, rest', ⟨?_, by simpa using nonempty, fun d hd => List.mem_takeWhile_imp hd⟩, follows, rfl⟩
      rw [← tail, List.prefix_iff_eq_append.mp (List.takeWhile_prefix isDecimal)]
    · rename_i missing
      refine .inr ⟨fun follows digits rest' found => missing ?_, rfl⟩
      obtain ⟨same, tail⟩ := found.takeWhile_eq
      rw [List.tail_cons] at same tail
      simp [follows, same, tail, found.nonempty]
  · refine .inr ⟨fun _ digits rest found => opens ⟨_, found.split⟩, ?_⟩
    unfold indexHit?
    split
    · rename_i shape
      cases cs with
      | nil => cases shape
      | cons c rest =>
        obtain ⟨same, -⟩ := List.cons.inj shape
        exact absurd ⟨rest, congrArg (· :: rest) (congrArg Glyph.char same)⟩ opens
    · rfl

/-- The characters of a match are passed over. -/
theorem replaceHits_skip {hit? : Option Char → List Glyph → Option Hit} (before : Option Char) (taken : List Glyph) (g : Glyph)
    (rest : List Glyph) : replaceHits hit? before (taken.length + 1) (taken ++ g :: rest) =
      replaceHits hit? (some g.char) 0 rest := by
  induction taken generalizing before with
  | nil => rfl
  | cons first taken ih => exact ih (some first.char)

/-- What the pass for indices does on characters outside strings and comments, in front of others that no index goes on into. -/
theorem exists_shifts (cs : List Char) {glyphs : List Glyph} (ends : ∀ before c cs,
      indexHit? before (bare (c :: cs) ++ glyphs) = indexHit? before (bare (c :: cs))) (before : Option Char) : ∃ out, Shifts before cs out ∧
      replaceHits indexHit? before 0 (bare cs ++ glyphs) = out ++ replaceHits indexHit? (cs.getLast?.or before) 0 glyphs := by
  induction size : cs.length using Nat.strong_induction_on generalizing cs before with
  | _ n ih =>
    cases cs with
    | nil => exact ⟨[], .nil, rfl⟩
    | cons c rest =>
      have shape : bare (c :: rest) ++ glyphs = ⟨c, false⟩ :: (bare rest ++ glyphs) := rfl
      have same := ends before c rest
      rw [shape] at same ⊢
      rcases indexHit?_bare before (c :: rest) with ⟨digits, rest', found, follows, hit⟩ | ⟨other, hit⟩
      · obtain ⟨rfl, rfl⟩ := List.cons.inj found.split
        have shorter : rest'.length < n := by
          rw [← size, List.length_cons, List.length_append, List.length_cons]
          omega
        obtain ⟨out, shifts, later⟩ := ih rest'.length shorter rest' (some ']') rfl
        refine ⟨nextIndex digits ++ out, .index found follows shifts, ?_⟩
        have tail : bare (digits ++ ']' :: rest') ++ glyphs = bare digits ++ ⟨']', false⟩ :: (bare rest' ++ glyphs) := by
          simp [bare]
        have length : (bare digits).length = digits.length := List.length_map _
        have last : ('[' :: (digits ++ ']' :: rest')).getLast?.or before = rest'.getLast?.or (some ']') := by
          rw [← List.cons_append, List.getLast?_append_cons, getLast?_cons_or]
        rw [replaceHits, same, hit]
        dsimp only
        rw [tail, ← length, replaceHits_skip, later, last, List.append_assoc]
      · have shorter : rest.length < n := by
          rw [← size, List.length_cons]
          exact Nat.lt_succ_self _
        obtain ⟨out, shifts, later⟩ := ih rest.length shorter rest (some c) rfl
        refine ⟨c :: out, .char other shifts, ?_⟩
        rw [replaceHits, same, hit]
        dsimp only
        rw [later, getLast?_cons_or, List.cons_append]

theorem shifts_replaceHits (cs : List Char) (before : Option Char) :
    Shifts before cs (replaceHits indexHit? before 0 (bare cs)) := by
  obtain ⟨out, shifts, written⟩ := @exists_shifts cs [] (by simp) before
  rw [List.append_nil, replaceHits, List.append_nil] at written
  rwa [written]

namespace Shifts

variable {before : Option Char} {cs out : List Char}

theorem eq (h : Shifts before cs out) {out' : List Char} (h' : Shifts before cs out') : out = out' := by
  induction h generalizing out' with
  | nil =>
    cases h' with
    | nil => rfl
    | index found => cases found.split
  | index found follows _ ih =>
    cases h' with
    | nil => cases found.split
    | index found' _ further =>
      obtain ⟨rfl, rfl⟩ := found.unique found'
      rw [ih further]
    | char none => exact absurd found (none follows _ _)
  | char none _ ih =>
    cases h' with
    | index found follows => exact absurd found (none follows _ _)
    | char _ further => rw [ih further]

theorem head? (h : Shifts none cs out) : out.head? = cs.head? := by
  cases h with
  | nil => rfl
  | index _ follows => cases follows
  | char => rfl

theorem getLast? (h : Shifts before cs out) : out.getLast? = cs.getLast? := by
  have behind : ∀ (front : List Char) (c : Char) (rest : List Char),
      (front ++ c :: rest).getLast? = some (rest.getLast?.getD c) := by
    intro front c rest
    rw [List.getLast?_append, List.getLast?_cons, Option.some_or]
  induction h with
  | nil => rfl
  | @index _ _ digits rest out found _ _ ih =>
    have shape : nextIndex digits ++ out = ('[' :: Nat.toDigits 10 (decimalValue digits + 1)) ++ ']' :: out := by
      simp [nextIndex]
    rw [shape, found.split, behind, ih, ← List.cons_append, behind]
  | char _ _ ih => rw [List.getLast?_cons, List.getLast?_cons, ih]

/-- Counting indices brings in digits only. -/
theorem all_eq (h : Shifts before cs out) {p : Char → Bool} (brackets : p '[' = true ∧ p ']' = true)
    (digit : ∀ d, isDecimal d = true ∨ d.isDigit = true → p d = true) : out.all p = cs.all p := by
  induction h with
  | nil => rfl
  | @index _ _ digits rest out found _ _ ih =>
    have counted : (Nat.toDigits 10 (decimalValue digits + 1)).all p = true :=
      List.all_eq_true.mpr fun d hd => digit d (.inr (Nat.isDigit_of_mem_toDigits (by decide) (by decide) hd))
    have written : digits.all p = true := List.all_eq_true.mpr fun d hd => digit d (.inl (found.decimal d hd))
    rw [found.split, nextIndex]
    simp only [List.all_append, List.all_cons, List.all_nil, counted, written, brackets.1, brackets.2, Bool.true_and,
      Bool.and_true]
    exact ih
  | char _ _ ih => rw [List.all_cons, List.all_cons, ih]

theorem newline_notMem (h : Shifts before cs out) (line : '\n' ∉ cs) : '\n' ∉ out := by
  have feed : isDecimal '\n' = false := by decide
  have digit : ∀ d, isDecimal d = true ∨ d.isDigit = true → (d != '\n') = true := by
    intro d digit
    rw [bne_iff_ne]
    rintro rfl
    rcases digit with digit | digit
    · simp [feed] at digit
    · exact absurd digit (by decide)
  have same := h.all_eq (p := (· != '\n')) (by decide) digit
  have among : ∀ cs : List Char, cs.all (· != '\n') = true ↔ '\n' ∉ cs := by
    intro cs
    simp only [List.all_eq_true, bne_iff_ne]
    constructor
    · exact fun all feed => all _ feed rfl
    · exact fun none c mem feed => none (feed ▸ mem)
  rw [← among, same, among]
  exact line

/-- Where no bracket is opened there is no index. -/
theorem refl (free : '[' ∉ cs) (before : Option Char) : Shifts before cs cs := by
  induction cs generalizing before with
  | nil => exact .nil
  | cons c cs ih =>
    rw [List.mem_cons, not_or] at free
    refine .char (fun _ digits rest found => ?_) (ih free.2 _)
    exact free.1 (List.cons.inj found.split).1.symm

/-- Texts in a row are changed one after the other, unless an index stands across them. -/
theorem append_behind {first first' second second' : List Char} (h : Shifts before first first')
    (h' : Shifts (first.getLast?.or before) second second') (apart : (second.dropWhile isDecimal).head? ≠ some ']') :
    Shifts before (first ++ second) (first' ++ second') := by
  induction h with
  | nil => exact h'
  | @index before _ digits rest _ found follows _ ih =>
    rw [found.split, ← List.cons_append, List.getLast?_append_cons, getLast?_cons_or] at h'
    rw [List.append_assoc]
    refine .index ⟨?_, found.nonempty, found.decimal⟩ follows (ih h')
    rw [found.split]
    simp
  | @char _ c rest _ none _ ih =>
    rw [getLast?_cons_or] at h'
    refine .char (fun follows digits rest' found => ?_) (ih h')
    obtain ⟨rfl, split⟩ := List.cons.inj found.split
    have closing : isDecimal ']' = false := by decide
    -- the index ends in the first text, or its digits go on into the second one
    rcases List.append_eq_append_iff.mp split with ⟨others, digits', shape⟩ | ⟨others, shape, rest'⟩
    · have decimal : ∀ d ∈ others, isDecimal d = true := fun d hd => found.decimal d (by simp [digits', hd])
      refine apart ?_
      rw [shape, List.dropWhile_append_of_pos decimal, List.dropWhile_cons_of_neg (by simp [closing]), List.head?_cons]
    · cases others with
      | nil =>
        refine apart ?_
        rw [← List.nil_append second, ← rest', List.dropWhile_cons_of_neg (by simp [closing]), List.head?_cons]
      | cons d others =>
        obtain ⟨rfl, -⟩ := List.cons.inj rest'
        exact none follows digits others ⟨congrArg _ shape, found.nonempty, found.decimal⟩

theorem append {first first' second second' : List Char} (h : Shifts before first first')
    (h' : ∀ before, Shifts before second second') (apart : (second.dropWhile isDecimal).head? ≠ some ']') :
    Shifts before (first ++ second) (first' ++ second') :=
  h.append_behind (h' _) apart

/-- In front of a text that does not follow a word or a bracket it makes no difference what stands there. -/
theorem of_none (h : Shifts none cs out) (other : before.any endsTarget = false) : Shifts before cs out := by
  cases h with
  | nil => exact .nil
  | index _ follows => cases follows
  | char _ further =>
    refine .char (fun follows => ?_) further
    simp [other] at follows

/-- No index goes on behind white space. -/
theorem space {c : Char} (blank : c ∈ [' ', '\n']) {cs' out' : List Char} (h : Shifts before cs out) (h' : Shifts none cs' out') :
    Shifts before (cs ++ c :: cs') (out ++ c :: out') := by
  have blanks : ∀ c ∈ [' ', '\n'], isDecimal c = false ∧ endsTarget c = false ∧ c ≠ '[' ∧ c ≠ ']' := by decide
  obtain ⟨digit, target, opening, closing⟩ := blanks c blank
  refine h.append (fun before => .char (fun _ digits rest found => ?_) (h'.of_none (by simpa using target))) ?_
  · exact absurd (List.cons.inj found.split).1 opening
  · rw [List.dropWhile_cons_of_neg (by simp [digit])]
    simpa using closing

end Shifts

/-! ### White space -/

/-- A text that starts and ends with something other than white space, and so does each of its lines. -/
structure Tidy (cs : List Char) : Prop where
  feeds : cs.IsChain fun a b => b = '\n' → isSpace a = false
  starts : cs.head?.any (!isSpace ·) = true
  ends : cs.getLast?.any (!isSpace ·) = true

namespace Tidy

variable {cs cs' : List Char}

theorem of_line (line : '\n' ∉ cs) (starts : cs.head?.any (!isSpace ·) = true) (ends : cs.getLast?.any (!isSpace ·) = true) :
    Tidy cs := by
  refine ⟨List.isChain_iff_forall_rel_of_append_cons_cons.mpr fun a b before after shape feed => ?_, starts, ends⟩
  subst feed
  exact absurd (by simp [shape]) line

theorem of_shifts {s : String} (line : '\n' ∉ s.toList) (starts : startsSolid s = true) (ends : endsSolid s = true)
    {out : List Char} (shifts : Shifts none s.toList out) : Tidy out := by
  refine .of_line (shifts.newline_notMem line) ?_ ?_
  · rw [shifts.head?]
    exact starts
  · rw [shifts.getLast?]
    exact ends

theorem newline (h : Tidy cs) (h' : Tidy cs') : Tidy (cs ++ '\n' :: cs') := by
  have feed : isSpace '\n' = true := by decide
  constructor
  · refine List.isChain_append.mpr ⟨h.feeds, List.isChain_cons.mpr ⟨fun b head fed => ?_, h'.feeds⟩, fun a last b _ _ => ?_⟩
    · rw [Option.mem_def] at head
      have solid : isSpace b = false := by simpa [head] using h'.starts
      simp [fed, feed] at solid
    · rw [Option.mem_def] at last
      simpa [last] using h.ends
  · cases head : cs.head? with
    | none => simpa [head] using h.starts
    | some c => simpa [List.head?_append, head] using h.starts
  · cases last : cs'.getLast? with
    | none => simpa [last] using h'.ends
    | some c => simpa [List.getLast?_append, List.getLast?_cons, last] using h'.ends

theorem tidyWhitespace_eq (h : Tidy cs) : tidyWhitespace cs = cs := by
  have solid : ∀ {a ds}, a :: '\n' :: ds <:+: cs → isSpace a = false := by
    intro a ds inside
    have feeds := List.IsChain.infix h.feeds inside
    exact (List.isChain_cons_cons.mp feeds).1 rfl
  refine Neat.tidyWhitespace_eq ⟨fun c blank inside => ?_, fun inside => ?_, ?_, ?_⟩
  · exact absurd (isSpace_of_isTabOrBlank blank) (Bool.eq_false_iff.mp (solid inside))
  · exact absurd (solid inside) (by decide)
  · cases head : cs.head? with
    | none => rfl
    | some c => simpa [head] using h.starts
  · cases last : cs.getLast? with
    | none => rfl
    | some c => simpa [last] using h.ends

end Tidy

end Polish

/-! ### Lines -/

open Polish

/-- Behind the pass that spells updates out, a text without strings, comments and counting is changed only by counting
its indices from one, and tidied. -/
theorem runAll_of_noStrongMark {s : String} (quotes : ∀ c ∈ s.toList, c ∉ ['"', '\'']) (strong : NoStrongMark s.toList) :
    ∃ out, Shifts none s.toList out ∧
      Pass.runAll [.increments, .indices, .whitespace] s = String.ofList (tidyWhitespace out) := by
  have increments : Pass.increments.run s = s := by
    rw [Pass.run, Pass.runOn, replaceIn_idle incrementHit?_eq_none quotes strong strong,
      replaceIn_idle decrementHit?_eq_none quotes strong strong, String.ofList_toList]
  have indices := shifts_replaceHits s.toList none
  rw [← markFrom_bare quotes strong none] at indices
  refine ⟨_, indices, ?_⟩
  rw [Pass.runAll, List.foldl_cons, increments]
  simp only [List.foldl_cons, List.foldl_nil, Pass.run, Pass.runOn, String.toList_ofList]
  rfl

theorem polish_of_smooth {s : String} (h : Smooth s) :
    ∃ out, Shifts none s.toList out ∧ polish s = String.ofList (tidyWhitespace out) := by
  have strong := noStrongMark_of_noDoubleMark h.pairs
  have compound : Pass.compound.run s = s := by
    rw [Pass.run, Pass.runOn, replaceIn_idle compoundHit?_eq_none h.quotes strong h.pairs, String.ofList_toList]
  obtain ⟨out, shifts, rest⟩ := runAll_of_noStrongMark h.quotes strong
  refine ⟨out, shifts, ?_⟩
  rw [polish, Pass.runAll, Pass.all, List.foldl_cons, compound]
  exact rest

/-- A line of smooth text without white space at its ends. -/
structure IsLine (s : String) : Prop where
  smooth : Smooth s
  line : '\n' ∉ s.toList
  starts : startsSolid s = true
  ends : endsSolid s = true

namespace IsLine

variable {s : String}

theorem tidy_of_shifts (h : IsLine s) {out : List Char} (shifts : Shifts none s.toList out) : Tidy out :=
  .of_shifts h.line h.starts h.ends shifts

/-- Polishing a line counts its indices from one and does nothing else. -/
theorem shifts_polish (h : IsLine s) : Shifts none s.toList (polish s).toList := by
  obtain ⟨out, shifts, polished⟩ := polish_of_smooth h.smooth
  rw [polished, (h.tidy_of_shifts shifts).tidyWhitespace_eq, String.toList_ofList]
  exact shifts

end IsLine

/-- Lines are polished one by one. -/
theorem polish_lines {first : String} {others : List String} (lines : ∀ s ∈ first :: others, IsLine s) :
    polish (String.intercalate "\n" (first :: others)) = String.intercalate "\n" ((first :: others).map polish) := by
  have together : Smooth (String.intercalate "\n" (first :: others)) ∧
      Shifts none (String.intercalate "\n" (first :: others)).toList
        (String.intercalate "\n" ((first :: others).map polish)).toList ∧
      Tidy (String.intercalate "\n" ((first :: others).map polish)).toList := by
    induction others generalizing first with
    | nil =>
      have line := lines first (by simp)
      simpa using ⟨line.smooth, line.shifts_polish, line.tidy_of_shifts line.shifts_polish⟩
    | cons second others ih =>
      have line := lines first (by simp)
      obtain ⟨smooth, shifts, tidy⟩ := @ih second fun s hs => lines s (List.mem_cons_of_mem first hs)
      have split : ∀ a b : String, (a ++ "\n" ++ b).toList = a.toList ++ '\n' :: b.toList := by simp
      rw [List.map_cons, List.map_cons, String.intercalate_cons_cons, String.intercalate_cons_cons, split, split]
      exact ⟨(line.smooth.append (by decide)).append smooth, line.shifts_polish.space (by decide) shifts,
        (line.tidy_of_shifts line.shifts_polish).newline tidy⟩
  obtain ⟨smooth, shifts, tidy⟩ := together
  obtain ⟨out, shifts', polished⟩ := polish_of_smooth smooth
  rw [polished, shifts'.eq shifts, tidy.tidyWhitespace_eq, String.ofList_toList]

end NoteScript

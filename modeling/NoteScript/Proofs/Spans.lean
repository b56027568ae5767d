import Mathlib.Data.List.Infix
import NoteScript.Proofs.Polishing

/-!
# Strings and comments of a text

A finished text is laid out as its strings and comments, in order, and what stands around them. They are found from left to
right: a string or a comment starts at the first place where one can start, and the next one is looked for behind it.

* `Span`: the strings and comments that a text starts with, form by form; `spanAt_iff`: the marker finds these.
* `Layout`, `Cuts`: the layout of a text, `cuts_layout`: there is one, `Cuts.eq`: and no other.
* `mark_eq`: the marked characters are those of the strings and comments.
* `Bordered`: what stands on both sides of a border between marked and other characters.
-/

namespace NoteScript.Polish

open Text

variable {c : Char} {cs : List Char} {n : Nat} {before : Option Char}

/-! ### Strings -/

/-- What may stand between double quotes: a backslash takes the next character with it, and neither a quote nor a line feed
stands without one. -/
inductive QuotedBody : List Char → Prop where
  | nil : QuotedBody []
  | escape (c : Char) {body : List Char} : QuotedBody body → QuotedBody ('\\' :: c :: body)
  | char {c : Char} {body : List Char} : c ∉ ['\\', '"', '\n'] → QuotedBody body → QuotedBody (c :: body)

theorem stringSpan_cons (plain : c ∉ ['\\', '"', '\n']) (rest : List Char) :
    stringSpan (c :: rest) = (stringSpan rest).map (1 + ·) := by
  simp only [List.mem_cons, List.not_mem_nil, or_false, not_or] at plain
  rw [stringSpan.eq_3 _ _ fun _ _ same => absurd same plain.1]
  simp [plain]

theorem stringSpan_eq_some_iff :
    stringSpan cs = some n ↔ ∃ body rest, QuotedBody body ∧ cs = body ++ '"' :: rest ∧ n = body.length + 1 := by
  constructor
  · intro found
    fun_induction stringSpan cs generalizing n with
    | case1 | case4 => cases found
    | case2 c rest ih =>
      obtain ⟨k, inner, rfl⟩ := Option.map_eq_some_iff.mp found
      obtain ⟨body, rest, inside, rfl, rfl⟩ := ih inner
      exact ⟨_, rest, .escape c inside, rfl, by simp only [List.length_cons]; omega⟩
    | case3 c rest _ quote =>
      obtain rfl : c = '"' := beq_iff_eq.mp quote
      exact ⟨[], rest, .nil, rfl, (Option.some.inj found).symm⟩
    | case5 c rest _ quote other ih =>
      obtain ⟨k, inner, rfl⟩ := Option.map_eq_some_iff.mp found
      obtain ⟨body, rest, inside, rfl, rfl⟩ := ih inner
      refine ⟨_, rest, .char ?_ inside, rfl, by simp only [List.length_cons]; omega⟩
      simp only [Bool.or_eq_true, beq_iff_eq, not_or] at other quote
      simp [other, quote]
  · rintro ⟨body, rest, inside, rfl, rfl⟩
    induction inside with
    | nil => rfl
    | escape c _ ih =>
      rw [List.cons_append, List.cons_append, stringSpan, ih, Option.map_some, List.length_cons, List.length_cons]
      congr 1
      omega
    | char plain _ ih =>
      rw [List.cons_append, stringSpan_cons plain, ih, Option.map_some, List.length_cons]
      congr 1
      omega

/-! ### Block comments -/

/-- The mark that closes a block comment stands somewhere in a text. -/
def HoldsClosing (cs : List Char) : Prop := [']', ']'] <:+: cs

instance (cs : List Char) : Decidable (HoldsClosing cs) := inferInstanceAs (Decidable ([']', ']'] <:+: cs))

theorem holdsClosing_cons : HoldsClosing (c :: cs) ↔ (∃ rest, c = ']' ∧ cs = ']' :: rest) ∨ HoldsClosing cs := by
  rw [HoldsClosing, List.infix_cons_iff, HoldsClosing]
  refine or_congr_left ⟨?_, ?_⟩
  · rintro ⟨rest, shape⟩
    obtain ⟨same, shape⟩ := List.cons.inj shape
    exact ⟨rest, same.symm, shape.symm⟩
  · rintro ⟨rest, rfl, rfl⟩
    exact ⟨rest, rfl⟩

theorem blockSpan_cons (other : ¬ ∃ rest, c = ']' ∧ cs = ']' :: rest) : blockSpan (c :: cs) = (blockSpan cs).map (1 + ·) :=
  blockSpan.eq_3 c cs fun rest first second => other ⟨rest, first, second⟩

theorem blockSpan_eq_none_iff : blockSpan cs = none ↔ ¬ HoldsClosing cs := by
  fun_induction blockSpan cs with
  | case1 => exact iff_of_true rfl (by decide)
  | case2 rest => exact iff_of_false (by simp) (not_not.mpr ⟨[], rest, rfl⟩)
  | case3 c rest other ih =>
    have apart : ¬ ∃ rest', c = ']' ∧ rest = ']' :: rest' := by
      rintro ⟨rest', first, second⟩
      exact other rest' first second
    rw [Option.map_eq_none_iff, ih, holdsClosing_cons, or_iff_right apart]

/-- The mark that closes a block comment is the nearest one. -/
theorem blockSpan_eq_some_iff : blockSpan cs = some n ↔
      ∃ body rest, ¬ HoldsClosing (body ++ [']']) ∧ cs = body ++ ']' :: ']' :: rest ∧ n = body.length + 2 := by
  constructor
  · intro found
    fun_induction blockSpan cs generalizing n with
    | case1 => cases found
    | case2 rest => exact ⟨[], rest, by decide, rfl, (Option.some.inj found).symm⟩
    | case3 c rest other ih =>
      obtain ⟨k, inner, rfl⟩ := Option.map_eq_some_iff.mp found
      obtain ⟨body, rest, first, rfl, rfl⟩ := ih inner
      refine ⟨c :: body, rest, ?_, rfl, by simp only [List.length_cons]; omega⟩
      rw [List.cons_append, holdsClosing_cons, not_or]
      refine ⟨?_, first⟩
      rintro ⟨tail, rfl, shape⟩
      cases body with
      | nil => exact other _ rfl rfl
      | cons d body => exact other _ rfl (congrArg (· :: (body ++ ']' :: ']' :: rest)) (List.cons.inj shape).1)
  · rintro ⟨body, rest, first, rfl, rfl⟩
    induction body with
    | nil => rfl
    | cons c body ih =>
      rw [List.cons_append, holdsClosing_cons, not_or] at first
      rw [List.cons_append, blockSpan_cons, ih first.2, Option.map_some, List.length_cons]
      · congr 1
        omega
      · rintro ⟨tail, rfl, shape⟩
        refine first.1 ?_
        cases body with
        | nil => exact ⟨[], rfl, rfl⟩
        | cons d body => exact ⟨_, rfl, congrArg (· :: (body ++ [']'])) (List.cons.inj shape).1⟩

/-! ### Where one starts -/

/-- A string or a comment at the start of a text, with the rest behind it. `before` is the character in front: two minus
signs behind a word or a closing bracket start a comment only if it is a block comment. -/
inductive Span (before : Option Char) : List Char → List Char → Prop where
  | string {body rest : List Char} (inside : QuotedBody body) : Span before ('"' :: (body ++ ['"'])) rest
  | block {body rest : List Char} (nearest : ¬ HoldsClosing (body ++ [']'])) :
      Span before ('-' :: '-' :: '[' :: '[' :: (body ++ [']', ']'])) rest
  | line {body rest : List Char} (free : before.any endsTarget = false)
      (unclosed : ∀ inside, body ++ rest = '[' :: '[' :: inside → ¬ HoldsClosing inside) (within : '\n' ∉ body)
      (ends : rest.head?.all (· == '\n') = true) : Span before ('-' :: '-' :: body) rest

/-- The characters that a string or a comment can start with. -/
def spanStarts : List Char := ['"', '-']

theorem takeWhile_line {body rest : List Char} (within : '\n' ∉ body) (ends : rest.head?.all (· == '\n') = true) :
    (body ++ rest).takeWhile (· != '\n') = body := by
  have inside : ∀ c ∈ body, (c != '\n') = true := fun c hc => bne_iff_ne.mpr fun same => within (same ▸ hc)
  rw [List.takeWhile_append_of_pos inside]
  cases rest with
  | nil => exact List.append_nil body
  | cons c rest =>
    have feed : c = '\n' := by simpa using ends
    rw [List.takeWhile_cons_of_neg (by simp [feed]), List.append_nil]

theorem spanAt_string (before : Option Char) (cs : List Char) :
    spanAt before ('"' :: cs) = ((stringSpan cs).map (1 + ·)).getD 0 := rfl

theorem spanAt_block : spanAt before ('-' :: '-' :: '[' :: '[' :: cs) =
      ((blockSpan cs).map (4 + ·)).getD (lineSpan before ('[' :: '[' :: cs)) := rfl

theorem spanAt_line (unclosed : ∀ inside, cs = '[' :: '[' :: inside → ¬ HoldsClosing inside) :
    spanAt before ('-' :: '-' :: cs) = lineSpan before cs := by
  by_cases brackets : ∃ inside, cs = '[' :: '[' :: inside
  · obtain ⟨inside, rfl⟩ := brackets
    rw [spanAt_block, blockSpan_eq_none_iff.mpr (unclosed inside rfl)]
    rfl
  · exact spanAt.eq_3 before cs fun inside shape => brackets ⟨inside, shape⟩

/-- A block comment that is closed starts at any place. -/
theorem spanAt_block_ne_zero (closing : HoldsClosing cs) (before : Option Char) :
    spanAt before ('-' :: '-' :: '[' :: '[' :: cs) ≠ 0 := by
  rw [spanAt_block]
  cases found : blockSpan cs with
  | none => exact absurd closing (blockSpan_eq_none_iff.mp found)
  | some n => simp

/-- Two minus signs start a comment unless they follow a word or a closing bracket. -/
theorem spanAt_minus_ne_zero (free : before.any endsTarget = false) (cs : List Char) : spanAt before ('-' :: '-' :: cs) ≠ 0 := by
  by_cases closed : ∃ inside, cs = '[' :: '[' :: inside ∧ HoldsClosing inside
  · obtain ⟨inside, rfl, closing⟩ := closed
    exact spanAt_block_ne_zero closing before
  · rw [spanAt_line fun inside shape closing => closed ⟨inside, shape, closing⟩, lineSpan, if_neg (by simp [free])]
    omega

theorem spanAt_eq_zero (other : c ∉ spanStarts) (cs : List Char) : spanAt before (c :: cs) = 0 := by
  simp only [spanStarts, List.mem_cons, List.not_mem_nil, or_false, not_or] at other
  unfold spanAt
  split
  · rename_i shape
    exact absurd (List.cons.inj shape).1 other.1
  · rename_i shape
    exact absurd (List.cons.inj shape).1 other.2
  · rename_i shape
    exact absurd (List.cons.inj shape).1 other.2
  · rfl

namespace Span

variable {before : Option Char} {s rest : List Char}

theorem spanAt_eq (h : Span before s rest) : spanAt before (s ++ rest) = s.length := by
  cases h with
  | @string body _ inside =>
    have found : stringSpan (body ++ '"' :: rest) = some (body.length + 1) :=
      stringSpan_eq_some_iff.mpr ⟨body, rest, inside, rfl, rfl⟩
    have shape : '"' :: (body ++ ['"']) ++ rest = '"' :: (body ++ '"' :: rest) := by simp
    rw [shape, spanAt_string, found]
    simp
    omega
  | @block body _ nearest =>
    have found : blockSpan (body ++ ']' :: ']' :: rest) = some (body.length + 2) :=
      blockSpan_eq_some_iff.mpr ⟨body, rest, nearest, rfl, rfl⟩
    have shape : '-' :: '-' :: '[' :: '[' :: (body ++ [']', ']']) ++ rest =
        '-' :: '-' :: '[' :: '[' :: (body ++ ']' :: ']' :: rest) := by simp
    rw [shape, spanAt_block, found]
    simp
    omega
  | @line body _ free unclosed within ends =>
    rw [List.cons_append, List.cons_append, spanAt_line unclosed, lineSpan, if_neg (by simp [free]), takeWhile_line within ends]
    simp
    omega

theorem exists_head (h : Span before s rest) : ∃ c cs, s = c :: cs ∧ c ∈ spanStarts := by
  cases h with
  | string | block | line => exact ⟨_, _, rfl, by decide⟩

theorem ne_nil (h : Span before s rest) : s ≠ [] := by
  obtain ⟨c, cs, rfl, -⟩ := h.exists_head
  exact List.cons_ne_nil c cs

theorem unique (h : Span before s rest) {s' rest' : List Char} (h' : Span before s' rest') (split : s ++ rest = s' ++ rest') :
    s = s' ∧ rest = rest' := by
  refine List.append_inj split ?_
  rw [← h.spanAt_eq, ← h'.spanAt_eq, split]

/-- What a string or a comment ends with, or what it ends at. -/
theorem ends (h : Span before s rest) : (∃ c ∈ ['"', ']'], s.getLast? = some c) ∨ rest.head?.all (· == '\n') = true := by
  cases h with
  | string => exact .inl ⟨'"', by decide, by rw [← List.cons_append, List.getLast?_concat]⟩
  | @block body =>
    refine .inl ⟨']', by decide, ?_⟩
    have shape : '-' :: '-' :: '[' :: '[' :: (body ++ [']', ']']) = ('-' :: '-' :: '[' :: '[' :: body ++ [']']) ++ [']'] := by
      simp
    rw [shape, List.getLast?_concat]
  | line _ _ _ ends => exact .inr ends

end Span

theorem exists_line
    (unclosed : ∀ inside, cs = '[' :: '[' :: inside → ¬ HoldsClosing inside) (found : lineSpan before cs = n + 1) :
    ∃ s rest, '-' :: '-' :: cs = s ++ rest ∧ s.length = n + 1 ∧ Span before s rest := by
  have split : cs.takeWhile (· != '\n') ++ cs.dropWhile (· != '\n') = cs := List.takeWhile_append_dropWhile
  rw [lineSpan] at found
  split at found
  · cases found
  · rename_i free
    refine ⟨'-' :: '-' :: cs.takeWhile (· != '\n'), cs.dropWhile (· != '\n'), ?_, ?_, .line ?_ ?_ ?_ ?_⟩
    · rw [List.cons_append, List.cons_append, split]
    · rw [List.length_cons, List.length_cons]
      omega
    · exact Bool.eq_false_iff.mpr free
    · rwa [split]
    · intro feed
      have other := List.mem_takeWhile_imp feed
      cases other
    · have first := List.head?_dropWhile_not (· != '\n') cs
      cases head : (cs.dropWhile (· != '\n')).head? with
      | none => rfl
      | some c => simpa [head] using first

/-- The marker finds a string or a comment where there is one. -/
theorem spanAt_iff : spanAt before cs = n + 1 ↔ ∃ s rest, cs = s ++ rest ∧ s.length = n + 1 ∧ Span before s rest := by
  constructor
  · intro found
    fun_cases spanAt before cs with
    | case1 rest =>
      rw [spanAt_string] at found
      cases string : stringSpan rest with
      | none => simp [string] at found
      | some k =>
        obtain ⟨body, rest, inside, rfl, rfl⟩ := stringSpan_eq_some_iff.mp string
        refine ⟨'"' :: (body ++ ['"']), rest, by simp, ?_, .string inside⟩
        simp [string] at found ⊢
        omega
    | case2 rest =>
      cases block : blockSpan rest with
      | none =>
        have unclosed : ∀ inside, '[' :: '[' :: rest = '[' :: '[' :: inside → ¬ HoldsClosing inside := by
          rintro inside ⟨⟩
          exact blockSpan_eq_none_iff.mp block
        rw [spanAt_line unclosed] at found
        exact exists_line unclosed found
      | some k =>
        rw [spanAt_block] at found
        obtain ⟨body, rest, nearest, rfl, rfl⟩ := blockSpan_eq_some_iff.mp block
        refine ⟨_, rest, ?_, ?_, .block nearest⟩
        · simp
        · simp [block] at found ⊢
          omega
    | case3 rest other =>
      have unclosed : ∀ inside, rest = '[' :: '[' :: inside → ¬ HoldsClosing inside := fun inside shape => absurd shape (other inside)
      rw [spanAt_line unclosed] at found
      exact exists_line unclosed found
    | case4 =>
      rw [spanAt.eq_4] at found
      · cases found
      all_goals assumption
  · rintro ⟨s, rest, rfl, size, span⟩
    rw [span.spanAt_eq, size]

/-! ### Layouts -/

/-- A text laid out: what stands in front of the first string or comment, and each of these with what stands behind it. -/
structure Layout where
  head : List Char
  tail : List (List Char × List Char)
deriving DecidableEq

/-- The characters of a string or a comment, marked. -/
def guarded (cs : List Char) : List Glyph := cs.map fun c => ⟨c, true⟩

theorem unmark_guarded (cs : List Char) : unmark (guarded cs) = cs := by
  simp [unmark, guarded, Function.comp_def]

namespace Layout

/-- The strings and comments. -/
def spans (l : Layout) : List (List Char) := l.tail.map (·.1)

def text (l : Layout) : List Char := l.head ++ l.tail.flatMap fun part => part.1 ++ part.2

/-- The text with the strings and comments marked. -/
def glyphs (l : Layout) : List Glyph := bare l.head ++ l.tail.flatMap fun part => guarded part.1 ++ bare part.2

/-- Other characters in front. -/
def push (cs : List Char) (l : Layout) : Layout := ⟨cs ++ l.head, l.tail⟩

/-- A string or a comment in front. -/
def add (s : List Char) (l : Layout) : Layout := ⟨[], (s, l.head) :: l.tail⟩

variable (cs : List Char) (l : Layout)

@[simp] theorem spans_push : (l.push cs).spans = l.spans := rfl

@[simp] theorem spans_add : (l.add cs).spans = cs :: l.spans := rfl

@[simp] theorem text_push : (l.push cs).text = cs ++ l.text := by simp [push, text]

@[simp] theorem text_add : (l.add cs).text = cs ++ l.text := by simp [add, text]

@[simp] theorem glyphs_push : (l.push cs).glyphs = bare cs ++ l.glyphs := by simp [push, glyphs, bare]

@[simp] theorem glyphs_add : (l.add cs).glyphs = guarded cs ++ l.glyphs := by simp [add, glyphs, bare]

theorem unmark_glyphs : unmark l.glyphs = l.text := by
  have append : ∀ gs gs', unmark (gs ++ gs') = unmark gs ++ unmark gs' := fun _ _ => List.map_append
  have flatMap : ∀ parts : List (List Char × List Char),
      unmark (parts.flatMap fun part => guarded part.1 ++ bare part.2) = parts.flatMap fun part => part.1 ++ part.2 := by
    intro parts
    induction parts with
    | nil => rfl
    | cons part parts ih => simp only [List.flatMap_cons, append, unmark_guarded, unmark_bare, ih]
  rw [glyphs, append, unmark_bare, flatMap, text]

/-- A string or a comment of a layout stands in its text. -/
theorem infix_text {s : List Char} (mem : s ∈ l.spans) : s <:+: l.text := by
  obtain ⟨part, inside, rfl⟩ := List.mem_map.mp mem
  obtain ⟨before, behind, split⟩ := List.append_of_mem inside
  rw [text, split]
  exact ⟨l.head ++ before.flatMap fun part => part.1 ++ part.2, part.2 ++ behind.flatMap fun part => part.1 ++ part.2, by simp⟩

theorem push_push (cs' : List Char) : (l.push cs').push cs = l.push (cs ++ cs') := by simp [push]

theorem mk_cons (head : List Char) (part : List Char × List Char) (tail : List (List Char × List Char)) :
    Layout.mk head (part :: tail) = (Layout.add part.1 ⟨part.2, tail⟩).push head := by
  simp [push, add]

theorem push_inj {l l' : Layout} {c c' : Char} (same : l.push [c] = l'.push [c']) : l = l' := by
  obtain ⟨heads, tails⟩ := Layout.mk.inj same
  cases l
  cases l'
  exact congrArg₂ Layout.mk (List.cons.inj heads).2 tails

theorem add_inj {s s' : List Char} {l l' : Layout} (same : l.add s = l'.add s') : s = s' ∧ l = l' := by
  obtain ⟨first, tails⟩ := List.cons.inj (Layout.mk.inj same).2
  obtain ⟨spans, heads⟩ := Prod.mk.inj first
  cases l
  cases l'
  exact ⟨spans, congrArg₂ Layout.mk heads tails⟩

end Layout

/-- The layout of a text, found from left to right. -/
inductive Cuts : Option Char → List Char → Layout → Prop where
  | nil {before : Option Char} : Cuts before [] ⟨[], []⟩
  | char {before : Option Char} {c : Char} {rest : List Char} {l : Layout}
      (free : ∀ s rest', c :: rest = s ++ rest' → ¬ Span before s rest') (further : Cuts (some c) rest l) :
      Cuts before (c :: rest) (l.push [c])
  | span {before : Option Char} {cs s rest : List Char} {l : Layout} (split : cs = s ++ rest) (found : Span before s rest)
      (further : Cuts s.getLast? rest l) : Cuts before cs (l.add s)

/-- The layout of a text behind a character. -/
def layoutFrom (before : Option Char) (cs : List Char) : Layout := match cs with
  | [] => ⟨[], []⟩
  | c :: rest =>
    match spanAt before (c :: rest) with
    | 0 => (layoutFrom (some c) rest).push [c]
    | k + 1 => (layoutFrom (c :: rest.take k).getLast? (rest.drop k)).add (c :: rest.take k)
termination_by cs.length
decreasing_by
  · exact Nat.lt_succ_self _
  · rw [List.length_drop, List.length_cons]
    omega

/-- The layout of a text. -/
def layout (code : List Char) : Layout := layoutFrom none code

theorem spanAt_eq_zero_iff : spanAt before cs = 0 ↔ ∀ s rest, cs = s ++ rest → ¬ Span before s rest := by
  constructor
  · rintro nothing s rest rfl span
    rw [span.spanAt_eq, List.length_eq_zero_iff] at nothing
    exact span.ne_nil nothing
  · intro free
    cases found : spanAt before cs with
    | zero => rfl
    | succ n =>
      obtain ⟨s, rest, split, -, span⟩ := spanAt_iff.mp found
      exact absurd span (free s rest split)

theorem cuts_layoutFrom (before : Option Char) (cs : List Char) : Cuts before cs (layoutFrom before cs) := by
  fun_induction layoutFrom before cs with
  | case1 => exact .nil
  | case2 before c rest nothing ih => exact .char (spanAt_eq_zero_iff.mp nothing) ih
  | case3 before c rest k found ih =>
    obtain ⟨s, rest', split, size, span⟩ := spanAt_iff.mp found
    have parts : c :: rest.take k = s ∧ rest.drop k = rest' := by
      have whole : (c :: rest.take k) ++ rest.drop k = s ++ rest' := by
        rw [List.cons_append, List.take_append_drop, split]
      refine List.append_inj whole ?_
      have sizes := congrArg List.length split
      simp only [List.length_cons, List.length_append, List.length_take] at sizes ⊢
      omega
    rw [parts.1, parts.2] at ih ⊢
    exact .span split span ih

theorem cuts_layout (code : List Char) : Cuts none code (layout code) := cuts_layoutFrom none code

/-- The characters from a place within a string or a comment on. -/
theorem markFrom_guarded (before : Option Char) (cs rest : List Char) :
    markFrom before cs.length (cs ++ rest) = guarded cs ++ markFrom (cs.getLast?.or before) 0 rest := by
  induction cs generalizing before with
  | nil => cases rest <;> rfl
  | cons c cs ih =>
    rw [getLast?_cons_or]
    exact congrArg (⟨c, true⟩ :: ·) (ih (some c))

namespace Cuts

variable {before : Option Char} {cs : List Char} {l : Layout}
variable {c : Char} {rest : List Char}

theorem text_eq (h : Cuts before cs l) : l.text = cs := by
  induction h with
  | nil => rfl
  | char _ _ ih => rw [Layout.text_push, ih, List.singleton_append]
  | span split _ _ ih => rw [Layout.text_add, ih, split]

/-- A text has one layout. -/
theorem eq (h : Cuts before cs l) {l' : Layout} (h' : Cuts before cs l') : l = l' := by
  induction h generalizing l' with
  | nil =>
    cases h' with
    | nil => rfl
    | span split found => exact absurd (List.append_eq_nil_iff.mp split.symm).1 found.ne_nil
  | char free _ ih =>
    cases h' with
    | char _ further => rw [ih further]
    | span split found => exact absurd found (free _ _ split)
  | span split found _ ih =>
    cases h' with
    | nil => exact absurd (List.append_eq_nil_iff.mp split.symm).1 found.ne_nil
    | char free => exact absurd found (free _ _ split)
    | span split' found' further =>
      obtain ⟨rfl, rfl⟩ := found.unique found' (split.symm.trans split')
      rw [ih further]

theorem markFrom_eq (h : Cuts before cs l) : markFrom before 0 cs = l.glyphs := by
  induction h with
  | nil => rfl
  | char free _ ih =>
    simp only [markFrom, spanAt_eq_zero_iff.mpr free, ih, Layout.glyphs_push]
    rfl
  | @span before _ s rest l split found _ ih =>
    obtain ⟨c, cs, rfl, -⟩ := found.exists_head
    have size := found.spanAt_eq
    rw [List.length_cons] at size
    rw [split, Layout.glyphs_add, ← ih, ← Option.or_none (o := (c :: cs).getLast?), getLast?_cons_or]
    rw [List.cons_append] at size ⊢
    simp only [markFrom, size, markFrom_guarded]
    rfl

theorem exists_head (h : Cuts before cs l) : ∀ s ∈ l.spans, ∃ c rest, s = c :: rest ∧ c ∈ spanStarts := by
  induction h with
  | nil => exact List.forall_mem_nil _
  | char _ _ ih => exact ih
  | span _ found _ ih => exact List.forall_mem_cons.mpr ⟨found.exists_head, ih⟩

theorem push_iff : Cuts before (c :: rest) (l.push [c]) ↔
    (∀ s rest', c :: rest = s ++ rest' → ¬ Span before s rest') ∧ Cuts (some c) rest l := by
  constructor
  · intro h
    generalize laid : l.push [c] = l' at h
    cases h with
    | char free further =>
      obtain rfl := Layout.push_inj laid
      exact ⟨free, further⟩
    | span => cases congrArg Layout.head laid
  · rintro ⟨free, further⟩
    exact .char free further

theorem add_iff {s : List Char} (nonempty : s ≠ []) : Cuts before (s ++ rest) (l.add s) ↔
    Span before s rest ∧ Cuts s.getLast? rest l := by
  constructor
  · intro h
    generalize laid : l.add s = l' at h
    generalize whole : s ++ rest = cs at h
    cases h with
    | nil => exact absurd (List.append_eq_nil_iff.mp whole).1 nonempty
    | char => cases congrArg Layout.head laid
    | span split found further =>
      obtain ⟨rfl, rfl⟩ := Layout.add_inj laid
      obtain rfl := List.append_cancel_left (whole.trans split)
      exact ⟨found, further⟩
  · rintro ⟨found, further⟩
    exact .span rfl found further

/-- No string or comment starts with another character. -/
theorem push_iff_of_notMem (other : c ∉ spanStarts) : Cuts before (c :: rest) (l.push [c]) ↔ Cuts (some c) rest l :=
  push_iff.trans (and_iff_right (spanAt_eq_zero_iff.mp (spanAt_eq_zero other rest)))

theorem append_iff {front : List Char} (others : ∀ c ∈ front, c ∉ spanStarts) :
    Cuts before (front ++ rest) (l.push front) ↔ Cuts (front.getLast?.or before) rest l := by
  induction front generalizing before with
  | nil => exact Iff.rfl
  | cons c front ih =>
    obtain ⟨first, later⟩ := List.forall_mem_cons.mp others
    have split : l.push (c :: front) = (l.push front).push [c] := (Layout.push_push [c] l front).symm
    rw [split, List.cons_append, push_iff_of_notMem first, ih later, getLast?_cons_or]

theorem exists_push (other : c ∉ spanStarts) (h : Cuts before (c :: rest) l) : ∃ l', l = l'.push [c] ∧ Cuts (some c) rest l' := by
  have further := cuts_layoutFrom (some c) rest
  exact ⟨_, h.eq ((push_iff_of_notMem other).mpr further), further⟩

end Cuts

/-- The marked characters of a text are those of its strings and comments. -/
theorem mark_eq (code : List Char) : mark code = (layout code).glyphs := (cuts_layout code).markFrom_eq

/-! ### Borders -/

/-- Marked characters start as a string or a comment does. -/
def Opens (glyphs : List Glyph) : Prop :=
  glyphs.head?.any (·.guarded) = true → ['"'] <+: unmark glyphs ∨ ['-', '-'] <+: unmark glyphs

/-- Marked characters with others on either side start as a string or a comment does, and end as one does. -/
def Bordered : List Glyph → Prop
  | [] => True
  | g :: rest =>
    (g.guarded = false → Opens rest) ∧
      (g.guarded = true → rest.head?.any (!·.guarded) = true → g.char ∈ ['"', ']'] ∨ (unmark rest).head? = some '\n') ∧
      Bordered rest

theorem Bordered.suffix {front rest : List Glyph} (h : Bordered (front ++ rest)) : Bordered rest := by
  induction front with
  | nil => exact h
  | cons g front ih => exact ih h.2.2

/-- A string or a comment in front of a bordered text. -/
theorem Bordered.guarded {s : List Char} {rest : List Glyph} (h : Bordered rest)
    (ends : (∃ c ∈ ['"', ']'], s.getLast? = some c) ∨ (unmark rest).head?.all (· == '\n') = true) :
    Bordered (Polish.guarded s ++ rest) := by
  induction s with
  | nil => exact h
  | cons c s ih =>
    have unmarked : (Glyph.mk c true).guarded = false → Opens (Polish.guarded s ++ rest) := fun free => Bool.noConfusion free
    cases s with
    | nil =>
      refine ⟨unmarked, fun _ free => ?_, h⟩
      rcases ends with ⟨d, among, last⟩ | feed
      · obtain rfl : c = d := Option.some.inj last
        exact .inl among
      · cases rest with
        | nil => cases free
        | cons g rest => exact .inr (congrArg some (beq_iff_eq.mp feed))
    | cons d s => exact ⟨unmarked, fun _ free => Bool.noConfusion free, ih (by simpa using ends)⟩

theorem Cuts.bordered {l : Layout} (h : Cuts before cs l) : Opens l.glyphs ∧ Bordered l.glyphs := by
  induction h with
  | nil => exact ⟨fun marked => Bool.noConfusion marked, trivial⟩
  | char _ _ ih =>
    rw [Layout.glyphs_push]
    exact ⟨fun marked => Bool.noConfusion marked, fun _ => ih.1, fun marked => Bool.noConfusion marked, ih.2⟩
  | @span _ _ s rest l split found further ih =>
    rw [Layout.glyphs_add]
    refine ⟨fun _ => ?_, ih.2.guarded ?_⟩
    · rw [unmark, List.map_append]
      cases found with
      | string => exact .inl ⟨_, rfl⟩
      | block | line => exact .inr ⟨_, rfl⟩
    · rw [Layout.unmark_glyphs, further.text_eq]
      exact found.ends

end NoteScript.Polish

import NoteScript.Proofs.Frame

/-!
# Counting up and down

Increments and decrements are spelled out one after the other, and the text that the decrements are looked for in is marked
anew. An increment takes the blank behind it along, so that a line comment behind it comes to follow a word: it is then no
comment any more.

* `Counts`: a layout with the increments outside its strings and comments spelled out, `counted`: the pass does this.
* `Span.iff_of_spelled`: what is a string or a comment stays one, but for a line comment that comes to follow a word.
* `Layout.Apart`, `Counts.cuts_iff`: when the new text has the strings and comments of the old one.
* `increments_keep_spans`: what the two passes do to strings and comments.
-/

namespace NoteScript

open Text

namespace Polish

variable {target cs s past : List Char} {l l' : Layout} {c : Char} {before : Option Char}

/-! ### Counting up -/

/-- The target of an update with one more character read. -/
def readTarget (target : List Char) (c : Char) : List Char := if isPathChar c then target ++ [c] else []

/-- What is written behind a target that is counted up. -/
def countedUp (target : List Char) : List Char := [' ', '=', ' '] ++ target ++ [' ', '+', ' ', '1']

/-- A layout with the targets outside strings and comments counted up, where `target` has been read in front of it. A blank
behind the two plus signs goes with them. -/
inductive Counts : List Char → Layout → Layout → Prop where
  | nil {target : List Char} : Counts target ⟨[], []⟩ ⟨[], []⟩
  | update {target blank : List Char} {l l' : Layout} (named : target ≠ [])
      (nearest : blank = [' '] ∨ blank = [] ∧ l.text.head? ≠ some ' ') (further : Counts [] l l') :
      Counts target (l.push ('+' :: '+' :: blank)) (l'.push (countedUp target))
  | char {target : List Char} {c : Char} {l l' : Layout} (other : target = [] ∨ c ≠ '+' ∨ l.text.head? ≠ some '+')
      (further : Counts (readTarget target c) l l') : Counts target (l.push [c]) (l'.push [c])
  | span {target : List Char} (s : List Char) {l l' : Layout} (further : Counts (s.foldl readTarget target) l l') :
      Counts target (l.add s) (l'.add s)

theorem Counts.spans_eq (h : Counts target l l') : l'.spans = l.spans := by
  induction h with
  | nil => rfl
  | update _ _ _ ih | char _ _ ih => exact ih
  | span s _ ih => exact congrArg (s :: ·) ih

/-! ### What the pass finds -/

/-- It makes no difference to the pass what stands in front. -/
theorem replaceHits_increment (before : Option Char) (skip : Nat) (glyphs : List Glyph) :
    replaceHits incrementHit? before skip glyphs = replaceHits incrementHit? none skip glyphs := by
  cases glyphs with
  | nil => rfl
  | cons g glyphs => cases skip <;> rfl

theorem replaceHits_increment_hit {taken rest : List Glyph} {h : Hit} (hit : incrementHit? none (taken ++ rest) = some h)
    (size : taken.length = h.taken + 1) :
    replaceHits incrementHit? none 0 (taken ++ rest) = h.text ++ replaceHits incrementHit? none 0 rest := by
  obtain ⟨before', written⟩ := replaceHits_hit hit size
  rw [written, replaceHits_increment]

/-- Characters that belong to no target are copied. -/
theorem replaceHits_increment_other {glyphs : List Glyph} (other : ∀ g ∈ glyphs, isPathChar g.char = false) (rest : List Glyph) :
    replaceHits incrementHit? none 0 (glyphs ++ rest) = unmark glyphs ++ replaceHits incrementHit? none 0 rest := by
  induction glyphs with
  | nil => rfl
  | cons g glyphs ih =>
    obtain ⟨first, later⟩ := List.forall_mem_cons.mp other
    have nothing : incrementHit? none (g :: (glyphs ++ rest)) = none := by
      have empty : (g :: (glyphs ++ rest)).takeWhile (isPathChar ·.char) = [] := List.takeWhile_cons_of_neg (by simp [first])
      simp only [incrementHit?, empty]
      rfl
    rw [List.cons_append, replaceHits, nothing]
    dsimp only
    rw [replaceHits_increment, ih later]
    rfl

/-- The blank that goes with the signs of an update. -/
theorem exists_blank (glyphs : List Glyph) : ∃ blank rest, glyphs = blank ++ rest ∧
    (if glyphs.head?.any (·.char == ' ') then 1 else 0) = blank.length ∧ ∀ g ∈ blank, g.char = ' ' := by
  split
  · rename_i first
    obtain ⟨g, head, space⟩ := (Option.any_eq_true _ _).mp first
    obtain ⟨rest, rfl⟩ := List.head?_eq_some_iff.mp head
    exact ⟨[g], rest, rfl, rfl, by simpa using space⟩
  · exact ⟨[], glyphs, rfl, rfl, List.forall_mem_nil _⟩

theorem signs_notPath (marked marked' : Bool) {blank : List Glyph} (space : ∀ g ∈ blank, g.char = ' ') :
    ∀ g ∈ (⟨'+', marked⟩ :: ⟨'+', marked'⟩ :: blank : List Glyph), isPathChar g.char = false := by
  have sign : isPathChar '+' = false := by decide
  refine List.forall_mem_cons.mpr ⟨sign, List.forall_mem_cons.mpr ⟨sign, fun g mem => ?_⟩⟩
  rw [space g mem]
  decide

theorem unmark_append (glyphs glyphs' : List Glyph) : unmark (glyphs ++ glyphs') = unmark glyphs ++ unmark glyphs' := List.map_append

section Run

variable {run : List Glyph} (path : ∀ g ∈ run, isPathChar g.char = true)
variable {rest : List Glyph}
include path

theorem takeWhile_run (stops : ∀ g ∈ rest.head?, isPathChar g.char = false) :
    (run ++ rest).takeWhile (isPathChar ·.char) = run := by
  rw [Token.takeWhile_append_of_head? stops, List.takeWhile_eq_self_iff.mpr path]

/-- The match for a run of target characters and two plus signs. -/
theorem incrementHit?_run (nonempty : run ≠ []) (marked marked' : Bool) (rest : List Glyph) :
    incrementHit? none (run ++ ⟨'+', marked⟩ :: ⟨'+', marked'⟩ :: rest) =
      some (.guardedBy marked (run.length + 2 + if rest.head?.any (·.char == ' ') then 1 else 0)
        (run ++ ⟨'+', marked⟩ :: ⟨'+', marked'⟩ :: rest) (unmark run ++ countedUp (unmark run))) := by
  have stops : ∀ g ∈ (⟨'+', marked⟩ :: ⟨'+', marked'⟩ :: rest : List Glyph).head?, isPathChar g.char = false := by
    rintro g ⟨⟩
    exact (by decide : isPathChar '+' = false)
  have length : (unmark run).length = run.length := List.length_map _
  have nonempty' : (unmark run).isEmpty = false := by simp [unmark, nonempty]
  have text : assign (unmark run) ['+', ' ', '1'] = unmark run ++ countedUp (unmark run) := by simp [assign, countedUp]
  simp only [incrementHit?, takeWhile_run path stops, length, nonempty', List.drop_left, text]
  rfl

theorem incrementHit?_run_other (stops : ∀ g ∈ rest.head?, isPathChar g.char = false)
    (other : ∀ marked marked' behind, rest ≠ ⟨'+', marked⟩ :: ⟨'+', marked'⟩ :: behind) :
    incrementHit? none (run ++ rest) = none := by
  have length : (unmark run).length = run.length := List.length_map _
  simp only [incrementHit?, takeWhile_run path stops, length, List.drop_left]
  exact ite_self none

/-- A run, two plus signs and the blank behind them are one match. With marked signs it is written as it is. -/
theorem replaceHits_increment_signs (nonempty : run ≠ []) (marked marked' : Bool) {blank : List Glyph}
    (size : (if (blank ++ rest).head?.any (·.char == ' ') then 1 else 0) = blank.length) :
    replaceHits incrementHit? none 0 ((run ++ ⟨'+', marked⟩ :: ⟨'+', marked'⟩ :: blank) ++ rest) =
      (if marked then unmark (run ++ ⟨'+', marked⟩ :: ⟨'+', marked'⟩ :: blank) else unmark run ++ countedUp (unmark run)) ++
        replaceHits incrementHit? none 0 rest := by
  have hit := incrementHit?_run path nonempty marked marked' (blank ++ rest)
  have split : run ++ ⟨'+', marked⟩ :: ⟨'+', marked'⟩ :: (blank ++ rest) =
      (run ++ ⟨'+', marked⟩ :: ⟨'+', marked'⟩ :: blank) ++ rest := by simp
  have length : run.length + 2 + blank.length = (run ++ ⟨'+', marked⟩ :: ⟨'+', marked'⟩ :: blank).length := by
    simp only [List.length_append, List.length_cons]
    omega
  rw [size, split, length] at hit
  rw [replaceHits_increment_hit hit]
  · cases marked with
    | true => simp only [Hit.guardedBy, if_true, List.take_left]
    | false => rfl
  · exact (Nat.sub_add_cancel (by rw [← length]; omega)).symm

/-- A target outside strings and comments is counted up. -/
theorem replaceHits_increment_update (nonempty : run ≠ []) {blank : List Char}
    (nearest : blank = [' '] ∨ blank = [] ∧ (unmark rest).head? ≠ some ' ') :
    replaceHits incrementHit? none 0 (run ++ (bare ('+' :: '+' :: blank) ++ rest)) =
      unmark run ++ countedUp (unmark run) ++ replaceHits incrementHit? none 0 rest := by
  have size : (if (bare blank ++ rest).head?.any (·.char == ' ') then 1 else 0) = (bare blank).length := by
    rcases nearest with rfl | ⟨rfl, other⟩
    · rfl
    · refine if_neg fun first => other ?_
      obtain ⟨g, head, space⟩ := (Option.any_eq_true _ _).mp first
      rw [unmark, List.head?_map]
      rw [show rest.head? = some g from head, Option.map_some, beq_iff_eq.mp space]
  rw [← List.append_assoc]
  exact replaceHits_increment_signs path nonempty false false size

/-- Otherwise a run of target characters is copied: a match with marked signs writes them as they are. -/
theorem replaceHits_increment_run (stops : ∀ g ∈ rest.head?, isPathChar g.char = false)
    (marked : ∀ marked' behind, rest ≠ ⟨'+', false⟩ :: ⟨'+', marked'⟩ :: behind) :
    replaceHits incrementHit? none 0 (run ++ rest) = unmark run ++ replaceHits incrementHit? none 0 rest := by
  by_cases signs : ∃ marked marked' behind, rest = ⟨'+', marked⟩ :: ⟨'+', marked'⟩ :: behind
  · obtain ⟨marked₁, marked₂, behind, rfl⟩ := signs
    obtain rfl : marked₁ = true := by
      cases marked₁ with
      | true => rfl
      | false => exact absurd rfl (marked marked₂ behind)
    obtain ⟨blank, behind', rfl, size, space⟩ := exists_blank behind
    have copied := replaceHits_increment_other (signs_notPath true marked₂ space) behind'
    rcases List.eq_nil_or_concat run with rfl | ⟨front, last, shape⟩
    · rfl
    · have whole := replaceHits_increment_signs path (by simp [shape]) true marked₂ size
      rw [if_pos rfl, unmark_append, List.append_assoc, List.append_assoc, ← copied] at whole
      exact whole
  · induction run with
    | nil => rfl
    | cons g run ih =>
      have nothing := incrementHit?_run_other path stops fun marked marked' behind shape => signs ⟨marked, marked', behind, shape⟩
      rw [List.cons_append] at nothing ⊢
      rw [replaceHits, nothing]
      dsimp only
      rw [replaceHits_increment, ih (List.forall_mem_cons.mp path).2]
      rfl

end Run

theorem readTarget_path (path : isPathChar c = true) (target : List Char) : readTarget target c = target ++ [c] := if_pos path

theorem readTarget_other (other : isPathChar c = false) (target : List Char) : readTarget target c = [] :=
  if_neg (by simp [other])

/-- A string or a comment is copied. A target that starts at its end goes on behind it. -/
theorem replaceHits_increment_guarded {run : List Glyph} (path : ∀ g ∈ run, isPathChar g.char = true) (s : List Char)
    (rest : List Glyph) : ∃ copied run', (∀ g ∈ run', isPathChar g.char = true) ∧ unmark run' = s.foldl readTarget (unmark run) ∧
      unmark run ++ s = copied ++ unmark run' ∧
      replaceHits incrementHit? none 0 (run ++ (guarded s ++ rest)) = copied ++ replaceHits incrementHit? none 0 (run' ++ rest) := by
  induction s generalizing run with
  | nil => exact ⟨[], run, path, rfl, List.append_nil _, rfl⟩
  | cons c s ih =>
    have shape : guarded (c :: s) ++ rest = ⟨c, true⟩ :: (guarded s ++ rest) := rfl
    by_cases inside : isPathChar c = true
    · have path' : ∀ g ∈ run ++ [⟨c, true⟩], isPathChar g.char = true :=
        List.forall_mem_append.mpr ⟨path, List.forall_mem_singleton.mpr inside⟩
      obtain ⟨copied, run', paths, target, parts, written⟩ := ih path'
      have unmarked : unmark (run ++ [⟨c, true⟩]) = unmark run ++ [c] := unmark_append _ _
      rw [unmarked] at target parts
      refine ⟨copied, run', paths, ?_, ?_, ?_⟩
      · rw [List.foldl_cons, readTarget_path inside, target]
      · rw [← parts, List.append_assoc, List.singleton_append]
      · rw [shape, ← written, List.append_assoc, List.singleton_append]
    · have other : isPathChar c = false := Bool.eq_false_iff.mpr inside
      obtain ⟨copied, run', paths, target, parts, written⟩ := @ih [] (List.forall_mem_nil _)
      refine ⟨unmark run ++ c :: copied, run', paths, ?_, ?_, ?_⟩
      · rw [List.foldl_cons, readTarget_other other, target]
        rfl
      · rw [List.append_assoc, List.cons_append, ← parts]
        rfl
      · have stops : ∀ g ∈ (guarded (c :: s) ++ rest).head?, isPathChar g.char = false := by
          rintro g ⟨⟩
          exact other
        have first := @replaceHits_increment_other [⟨c, true⟩] (by simpa using other) (guarded s ++ rest)
        rw [replaceHits_increment_run path stops (by simp [shape]), shape, ← List.singleton_append, first]
        rw [List.nil_append] at written
        rw [written]
        simp [unmark]

/-- The pass counts up the targets of a layout behind a run of target characters. -/
def Counted (run : List Glyph) (l : Layout) : Prop :=
  ∃ l', Counts (unmark run) l l' ∧ replaceHits incrementHit? none 0 (run ++ l.glyphs) = unmark run ++ l'.text

namespace Counted

variable {run : List Glyph} {l : Layout} {c : Char}

theorem path (inside : isPathChar c = true) (h : Counted (run ++ [⟨c, false⟩]) l) : Counted run (l.push [c]) := by
  obtain ⟨l', counts, text⟩ := h
  have unmarked : unmark (run ++ [⟨c, false⟩]) = unmark run ++ [c] := unmark_append _ _
  rw [unmarked] at counts text
  refine ⟨l'.push [c], .char (.inr (.inl ?_)) (by rwa [readTarget_path inside]), ?_⟩
  · rintro rfl
    exact absurd inside (by decide)
  · rw [Layout.glyphs_push, Layout.text_push, ← List.append_assoc, ← List.append_assoc]
    exact text

theorem other (path : ∀ g ∈ run, isPathChar g.char = true) (outside : isPathChar c = false)
    (signs : run = [] ∨ c ≠ '+' ∨ l.text.head? ≠ some '+') (h : Counted [] l) : Counted run (l.push [c]) := by
  obtain ⟨l', counts, text⟩ := h
  have copied : replaceHits incrementHit? none 0 (run ++ (bare [c] ++ l.glyphs)) =
      unmark run ++ replaceHits incrementHit? none 0 (bare [c] ++ l.glyphs) := by
    rcases signs with rfl | signs
    · rfl
    · refine replaceHits_increment_run path ?_ fun marked behind shape => ?_
      · rintro g ⟨⟩
        exact outside
      · obtain ⟨first, second⟩ := List.cons.inj shape
        refine signs.elim (absurd (congrArg Glyph.char first)) fun differs => differs ?_
        rw [← Layout.unmark_glyphs, show l.glyphs = _ from second]
        rfl
  refine ⟨l'.push [c], .char ?_ (by rwa [readTarget_other outside]), ?_⟩
  · exact signs.imp_left fun empty => by rw [empty]; rfl
  · have single : ∀ g ∈ bare [c], isPathChar g.char = false := by simpa [bare] using outside
    rw [Layout.glyphs_push, copied, replaceHits_increment_other single, unmark_bare, Layout.text_push]
    exact congrArg (fun out => unmark run ++ ([c] ++ out)) text

theorem update (path : ∀ g ∈ run, isPathChar g.char = true) (named : run ≠ []) {blank : List Char}
    (nearest : blank = [' '] ∨ blank = [] ∧ l.text.head? ≠ some ' ') (h : Counted [] l) :
    Counted run (l.push ('+' :: '+' :: blank)) := by
  obtain ⟨l', counts, text⟩ := h
  refine ⟨_, .update (by simpa [unmark] using named) nearest counts, ?_⟩
  rw [← Layout.unmark_glyphs] at nearest
  rw [Layout.glyphs_push, replaceHits_increment_update path named nearest, Layout.text_push, List.append_assoc]
  exact congrArg (fun out => unmark run ++ (countedUp (unmark run) ++ out)) text

theorem span (path : ∀ g ∈ run, isPathChar g.char = true) (s : List Char)
    (h : ∀ run : List Glyph, (∀ g ∈ run, isPathChar g.char = true) → Counted run l) : Counted run (l.add s) := by
  obtain ⟨copied, run', paths, target, parts, written⟩ := replaceHits_increment_guarded path s l.glyphs
  obtain ⟨l', counts, text⟩ := h run' paths
  rw [target] at counts
  refine ⟨l'.add s, .span s counts, ?_⟩
  rw [Layout.glyphs_add, written, text, Layout.text_add, ← List.append_assoc, ← parts, List.append_assoc]

end Counted

/-- The pass counts up the targets outside strings and comments. -/
theorem counted {before : Option Char} {cs : List Char} {l : Layout} (cuts : Cuts before cs l) {run : List Glyph}
    (path : ∀ g ∈ run, isPathChar g.char = true) : Counted run l := by
  induction size : cs.length using Nat.strong_induction_on generalizing before cs l run with
  | _ n ih =>
    have none : ∀ g ∈ ([] : List Glyph), isPathChar g.char = true := List.forall_mem_nil _
    cases cuts with
    | nil =>
      have copied := @replaceHits_increment_run run path [] (by simp) (by simp)
      exact ⟨⟨[], []⟩, .nil, copied⟩
    | @span _ cs s rest l split found further =>
      have positive := List.length_pos_of_ne_nil found.ne_nil
      have shorter : rest.length < n := by
        rw [← size, split, List.length_append]
        omega
      exact .span path s fun run path => ih rest.length shorter further path rfl
    | @char _ c rest l free further =>
      have shorter : rest.length < n := by
        rw [← size]
        exact Nat.lt_succ_self _
      by_cases inside : isPathChar c = true
      · have path' : ∀ g ∈ run ++ [⟨c, false⟩], isPathChar g.char = true :=
          List.forall_mem_append.mpr ⟨path, List.forall_mem_singleton.mpr inside⟩
        exact .path inside (ih rest.length shorter further path' rfl)
      have outside : isPathChar c = false := Bool.eq_false_iff.mpr inside
      by_cases signs : run = [] ∨ c ≠ '+' ∨ l.text.head? ≠ some '+'
      · exact .other path outside signs (ih rest.length shorter further none rfl)
      -- two plus signs behind a target, with a blank or without one
      simp only [not_or, not_not] at signs
      obtain ⟨named, rfl, second⟩ := signs
      rw [further.text_eq] at second
      obtain ⟨rest, rfl⟩ := List.head?_eq_some_iff.mp second
      obtain ⟨l, rfl, behind⟩ := further.exists_push (by decide)
      rw [List.length_cons] at shorter
      rw [Layout.push_push]
      by_cases space : rest.head? = some ' '
      · obtain ⟨rest, rfl⟩ := List.head?_eq_some_iff.mp space
        obtain ⟨l, rfl, behind'⟩ := behind.exists_push (by decide)
        rw [List.length_cons] at shorter
        rw [Layout.push_push]
        exact .update path named (.inl rfl) (ih rest.length (by omega) behind' none rfl)
      · rw [← behind.text_eq] at space
        exact .update path named (.inr ⟨rfl, space⟩) (ih rest.length (by omega) behind none rfl)

/-! ### The strings and comments of the new text -/

/-- A text that is copied, but for targets that are counted up at some places. -/
inductive Spelled : List Char → List Char → List Char → Prop where
  | nil {target : List Char} : Spelled target [] []
  | update {target blank cs out : List Char} (named : target ≠ []) (space : blank ∈ [[' '], []]) (further : Spelled [] cs out) :
      Spelled target ('+' :: '+' :: (blank ++ cs)) (countedUp target ++ out)
  | copy {target : List Char} {c : Char} {cs out : List Char} (further : Spelled (readTarget target c) cs out) :
      Spelled target (c :: cs) (c :: out)

theorem holdsClosing_append_cons (other : c ≠ ']') {rest : List Char} :
    HoldsClosing (cs ++ c :: rest) ↔ HoldsClosing cs ∨ HoldsClosing rest := by
  induction cs with
  | nil =>
    have empty : ¬ HoldsClosing [] := by decide
    rw [List.nil_append, holdsClosing_cons, or_iff_right empty, or_iff_right]
    rintro ⟨_, same, -⟩
    exact other same
  | cons d cs ih =>
    have next : (∃ rest', d = ']' ∧ cs ++ c :: rest = ']' :: rest') ↔ ∃ rest', d = ']' ∧ cs = ']' :: rest' := by
      cases cs with
      | nil => simp [other]
      | cons e cs => simp
    rw [List.cons_append, holdsClosing_cons, ih, holdsClosing_cons, next, or_assoc]

theorem stringSpan_append (plain : ∀ c ∈ cs, c ∉ ['\\', '"', '\n']) (rest : List Char) :
    stringSpan (cs ++ rest) = none ↔ stringSpan rest = none := by
  induction cs with
  | nil => exact Iff.rfl
  | cons c cs ih =>
    obtain ⟨first, later⟩ := List.forall_mem_cons.mp plain
    rw [List.cons_append, stringSpan_cons first, Option.map_eq_none_iff, ih later]

theorem plain_of_path (path : isPathChar c = true) : c ∉ ['\\', '"', '\n'] := by
  have others : ∀ c ∈ ['\\', '"', '\n'], isPathChar c = false := by decide
  intro among
  simp [others c among] at path

theorem path_readTarget (paths : ∀ c ∈ target, isPathChar c = true) (c : Char) :
    ∀ d ∈ readTarget target c, isPathChar d = true := by
  by_cases path : isPathChar c = true
  · rw [readTarget_path path]
    exact List.forall_mem_append.mpr ⟨paths, List.forall_mem_singleton.mpr path⟩
  · rw [readTarget_other (Bool.eq_false_iff.mpr path)]
    exact List.forall_mem_nil _

namespace Spelled

variable {target cs out : List Char}

theorem copies (s : List Char) (h : Spelled (s.foldl readTarget target) cs out) : Spelled target (s ++ cs) (s ++ out) := by
  induction s generalizing target with
  | nil => exact h
  | cons c s ih => exact .copy (ih h)

/-- Another character than a blank comes from the text. -/
theorem exists_copy {c : Char} (h : Spelled target cs (c :: out)) (solid : c ≠ ' ') :
    ∃ cs', cs = c :: cs' ∧ Spelled (readTarget target c) cs' out := by
  generalize whole : c :: out = out' at h
  cases h with
  | nil => cases whole
  | update => exact absurd (List.cons.inj whole).1 solid
  | copy further =>
    obtain ⟨rfl, rfl⟩ := List.cons.inj whole
    exact ⟨_, rfl, further⟩

theorem head?_all (h : Spelled target cs out) (ends : cs.head?.all (· == '\n') = true) : out.head?.all (· == '\n') = true := by
  cases h with
  | nil => rfl
  | update => cases ends
  | copy => exact ends

/-- No mark that closes a block comment is brought in. -/
theorem holdsClosing (h : Spelled target cs out) (closing : HoldsClosing out) : HoldsClosing (target ++ cs) := by
  have behind : ∀ (front : List Char) {rest : List Char}, HoldsClosing rest → HoldsClosing (front ++ rest) := fun _ _ inside =>
    inside.trans (List.suffix_append _ _).isInfix
  induction h with
  | nil => exact absurd closing (by decide)
  | @update target blank cs out _ _ _ ih =>
    have shape : countedUp target ++ out = [' ', '='] ++ ' ' :: (target ++ ' ' :: (['+', ' '] ++ '1' :: out)) := by
      simp [countedUp]
    rw [shape, holdsClosing_append_cons (by decide), holdsClosing_append_cons (by decide),
      holdsClosing_append_cons (by decide)] at closing
    rw [holdsClosing_append_cons (by decide)]
    rcases closing with inside | inside | inside | inside
    · exact absurd inside (by decide)
    · exact .inl inside
    · exact absurd inside (by decide)
    · exact .inr (behind ('+' :: blank) (ih inside))
  | @copy target c cs out further ih =>
    rcases holdsClosing_cons.mp closing with ⟨rest, rfl, rfl⟩ | inside
    · obtain ⟨cs, rfl, -⟩ := further.exists_copy (by decide)
      exact ⟨target, cs, by simp⟩
    · have later := ih inside
      by_cases path : isPathChar c = true
      · rwa [readTarget_path path, List.append_assoc, List.singleton_append] at later
      · rw [readTarget_other (Bool.eq_false_iff.mpr path)] at later
        rw [List.append_cons]
        exact behind _ later

/-- A string that is not closed within its line is not closed by what is brought in, also where its first character stands
behind a backslash. -/
theorem stringSpan_eq_none (h : Spelled target cs out) (paths : ∀ c ∈ target, isPathChar c = true) :
    (stringSpan cs = none → stringSpan out = none) ∧
      (target = [] → stringSpan ('\\' :: cs) = none → stringSpan ('\\' :: out) = none) := by
  have none : ∀ c ∈ ([] : List Char), isPathChar c = true := List.forall_mem_nil _
  induction h with
  | nil => exact ⟨id, fun _ => id⟩
  | @update target blank cs out named space further ih =>
    have signs : ∀ c ∈ '+' :: '+' :: blank, c ∉ ['\\', '"', '\n'] := by
      revert blank
      decide
    have written : ∀ c ∈ countedUp target, c ∉ ['\\', '"', '\n'] := by
      have around : ∀ c ∈ [' ', '=', ' '], c ∉ ['\\', '"', '\n'] := by decide
      have behind : ∀ c ∈ [' ', '+', ' ', '1'], c ∉ ['\\', '"', '\n'] := by decide
      exact List.forall_mem_append.mpr ⟨List.forall_mem_append.mpr ⟨around, fun c mem => plain_of_path (paths c mem)⟩, behind⟩
    refine ⟨fun unclosed => ?_, fun empty => absurd empty named⟩
    rw [← List.cons_append, ← List.cons_append, stringSpan_append signs] at unclosed
    rw [stringSpan_append written]
    exact (ih none).1 unclosed
  | @copy target c cs out further ih =>
    have later := ih (path_readTarget paths c)
    refine ⟨fun unclosed => ?_, fun empty unclosed => ?_⟩
    · by_cases special : c ∈ ['\\', '"', '\n']
      · simp only [List.mem_cons, List.not_mem_nil, or_false] at special
        rcases special with rfl | rfl | rfl
        · exact later.2 (readTarget_other (by decide) target) unclosed
        · cases unclosed
        · rfl
      · rw [stringSpan_cons special, Option.map_eq_none_iff] at unclosed ⊢
        exact later.1 unclosed
    · rw [stringSpan, Option.map_eq_none_iff] at unclosed ⊢
      exact later.1 unclosed

/-- Brackets that open a block comment open one in the text, and it is closed there. -/
theorem exists_block {inside : List Char} (h : Spelled [] cs ('[' :: '[' :: inside)) (closing : HoldsClosing inside) :
    ∃ inside', cs = '[' :: '[' :: inside' ∧ HoldsClosing inside' := by
  obtain ⟨cs₁, rfl, first⟩ := h.exists_copy (by decide)
  obtain ⟨cs₂, rfl, second⟩ := first.exists_copy (by decide)
  refine ⟨cs₂, rfl, ?_⟩
  have holds := second.holdsClosing closing
  rw [readTarget_path (by decide), readTarget_path (by decide)] at holds
  have split : [] ++ ['['] ++ ['['] ++ cs₂ = ['['] ++ '[' :: cs₂ := rfl
  rw [split, holdsClosing_append_cons (by decide)] at holds
  exact holds.resolve_left (by decide)

/-- Where no string or comment starts, none starts in the new text. -/
theorem spanAt_eq_zero {c : Char} (h : Spelled (readTarget target c) cs out) (paths : ∀ d ∈ target, isPathChar d = true)
    {before before' : Option Char} (link : before' = before ∨ before' = some '1') (nothing : spanAt before (c :: cs) = 0) :
    spanAt before' (c :: out) = 0 := by
  by_cases start : c ∈ spanStarts
  · rcases List.mem_pair.mp start with rfl | rfl
    · have unclosed : stringSpan cs = none := by
        rw [spanAt_string] at nothing
        cases string : stringSpan cs with
        | none => rfl
        | some n => simp [string] at nothing
      rw [spanAt_string, (h.stringSpan_eq_none (path_readTarget paths _)).1 unclosed]
      rfl
    · refine spanAt_eq_zero_iff.mpr fun s rest split span => ?_
      rw [readTarget_other (by decide)] at h
      cases span with
      | string => exact absurd (List.cons.inj split).1 (by decide)
      | @block body =>
        obtain ⟨-, rfl⟩ := List.cons.inj split
        obtain ⟨cs, rfl, further⟩ := h.exists_copy (by decide)
        rw [readTarget_other (by decide)] at further
        obtain ⟨inside, rfl, closing⟩ := further.exists_block ⟨body, rest, by simp⟩
        exact spanAt_block_ne_zero closing before nothing
      | line free =>
        obtain ⟨-, rfl⟩ := List.cons.inj split
        obtain ⟨cs, rfl, -⟩ := h.exists_copy (by decide)
        rcases link with rfl | rfl
        · exact spanAt_minus_ne_zero free cs nothing
        · exact absurd free (by decide)
  · exact Polish.spanAt_eq_zero start out

end Spelled

/-- A comment that ends with its line, not with a mark of its own. -/
def IsLineComment (s : List Char) : Prop :=
  ['-', '-'] <+: s ∧ ∀ inside, s = '-' :: '-' :: '[' :: '[' :: inside → ¬ HoldsClosing inside

/-- A line comment does not follow a word or a closing bracket. -/
theorem Span.free_of_line {rest : List Char} (found : Span before s rest) (line : IsLineComment s) :
    before.any endsTarget = false := by
  cases found with
  | string =>
    obtain ⟨rest, shape⟩ := line.1
    exact absurd (List.cons.inj shape).1 (by decide)
  | @block body => exact absurd ⟨body, [], by simp⟩ (line.2 _ rfl)
  | line free => exact free

/-- A string or a comment is one in the new text as well, but for a line comment that comes to follow a word. -/
theorem Span.iff_of_spelled {before' : Option Char} {out : List Char} (found : Span before s cs)
    (h : Spelled (s.foldl readTarget target) cs out) :
    Span before' s out ↔ (IsLineComment s → before'.any endsTarget = false) := by
  refine ⟨fun span => span.free_of_line, fun free' => ?_⟩
  cases found with
  | string inside => exact .string inside
  | block nearest => exact .block nearest
  | @line body _ free unclosed within ends =>
    have line : IsLineComment ('-' :: '-' :: body) := by
      refine ⟨⟨body, rfl⟩, fun inside shape closing => ?_⟩
      obtain rfl := (List.cons.inj (List.cons.inj shape).2).2
      exact unclosed (inside ++ cs) rfl (closing.trans (List.prefix_append inside cs).isInfix)
    refine .line (free' line) (fun inside shape closing => ?_) within (h.head?_all ends)
    have rest : Spelled (body.foldl readTarget []) cs out := by
      rwa [List.foldl_cons, List.foldl_cons, readTarget_other (by decide) (readTarget target '-')] at h
    have whole := rest.copies
    rw [shape] at whole
    obtain ⟨inside', shape', closing'⟩ := whole.exists_block closing
    exact unclosed inside' shape' closing'

theorem Counts.spelled (h : Counts target l l') : Spelled target l.text l'.text := by
  induction h with
  | nil => exact .nil
  | update named nearest _ ih =>
    rw [Layout.text_push, Layout.text_push]
    refine .update named ?_ ih
    rcases nearest with rfl | ⟨rfl, -⟩ <;> simp
  | char _ _ ih =>
    rw [Layout.text_push, Layout.text_push]
    exact .copy ih
  | span s _ ih =>
    rw [Layout.text_add, Layout.text_add]
    exact .copies s ih

/-! ### Comments behind increments -/

/-- A text ends with an increment, and with the blank behind it or not. -/
def EndsCounted (cs : List Char) : Prop :=
  ∃ front c, isPathChar c = true ∧ (cs = front ++ [c, '+', '+'] ∨ cs = front ++ [c, '+', '+', ' '])

/-- No line comment stands right behind an increment. `past` is the text in front of the layout. -/
def Layout.Apart (past : List Char) (l : Layout) : Prop :=
  ∀ front s gap rest, l.tail = front ++ (s, gap) :: rest → IsLineComment s → ¬ EndsCounted (past ++ Layout.text ⟨l.head, front⟩)

theorem Layout.apart_push : (l.push cs).Apart past ↔ l.Apart (past ++ cs) := by
  have text : ∀ front, Layout.text ⟨(l.push cs).head, front⟩ = cs ++ Layout.text ⟨l.head, front⟩ := fun front =>
    Layout.text_push cs ⟨l.head, front⟩
  simp only [Layout.Apart, text, List.append_assoc]
  rfl

theorem Layout.apart_add : (l.add s).Apart past ↔ (IsLineComment s → ¬ EndsCounted past) ∧ l.Apart (past ++ s) := by
  have text : ∀ front, Layout.text ⟨[], (s, l.head) :: front⟩ = s ++ Layout.text ⟨l.head, front⟩ := fun front =>
    Layout.text_add s ⟨l.head, front⟩
  constructor
  · intro apart
    refine ⟨fun line => ?_, fun front s' gap rest split line => ?_⟩
    · have first := apart [] s l.head l.tail rfl line
      rwa [show Layout.text ⟨(l.add s).head, []⟩ = [] from rfl, List.append_nil] at first
    · have later := apart ((s, l.head) :: front) s' gap rest (congrArg ((s, l.head) :: ·) split) line
      rwa [show Layout.text ⟨(l.add s).head, (s, l.head) :: front⟩ = _ from text front, ← List.append_assoc] at later
  · rintro ⟨first, later⟩ front s' gap rest split line
    cases front with
    | nil =>
      obtain ⟨same, -⟩ := List.cons.inj split
      obtain ⟨rfl, -⟩ := Prod.mk.inj same
      rw [show Layout.text ⟨(l.add s).head, []⟩ = [] from rfl, List.append_nil]
      exact first line
    | cons part front =>
      obtain ⟨rfl, others⟩ := List.cons.inj split
      rw [show Layout.text ⟨(l.add s).head, (s, l.head) :: front⟩ = _ from text front, ← List.append_assoc]
      exact later front s' gap rest others line

/-- A place between what has been copied and counted up and what is still to be read. No increment stands across it, and what
has been written ends as the text does, unless a target was counted up. -/
structure Between (past : List Char) (rest : List Char) (before : Option Char) : Prop where
  sign : ∀ front c, isPathChar c = true → past = front ++ [c, '+'] → rest.head? ≠ some '+'
  blank : ∀ front c, isPathChar c = true → past = front ++ [c, '+', '+'] → rest.head? ≠ some ' '
  last : EndsCounted past ∧ before = some '1' ∨ before = past.getLast? ∧ (EndsCounted past → rest.head?.all (· == '\n') = true)

theorem foldl_readTarget_ne_nil : past.foldl readTarget [] ≠ [] ↔ ∃ front c, past = front ++ [c] ∧ isPathChar c = true := by
  rcases List.eq_nil_or_concat past with rfl | ⟨front, c, rfl⟩
  · simp
  · rw [List.concat_eq_append, List.foldl_append, List.foldl_cons, List.foldl_nil]
    by_cases path : isPathChar c = true
    · exact iff_of_true (by rw [readTarget_path path]; simp) ⟨front, c, rfl, path⟩
    · refine iff_of_false (not_not.mpr (readTarget_other (Bool.eq_false_iff.mpr path) _)) ?_
      rintro ⟨front', c', same, path'⟩
      obtain ⟨-, same⟩ := List.append_inj' same rfl
      obtain ⟨rfl, -⟩ := List.cons.inj same
      exact path path'

namespace Between

variable {past rest : List Char} {before : Option Char} {c : Char}

theorem char (h : Between past (c :: rest) before) (other : past.foldl readTarget [] = [] ∨ c ≠ '+' ∨ rest.head? ≠ some '+') :
    Between (past ++ [c]) rest (some c) := by
  have last : ∀ {front d}, past ++ [c] = front ++ [d] → past = front ∧ c = d := by
    intro front d same
    obtain ⟨fronts, lasts⟩ := List.append_inj' same rfl
    exact ⟨fronts, (List.cons.inj lasts).1⟩
  have signs : ∀ front d, isPathChar d = true → past ++ [c] ≠ front ++ [d, '+', '+'] := by
    intro front d path same
    obtain ⟨rfl, rfl⟩ := @last (front ++ [d, '+']) '+' (by simpa using same)
    exact h.sign front d path rfl rfl
  refine ⟨fun front d path same => ?_, fun front d path same => absurd same (signs front d path), .inr ⟨by simp, ?_⟩⟩
  · obtain ⟨rfl, rfl⟩ := @last (front ++ [d]) '+' (by simpa using same)
    rcases other with empty | other | other
    · exact absurd empty (foldl_readTarget_ne_nil.mpr ⟨front, d, rfl, path⟩)
    · exact absurd rfl other
    · exact other
  · rintro ⟨front, d, path, same | same⟩
    · exact absurd same (signs front d path)
    · obtain ⟨rfl, rfl⟩ := @last (front ++ [d, '+', '+']) ' ' (by simpa using same)
      exact absurd rfl (h.blank front d path rfl)

theorem update (named : past.foldl readTarget [] ≠ []) {blank : List Char}
    (nearest : blank = [' '] ∨ blank = [] ∧ rest.head? ≠ some ' ') : Between (past ++ '+' :: '+' :: blank) rest (some '1') := by
  obtain ⟨front, c, rfl, path⟩ := foldl_readTarget_ne_nil.mp named
  rcases nearest with rfl | ⟨rfl, other⟩
  · have ends : ∀ front' cs, front ++ [c] ++ ['+', '+', ' '] ≠ front' ++ (cs ++ ['+']) := by
      intro front' cs same
      have last := congrArg List.getLast? same
      rw [← List.append_assoc] at last
      simp at last
    refine ⟨fun front' d _ same => absurd same (ends front' [d]), fun front' d _ same => absurd same (ends front' [d, '+']), ?_⟩
    exact .inl ⟨⟨front, c, path, .inr (by simp)⟩, rfl⟩
  · refine ⟨fun front' d path' same => ?_, fun _ _ _ _ => other, .inl ⟨⟨front, c, path, .inl (by simp)⟩, rfl⟩⟩
    obtain ⟨-, signs⟩ := List.append_inj' same rfl
    obtain ⟨rfl, -⟩ := List.cons.inj signs
    exact absurd path' (by decide)

theorem span {s : List Char} {before' : Option Char} (found : Span before' s rest) : Between (past ++ s) rest s.getLast? := by
  -- only a line comment can end as an increment does, and it ends in front of a line feed
  have feed : ∀ front c, c ∉ ['"', ']'] → past ++ s = front ++ [c] → rest.head?.all (· == '\n') = true := by
    intro front c other same
    refine found.ends.resolve_left ?_
    rintro ⟨d, among, last⟩
    have last' := congrArg List.getLast? same
    rw [List.getLast?_append_of_ne_nil _ found.ne_nil, last, List.getLast?_concat] at last'
    exact other (Option.some.inj last' ▸ among)
  have other : ∀ c, c ≠ '\n' → rest.head?.all (· == '\n') = true → rest.head? ≠ some c := by
    intro c solid all first
    rw [first] at all
    exact solid (by simpa using all)
  refine ⟨fun front c _ same => ?_, fun front c _ same => ?_, .inr ⟨?_, ?_⟩⟩
  · exact other _ (by decide) (feed (front ++ [c]) '+' (by decide) (by simpa using same))
  · exact other _ (by decide) (feed (front ++ [c, '+']) '+' (by decide) (by simpa using same))
  · rw [List.getLast?_append_of_ne_nil _ found.ne_nil]
  · rintro ⟨front, c, -, same | same⟩
    · exact feed (front ++ [c, '+']) '+' (by decide) (by simpa using same)
    · exact feed (front ++ [c, '+', '+']) ' ' (by decide) (by simpa using same)

end Between

theorem path_foldl_readTarget (past : List Char) (paths : ∀ c ∈ target, isPathChar c = true) :
    ∀ c ∈ past.foldl readTarget target, isPathChar c = true := by
  induction past generalizing target with
  | nil => exact paths
  | cons c past ih => exact ih (path_readTarget paths c)

theorem countedUp_notMem (paths : ∀ c ∈ target, isPathChar c = true) : ∀ c ∈ countedUp target, c ∉ spanStarts := by
  have starts : ∀ c ∈ spanStarts, isPathChar c = false := by decide
  have around : ∀ c ∈ [' ', '=', ' '], c ∉ spanStarts := by decide
  have behind : ∀ c ∈ [' ', '+', ' ', '1'], c ∉ spanStarts := by decide
  refine List.forall_mem_append.mpr ⟨List.forall_mem_append.mpr ⟨around, fun c mem start => ?_⟩, behind⟩
  have path := paths c mem
  simp [starts c start] at path

/-- The strings and comments of the text are those of the new text exactly if no line comment stands right behind an
increment. -/
theorem Counts.cuts_iff (counts : Counts target l l')
    (read : target = past.foldl readTarget []) (cuts : Cuts past.getLast? l.text l)
    (between : Between past l.text before) : Cuts before l'.text l' ↔ l.Apart past := by
  have paths : ∀ c ∈ target, isPathChar c = true := by
    rw [read]
    exact path_foldl_readTarget past (List.forall_mem_nil _)
  induction counts generalizing past before with
  | nil => exact iff_of_true .nil fun front _ _ _ split => absurd split (by simp)
  | @update target blank l l' named nearest further ih =>
    subst read
    have signs : ∀ c ∈ '+' :: '+' :: blank, c ∉ spanStarts := by
      rcases nearest with rfl | ⟨rfl, -⟩ <;> decide
    have fresh : [] = (past ++ '+' :: '+' :: blank).foldl readTarget [] := by
      have other : isPathChar '+' = false := by decide
      rw [List.foldl_append, List.foldl_cons, readTarget_other other, List.foldl_cons, readTarget_other other]
      rcases nearest with rfl | ⟨rfl, -⟩ <;> rfl
    have last : (countedUp (past.foldl readTarget [])).getLast?.or before = some '1' := by
      rw [countedUp, List.getLast?_append]
      rfl
    rw [Layout.text_push, Cuts.append_iff signs, ← List.getLast?_append] at cuts
    rw [Layout.text_push, Cuts.append_iff (countedUp_notMem paths), Layout.apart_push, last]
    exact ih fresh cuts (.update named nearest) (List.forall_mem_nil _)
  | @char target c l l' other further ih =>
    subst read
    rw [Layout.text_push, List.singleton_append] at cuts between
    obtain ⟨free, behind⟩ := Cuts.push_iff.mp cuts
    have link : before = past.getLast? ∨ before = some '1' := by
      rcases between.last with ⟨-, counted⟩ | ⟨copied, -⟩
      · exact .inr counted
      · exact .inl copied
    have free' := spanAt_eq_zero_iff.mp (further.spelled.spanAt_eq_zero paths link (spanAt_eq_zero_iff.mpr free))
    rw [Layout.text_push, List.singleton_append, Cuts.push_iff, Layout.apart_push, and_iff_right free']
    refine ih ?_ ?_ (between.char other) (path_readTarget paths c)
    · rw [List.foldl_append]
      rfl
    · rwa [List.getLast?_concat]
  | @span target s l l' further ih =>
    subst read
    have nonempty : s ≠ [] := by
      obtain ⟨c, rest, rfl, -⟩ := cuts.exists_head s List.mem_cons_self
      exact List.cons_ne_nil c rest
    rw [Layout.text_add] at cuts between
    obtain ⟨found, behind⟩ := (Cuts.add_iff nonempty).mp cuts
    have line : IsLineComment s → (before.any endsTarget = false ↔ ¬ EndsCounted past) := by
      intro line
      rcases between.last with ⟨counted, rfl⟩ | ⟨rfl, feed⟩
      · exact iff_of_false (by decide) (not_not.mpr counted)
      · refine iff_of_true (found.free_of_line line) fun counted => ?_
        obtain ⟨rest, rfl⟩ := line.1
        exact absurd (feed counted) (by simp)
    rw [Layout.text_add, Cuts.add_iff nonempty, Layout.apart_add, found.iff_of_spelled further.spelled]
    refine and_congr (imp_congr_right line) (ih ?_ ?_ (.span found) (path_foldl_readTarget s paths))
    · rw [List.foldl_append]
    · rwa [List.getLast?_append_of_ne_nil _ nonempty]

/-! ### Counting down -/

theorem harmless_decrementHit? (glyphs : List Glyph) (bordered : Bordered glyphs) : Harmless decrementHit? glyphs := by
  intro before h hit
  unfold decrementHit? at hit
  dsimp only at hit
  split at hit
  · cases hit
  · split at hit
    · rename_i marked marked₁ marked₂ rest shape
      have length : (unmark (glyphs.takeWhile (isPathChar ·.char))).length = (glyphs.takeWhile (isPathChar ·.char)).length :=
        List.length_map _
      rw [length] at shape
      have split : glyphs = glyphs.takeWhile (isPathChar ·.char) ++
          ([⟨'-', marked⟩, ⟨'-', marked₁⟩, ⟨' ', marked₂⟩] ++ rest) := by
        refine (List.prefix_iff_eq_append.mp (List.takeWhile_prefix (isPathChar ·.char))).symm.trans ?_
        rw [shape]
        rfl
      have unmarked : marked = false → ∀ g ∈ [⟨'-', marked⟩, ⟨'-', marked₁⟩, (⟨' ', marked₂⟩ : Glyph)], g.guarded = false := by
        rintro rfl
        rw [split] at bordered
        obtain ⟨opens, -, borders⟩ := bordered.suffix
        -- a comment does not start with the second sign, for a blank stands behind it
        have second : marked₁ = false := by
          refine Bool.eq_false_iff.mpr fun guarded => ?_
          rcases opens rfl guarded with ⟨_, start⟩ | ⟨_, start⟩
          · exact absurd (List.cons.inj start).1 (by simp)
          · exact absurd (List.cons.inj (List.cons.inj start).2).1 (by simp)
        have third : ∀ g ∈ [(⟨' ', marked₂⟩ : Glyph)], g.guarded = false :=
          Bordered.free_behind borders second (by simp [spanStarts])
        exact List.forall_mem_cons.mpr ⟨rfl, List.forall_mem_cons.mpr ⟨second, third⟩⟩
      have text : ∀ target, assign target ['-', ' ', '1'] = target ++ ([' ', '=', ' '] ++ target ++ [' ', '-', ' ', '1']) := by
        simp [assign]
      rw [length, text] at hit
      obtain rfl := Option.some.inj hit
      exact exists_taken split (by simp) unmarked rfl _
    · cases hit

end Polish

open Polish

/-- Counting up changes a text outside its strings and comments only. They are the strings and comments of the text that is
left to the counting down, which keeps them too, exactly if no line comment stands right behind an increment. -/
theorem increments_keep_spans (code : String) :
    ∃ l : Layout, Counts [] (layout code.toList) l ∧ l.text = replaceIn incrementHit? code.toList ∧
      l.spans = (layout code.toList).spans ∧ (layout l.text = l ↔ (layout code.toList).Apart []) ∧
      ((layout code.toList).Apart [] →
        ∃ l' : Layout, l'.text = (Pass.increments.run code).toList ∧ l'.spans = (layout code.toList).spans) := by
  have cuts := cuts_layout code.toList
  have start : Between [] (layout code.toList).text none := by
    refine ⟨fun front c _ empty => ?_, fun front c _ empty => ?_, .inr ⟨rfl, ?_⟩⟩
    · exact absurd empty (by simp)
    · exact absurd empty (by simp)
    · rintro ⟨front, c, -, empty | empty⟩
      · exact absurd empty (by simp)
      · exact absurd empty (by simp)
  obtain ⟨l, counts, written⟩ := @counted none _ _ cuts [] fun _ none => absurd none List.not_mem_nil
  have text : l.text = replaceIn incrementHit? code.toList := by
    rw [replaceIn, mark_eq]
    exact written.symm
  have kept : layout l.text = l ↔ (layout code.toList).Apart [] := by
    rw [← counts.cuts_iff rfl (by rwa [cuts.text_eq]) start]
    refine ⟨fun same => ?_, fun laid => (cuts_layout l.text).eq laid⟩
    have laid := cuts_layout l.text
    rwa [same] at laid
  refine ⟨l, counts, text, counts.spans_eq, kept, fun apart => ?_⟩
  rw [Pass.run, String.toList_ofList, Pass.runOn, ← text, ← counts.spans_eq]
  obtain ⟨l', written', spans⟩ := exists_layout_replaceIn harmless_decrementHit? l.text
  exact ⟨l', written', by rw [spans, kept.mpr apart]⟩

/-- A blank goes with the increment, and the comment behind it is taken for a decrement. -/
theorem increments_break_comment : ¬ ∃ l : Layout, l.text = (Pass.increments.run "x++ -- note").toList ∧
    l.spans = (layout "x++ -- note".toList).spans := by
  have spans : (layout "x++ -- note".toList).spans = ["-- note".toList] := by decide +kernel
  rintro ⟨l, text, same⟩
  have inside : "-- note".toList <:+: (Pass.increments.run "x++ -- note").toList := by
    rw [← text]
    exact Layout.infix_text l (by rw [same, spans]; exact List.mem_cons_self)
  exact absurd inside (by decide +kernel)

end NoteScript

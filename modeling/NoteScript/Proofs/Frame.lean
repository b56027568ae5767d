import NoteScript.Proofs.Spans

/-!
# What the passes leave alone

A pass looks for its matches in the whole text, strings and comments among it, and leaves those as they are whose operator is
marked. What a match takes behind a target is then marked as a whole or not at all, so that a pass writes the strings and
comments of a text as they are.

* `Keeps`: the marked characters are written as they are, `Keeps.exists_layout`: and so are the strings and comments.
* `keeps_replaceHits`: a pass keeps what each of its matches keeps.
* `Reindexed`: how the pass for indices changes a layout.
* `passes_keep_spans`: the passes for compound assignments and for indices keep strings and comments, and the one for indices
  counts them from one elsewhere and does nothing else.
-/

namespace NoteScript

open Text

namespace Polish

variable {rest glyphs : List Glyph}

/-! ### Keeping marked characters -/

/-- A text for a marked one, with the marked characters as they are and any text for the others. -/
inductive Keeps : List Glyph → List Char → Prop where
  | nil : Keeps [] []
  | guarded (c : Char) {glyphs : List Glyph} {out : List Char} (further : Keeps glyphs out) : Keeps (⟨c, true⟩ :: glyphs) (c :: out)
  | free (c : Char) (new : List Char) {glyphs : List Glyph} {out : List Char} (further : Keeps glyphs out) :
      Keeps (⟨c, false⟩ :: glyphs) (new ++ out)

namespace Keeps

variable {glyphs glyphs' : List Glyph} {out out' : List Char}

theorem copy (g : Glyph) (h : Keeps glyphs out) : Keeps (g :: glyphs) (g.char :: out) := by
  obtain ⟨c, marked⟩ := g
  cases marked with
  | true => exact .guarded c h
  | false => exact .free c [c] h

theorem refl (glyphs : List Glyph) : Keeps glyphs (unmark glyphs) := by
  induction glyphs with
  | nil => exact .nil
  | cons g glyphs ih => exact ih.copy g

theorem append (h : Keeps glyphs out) (h' : Keeps glyphs' out') : Keeps (glyphs ++ glyphs') (out ++ out') := by
  induction h with
  | nil => exact h'
  | guarded c _ ih => exact .guarded c ih
  | free c new _ ih =>
    rw [List.append_assoc]
    exact .free c new ih

/-- Characters that are not marked may be replaced by anything. -/
theorem replace (nonempty : glyphs ≠ []) (free : ∀ g ∈ glyphs, g.guarded = false) (new : List Char) : Keeps glyphs new := by
  induction glyphs generalizing new with
  | nil => exact absurd rfl nonempty
  | cons g glyphs ih =>
    obtain ⟨first, later⟩ := List.forall_mem_cons.mp free
    obtain ⟨c, marked⟩ := g
    obtain rfl : marked = false := first
    cases glyphs with
    | nil =>
      have single := Keeps.free c new .nil
      rwa [List.append_nil] at single
    | cons g' glyphs => exact .free c [] (ih (List.cons_ne_nil _ _) later new)

theorem exists_bare {gap : List Char} (h : Keeps (bare gap ++ glyphs) out) : ∃ new out', out = new ++ out' ∧ Keeps glyphs out' := by
  induction gap generalizing out with
  | nil => exact ⟨[], out, rfl, h⟩
  | cons c gap ih =>
    cases h with
    | free _ new further =>
      obtain ⟨new', out', rfl, later⟩ := ih further
      exact ⟨new ++ new', out', (List.append_assoc new new' out').symm, later⟩

theorem exists_guarded {s : List Char} (h : Keeps (Polish.guarded s ++ glyphs) out) : ∃ out', out = s ++ out' ∧ Keeps glyphs out' := by
  induction s generalizing out with
  | nil => exact ⟨out, rfl, h⟩
  | cons c s ih =>
    cases h with
    | guarded _ further =>
      obtain ⟨out', rfl, later⟩ := ih further
      exact ⟨out', rfl, later⟩

/-- With the marked characters, strings and comments are kept. -/
theorem exists_layout {l : Layout} (h : Keeps l.glyphs out) : ∃ l' : Layout, l'.text = out ∧ l'.spans = l.spans := by
  obtain ⟨gap, tail⟩ := l
  induction tail generalizing gap out with
  | nil => exact ⟨⟨out, []⟩, List.append_nil out, rfl⟩
  | cons part tail ih =>
    rw [Layout.mk_cons, Layout.glyphs_push, Layout.glyphs_add] at h
    obtain ⟨new, out', rfl, behind⟩ := h.exists_bare
    obtain ⟨out', rfl, further⟩ := behind.exists_guarded
    obtain ⟨l', text, spans⟩ := ih part.2 further
    exact ⟨(l'.add part.1).push new, by simp [text], by simp [spans, Layout.mk_cons]⟩

end Keeps

/-! ### Harmless matches -/

/-- What a match writes keeps the marked characters that it takes. -/
def Harmless (hit? : Option Char → List Glyph → Option Hit) (glyphs : List Glyph) : Prop :=
  ∀ before h, hit? before glyphs = some h → ∃ taken rest, glyphs = taken ++ rest ∧ taken.length = h.taken + 1 ∧ Keeps taken h.text

/-- The characters that a match takes are passed over. -/
theorem replaceHits_taken {hit? : Option Char → List Glyph → Option Hit} (before : Option Char) (taken rest : List Glyph) :
    ∃ before', replaceHits hit? before taken.length (taken ++ rest) = replaceHits hit? before' 0 rest := by
  induction taken generalizing before with
  | nil => exact ⟨before, rfl⟩
  | cons g taken ih => exact ih (some g.char)

theorem replaceHits_hit {hit? : Option Char → List Glyph → Option Hit} {before : Option Char} {taken : List Glyph} {h : Hit}
    (hit : hit? before (taken ++ rest) = some h) (size : taken.length = h.taken + 1) :
    ∃ before', replaceHits hit? before 0 (taken ++ rest) = h.text ++ replaceHits hit? before' 0 rest := by
  cases taken with
  | nil => cases size
  | cons g taken =>
    obtain ⟨before', skipped⟩ := @replaceHits_taken hit? (some g.char) taken rest
    refine ⟨before', ?_⟩
    rw [List.cons_append] at hit ⊢
    rw [replaceHits, hit]
    dsimp only
    rw [← Nat.succ.inj size, skipped]

/-- A pass keeps what each of its matches keeps. -/
theorem keeps_replaceHits {hit? : Option Char → List Glyph → Option Hit}
    (harmless : ∀ rest, rest <:+ glyphs → Harmless hit? rest) (before : Option Char) :
    Keeps glyphs (replaceHits hit? before 0 glyphs) := by
  induction size : glyphs.length using Nat.strong_induction_on generalizing glyphs before with
  | _ n ih =>
    cases glyphs with
    | nil => exact .nil
    | cons g rest =>
      have later : ∀ rest' before, rest' <:+ rest → Keeps rest' (replaceHits hit? before 0 rest') := by
        intro rest' before suffix
        refine ih rest'.length ?_ (fun rest'' further => ?_) before rfl
        · rw [← size, List.length_cons]
          exact Nat.lt_succ_of_le suffix.length_le
        · exact harmless rest'' (further.trans (suffix.trans (List.suffix_cons g rest)))
      cases hit : hit? before (g :: rest) with
      | none =>
        rw [replaceHits, hit]
        exact (later rest _ (List.suffix_refl rest)).copy g
      | some h =>
        obtain ⟨taken, rest', split, length, keeps⟩ := harmless _ (List.suffix_refl _) before h hit
        obtain ⟨before', written⟩ := replaceHits_hit (split ▸ hit) length
        rw [split, written]
        refine keeps.append (later rest' before' ?_)
        cases taken with
        | nil => cases length
        | cons g' taken =>
          obtain ⟨-, rfl⟩ := List.cons.inj split
          exact List.suffix_append taken rest'

/-- A pass with harmless matches keeps what is marked in a text. -/
theorem keeps_replaceIn {hit? : Option Char → List Glyph → Option Hit}
    (harmless : ∀ glyphs, Bordered glyphs → Harmless hit? glyphs) (code : List Char) :
    Keeps (mark code) (replaceIn hit? code) := by
  have bordered := (cuts_layout code).bordered.2
  rw [replaceIn, mark_eq]
  refine keeps_replaceHits ?_ none
  rintro rest ⟨front, split⟩
  rw [← split] at bordered
  exact harmless rest bordered.suffix

/-- A pass with harmless matches keeps the strings and comments of every text. -/
theorem exists_layout_replaceIn {hit? : Option Char → List Glyph → Option Hit}
    (harmless : ∀ glyphs, Bordered glyphs → Harmless hit? glyphs) (code : List Char) :
    ∃ l : Layout, l.text = replaceIn hit? code ∧ l.spans = (layout code).spans := by
  have keeps := keeps_replaceIn harmless code
  rw [mark_eq] at keeps
  exact keeps.exists_layout

/-- A match that writes its target again is harmless if it takes marked characters only with a marked operator. -/
theorem exists_taken {kept freed : List Glyph} (split : glyphs = kept ++ (freed ++ rest)) (nonempty : freed ≠ [])
    {marked : Bool} (free : marked = false → ∀ g ∈ freed, g.guarded = false) {size : Nat}
    (length : size = kept.length + freed.length) (new : List Char) :
    let h := Hit.guardedBy marked size glyphs (unmark kept ++ new)
    ∃ taken rest, glyphs = taken ++ rest ∧ taken.length = h.taken + 1 ∧ Keeps taken h.text := by
  subst split length
  have positive := List.length_pos_of_ne_nil nonempty
  refine ⟨kept ++ freed, rest, (List.append_assoc kept freed rest).symm, ?_, ?_⟩
  · simp only [Hit.guardedBy, List.length_append]
    omega
  · cases marked with
    | true =>
      have whole : (kept ++ (freed ++ rest)).take (kept.length + freed.length) = kept ++ freed := by
        rw [← List.append_assoc, ← List.length_append, List.take_left]
      simp only [Hit.guardedBy, if_true, whole]
      exact .refl _
    | false => exact (Keeps.refl kept).append (.replace nonempty (free rfl) new)

theorem Opens.char_mem {g : Glyph} (h : Opens (g :: rest)) (marked : g.guarded = true) : g.char ∈ spanStarts := by
  rcases h marked with ⟨_, start⟩ | ⟨_, start⟩
  · have first : '"' = g.char := (List.cons.inj start).1
    rw [← first]
    decide
  · have first : '-' = g.char := (List.cons.inj start).1
    rw [← first]
    decide

namespace Bordered

/-- No string or comment starts within characters that none can start with. -/
theorem free_behind {g : Glyph} {others rest : List Glyph} (h : Bordered (g :: (others ++ rest))) (free : g.guarded = false)
    (inside : ∀ g ∈ others, g.char ∉ spanStarts) : ∀ g ∈ others, g.guarded = false := by
  induction others generalizing g with
  | nil => exact List.forall_mem_nil _
  | cons g' others ih =>
    obtain ⟨first, later⟩ := List.forall_mem_cons.mp inside
    have free' : g'.guarded = false := Bool.eq_false_iff.mpr fun marked => first ((h.1 free).char_mem marked)
    exact List.forall_mem_cons.mpr ⟨free', ih h.2.2 free' later⟩

/-- No string or comment ends within blanks in front of an operator. -/
theorem free_before {g : Glyph} {indent rest : List Glyph} (h : Bordered (indent ++ g :: rest)) (free : g.guarded = false)
    (solid : g.char ≠ '\n') (inside : ∀ g ∈ indent, isTabOrBlank g.char = true) : ∀ g ∈ indent, g.guarded = false := by
  have blank : ∀ c, isTabOrBlank c = true → c ∉ ['"', ']'] ∧ c ≠ '\n' := by
    intro c blank
    simp only [isTabOrBlank, Bool.or_eq_true, beq_iff_eq] at blank
    rcases blank with rfl | rfl <;> decide
  induction indent with
  | nil => exact List.forall_mem_nil _
  | cons g' indent ih =>
    rw [List.cons_append] at h
    obtain ⟨first, later⟩ := List.forall_mem_cons.mp inside
    have further := ih h.2.2 later
    -- the character behind is not marked and no line feed
    obtain ⟨g'', rest', shape, free', solid'⟩ : ∃ g'' rest', indent ++ g :: rest = g'' :: rest' ∧ g''.guarded = false ∧
        g''.char ≠ '\n' := by
      cases indent with
      | nil => exact ⟨g, rest, rfl, free, solid⟩
      | cons g'' indent => exact ⟨g'', _, rfl, further g'' List.mem_cons_self, (blank _ (later g'' List.mem_cons_self)).2⟩
    refine List.forall_mem_cons.mpr ⟨Bool.eq_false_iff.mpr fun marked => ?_, further⟩
    have ends := h.2.1 marked
    rw [shape] at ends
    rcases ends (by simp [free']) with closing | feed
    · exact (blank _ first).1 closing
    · exact solid' (Option.some.inj feed)

end Bordered

/-! ### Compound assignments -/

theorem exists_blanks (glyphs : List Glyph) : ∃ indent, glyphs = indent ++ glyphs.drop (blanks glyphs) ∧
    indent.length = blanks glyphs ∧ ∀ g ∈ indent, isTabOrBlank g.char = true := by
  refine ⟨glyphs.takeWhile (isTabOrBlank ·.char), ?_, rfl, fun g => List.mem_takeWhile_imp⟩
  rw [blanks, List.prefix_iff_eq_append.mp (List.takeWhile_prefix _)]

/-- A compound assignment operator with the blanks around it. -/
theorem exists_compoundOperator {op : CompoundOperator} (found : compoundOperator? glyphs = some op) :
    ∃ indent first others rest, glyphs = indent ++ ⟨first, op.guarded⟩ :: (others ++ rest) ∧
      (∀ g ∈ indent, isTabOrBlank g.char = true) ∧ first ≠ '\n' ∧ (∀ g ∈ others, g.char ∉ spanStarts) ∧
      op.size = indent.length + 1 + others.length := by
  have blank : ∀ c, isTabOrBlank c = true → c ∉ spanStarts := by
    intro c blank
    simp only [isTabOrBlank, Bool.or_eq_true, beq_iff_eq] at blank
    rcases blank with rfl | rfl <;> decide
  -- an operator is its first character, other signs and blanks
  obtain ⟨first, signs, rest, shape, solid, free, size⟩ : ∃ (first : Char) (signs rest : List Glyph),
      glyphs.drop (blanks glyphs) = ⟨first, op.guarded⟩ :: (signs ++ rest) ∧ first ≠ '\n' ∧
      (∀ g ∈ signs, g.char ∉ spanStarts) ∧ op.size = blanks glyphs + (signs.length + 1) + blanks rest := by
    unfold compoundOperator? at found
    dsimp only at found
    split at found
    · rename_i shape
      cases found
      exact ⟨_, [_], _, shape, by decide, by simp [spanStarts], rfl⟩
    · rename_i shape
      cases found
      exact ⟨_, [_], _, shape, by decide, by simp [spanStarts], rfl⟩
    · rename_i shape
      cases found
      exact ⟨_, [_, _], _, shape, by decide, by simp [spanStarts], rfl⟩
    · cases found
  obtain ⟨indent, split, length, indented⟩ := exists_blanks glyphs
  obtain ⟨behind, split', length', blanks'⟩ := exists_blanks rest
  refine ⟨indent, first, signs ++ behind, rest.drop (blanks rest), ?_, indented, solid, fun g mem => ?_, ?_⟩
  · rw [List.append_assoc, ← split', ← shape]
    exact split
  · rcases List.mem_append.mp mem with sign | space
    · exact free g sign
    · exact blank _ (blanks' g space)
  · rw [size, List.length_append, length, length']
    omega

theorem exists_compoundFrom {front target : List Char} {op : CompoundOperator}
    (found : compoundFrom front glyphs = some (target, op)) :
    ∃ kept rest, glyphs = kept ++ rest ∧ target = front.reverse ++ unmark kept ∧ compoundOperator? rest = some op := by
  induction glyphs generalizing front with
  | nil => cases found
  | cons g rest ih =>
    rw [compoundFrom] at found
    split at found
    · split at found
      · rename_i operator
        cases found
        exact ⟨[g], rest, rfl, List.reverse_cons, operator⟩
      · obtain ⟨kept, rest', rfl, rfl, operator⟩ := ih found
        exact ⟨g :: kept, rest', rfl, by simp [unmark], operator⟩
    · cases found

theorem harmless_compoundHit? (glyphs : List Glyph) (bordered : Bordered glyphs) : Harmless compoundHit? glyphs := by
  intro before h hit
  obtain ⟨⟨target, op⟩, found, rfl⟩ := Option.map_eq_some_iff.mp hit
  obtain ⟨kept, rest, split, rfl, operator⟩ := exists_compoundFrom found
  obtain ⟨indent, first, others, rest', rfl, indented, solid, free, size⟩ := exists_compoundOperator operator
  have split' : glyphs = kept ++ ((indent ++ ⟨first, op.guarded⟩ :: others) ++ rest') := by
    rw [split]
    simp
  have borders : Bordered (indent ++ ⟨first, op.guarded⟩ :: (others ++ rest')) := by
    rw [split] at bordered
    exact bordered.suffix
  have unmarked : op.guarded = false → ∀ g ∈ indent ++ ⟨first, op.guarded⟩ :: others, g.guarded = false := by
    intro unmarked g mem
    rcases List.mem_append.mp mem with space | mem
    · exact borders.free_before unmarked solid indented g space
    · rcases List.mem_cons.mp mem with rfl | mem
      · exact unmarked
      · exact borders.suffix.free_behind unmarked free g mem
  have length : (unmark kept).length + op.size = kept.length + (indent ++ ⟨first, op.guarded⟩ :: others).length := by
    rw [unmark, List.length_map, size, List.length_append, List.length_cons]
    omega
  have text : assign (unmark kept) op.text ++ [' '] = unmark kept ++ ([' ', '=', ' '] ++ unmark kept ++ [' '] ++ op.text ++ [' ']) := by
    simp [assign]
  simp only [List.reverse_nil, List.nil_append, text]
  exact exists_taken split' (by simp) unmarked length _

/-! ### Indices -/

theorem indexHit?_eq_none {g : Glyph} (other : g.char ≠ '[') (before : Option Char) (rest : List Glyph) :
    indexHit? before (g :: rest) = none := by
  unfold indexHit?
  split
  · rename_i shape
    exact absurd (congrArg Glyph.char (List.cons.inj shape).1) other
  · rfl

/-- Characters that open no bracket are copied. -/
theorem replaceHits_index_copy (other : ∀ g ∈ glyphs, g.char ≠ '[') (before : Option Char) (g : Glyph)
    (rest : List Glyph) (last : g.char ≠ '[') : replaceHits indexHit? before 0 (glyphs ++ g :: rest) =
      unmark (glyphs ++ [g]) ++ replaceHits indexHit? (some g.char) 0 rest := by
  induction glyphs generalizing before with
  | nil =>
    rw [List.nil_append, replaceHits, indexHit?_eq_none last]
    rfl
  | cons g' glyphs ih =>
    obtain ⟨first, later⟩ := List.forall_mem_cons.mp other
    rw [List.cons_append, replaceHits, indexHit?_eq_none first]
    exact congrArg (g'.char :: ·) (ih later _)

theorem exists_indexHit {before : Option Char} {h : Hit} (hit : indexHit? before glyphs = some h) :
    ∃ opening digits closing rest, glyphs = opening :: (digits ++ closing :: rest) ∧ opening.char = '[' ∧ closing.char = ']' ∧
      (∀ g ∈ digits, isDecimal g.char = true) ∧
      h = .guardedBy opening.guarded (digits.length + 2) glyphs (nextIndex (unmark digits)) := by
  unfold indexHit? at hit
  split at hit
  · rename_i marked rest
    dsimp only at hit
    split at hit
    · rename_i found
      have length : (unmark (rest.takeWhile (isDecimal ·.char))).length = (rest.takeWhile (isDecimal ·.char)).length :=
        List.length_map _
      rw [length] at found hit
      simp only [Bool.and_eq_true] at found
      obtain ⟨closing, last, bracket⟩ := (Option.any_eq_true _ _).mp found.2
      obtain ⟨rest', shape⟩ := List.head?_eq_some_iff.mp last
      refine ⟨⟨'[', marked⟩, rest.takeWhile (isDecimal ·.char), closing, rest', ?_, rfl, beq_iff_eq.mp bracket,
        fun g => List.mem_takeWhile_imp, (Option.some.inj hit).symm⟩
      rw [← shape, List.prefix_iff_eq_append.mp (List.takeWhile_prefix _)]
    · cases hit
  · cases hit

/-- A marked character is copied. -/
theorem replaceHits_index_guarded (before : Option Char) (c : Char) (rest : List Glyph) :
    replaceHits indexHit? before 0 (⟨c, true⟩ :: rest) = c :: replaceHits indexHit? (some c) 0 rest := by
  cases hit : indexHit? before (⟨c, true⟩ :: rest) with
  | none => rw [replaceHits, hit]
  | some h =>
    obtain ⟨opening, digits, closing, rest', shape, -, bracket, decimal, rfl⟩ := exists_indexHit hit
    obtain ⟨rfl, rfl⟩ := List.cons.inj shape
    have other : ∀ g ∈ digits, g.char ≠ '[' := by
      intro g mem opens
      have digit := decimal g mem
      rw [opens] at digit
      exact absurd digit (by decide)
    have whole : (⟨c, true⟩ :: (digits ++ closing :: rest')).take (digits.length + 2) = ⟨c, true⟩ :: (digits ++ [closing]) := by
      simp [List.take_append]
    rw [replaceHits_index_copy other _ _ _ (by rw [bracket]; decide), replaceHits, hit]
    simp only [Hit.guardedBy, if_true, whole]
    exact congrArg (c :: unmark (digits ++ [closing]) ++ ·) (replaceHits_skip (some c) digits closing rest')

theorem replaceHits_index_span (before : Option Char) (s : List Char) (rest : List Glyph) :
    replaceHits indexHit? before 0 (guarded s ++ rest) = s ++ replaceHits indexHit? (s.getLast?.or before) 0 rest := by
  induction s generalizing before with
  | nil => rfl
  | cons c s ih =>
    rw [getLast?_cons_or, List.cons_append, ← ih]
    exact replaceHits_index_guarded before c _

/-- No index goes on from a text into a string or a comment. -/
theorem indexHit?_append (starts : ∀ g ∈ glyphs.head?, g.char ∈ spanStarts) (before : Option Char) (c : Char) (cs : List Char) :
    indexHit? before (bare (c :: cs) ++ glyphs) = indexHit? before (bare (c :: cs)) := by
  have start : ∀ c ∈ spanStarts, isDecimal c = false ∧ (c == ']') = false := by decide
  by_cases opens : c = '['
  · subst opens
    have digits : (bare cs ++ glyphs).takeWhile (isDecimal ·.char) = (bare cs).takeWhile (isDecimal ·.char) :=
      Token.takeWhile_append_of_head? fun g first => (start _ (starts g first)).1
    have length : (unmark ((bare cs).takeWhile (isDecimal ·.char))).length ≤ (bare cs).length := by
      rw [unmark, List.length_map]
      exact (List.takeWhile_prefix _).length_le
    have closes : ∀ rest : List Glyph, (rest ++ glyphs).head?.any (·.char == ']') = rest.head?.any (·.char == ']') := by
      intro rest
      cases rest with
      | cons g rest => rfl
      | nil =>
        cases glyphs with
        | nil => rfl
        | cons g glyphs => exact (start _ (starts g rfl)).2
    have shape : bare ('[' :: cs) = ⟨'[', false⟩ :: bare cs := rfl
    simp only [shape, List.cons_append, indexHit?, digits, List.drop_append_of_le_length length, closes, Hit.guardedBy]
    rfl
  · rw [bare, List.map_cons, List.cons_append, indexHit?_eq_none opens, indexHit?_eq_none opens]

end Polish

open Polish

end NoteScript

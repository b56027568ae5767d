import NoteScript.Proofs.Course
import NoteScript.Proofs.Lossless
import NoteScript.Proofs.Parts
import NoteScript.Proofs.Spelling

/-!
# How far an action gets

A cursor is `Sound` when the tokens in front of it are those of a script and the closing one. From a sound
cursor an action moves on over tokens of the script and never behind the closing one.

* `Cursor.Moves`, `Cursor.Advances`: a cursor further on, and one that is at another place.
* `Cursor.size`: the characters still to be read. It measures all work, for moves make it smaller and nested
  token lists are parts of what was read.
* `Proceeds a b c Q`: from the cursor `c` the actions `a` and `b` do the same and get on. With two actions the
  same walk over a rule compares it with the rule under other rules inside.
-/

namespace NoteScript

open Edit

/-! ### Tokens of a script -/

namespace Token

variable {ts : List Token} {t : Token}

/-- A token that a script is cut into: it has a text, it does not close the list, and it is longer than each
expression that it embeds. -/
def isProper (t : Token) : Bool := !t.isEof && !t.text.isEmpty && match t.kind with
    | .template parts => parts.all fun
      | .expr source => source.length < t.text.length
      | .text _ => true
    | _ => true

/-- Tokens of a script and the closing one. -/
def isComplete (ts : List Token) : Bool := ts.getLast? == some eof && ts.dropLast.all isProper

theorem isComplete_iff : isComplete ts = true ↔ ∃ body, ts = body ++ [eof] ∧ ∀ t ∈ body, t.isProper = true := by
  simp only [isComplete, Bool.and_eq_true, beq_iff_eq, List.all_eq_true]
  constructor
  · rintro ⟨last, proper⟩
    exact ⟨ts.dropLast, (List.dropLast_append_getLast? eof last).symm, proper⟩
  · rintro ⟨body, rfl, proper⟩
    simpa using proper

theorem isEof_of_isProper (h : t.isProper = true) : t.isEof = false := by
  simp only [isProper, Bool.and_eq_true, Bool.not_eq_true'] at h
  exact h.1.1

theorem length_pos_of_isProper (h : t.isProper = true) : 0 < t.text.length := by
  simp only [isProper, Bool.and_eq_true, Bool.not_eq_true'] at h
  have nonempty : t.text ≠ "" := by simpa using h.1.2
  exact Nat.pos_of_ne_zero fun zero => nonempty (String.length_eq_zero_iff.mp zero)

theorem embedded_of_isProper (h : t.isProper = true) {parts : List TemplatePart} (kind : t.kind = .template parts)
    {source : String} (mem : .expr source ∈ parts) : source.length < t.text.length := by
  simp only [isProper, kind, Bool.and_eq_true, List.all_eq_true] at h
  simpa using h.2 _ mem

theorem isEof_of_isOperator {texts : List String} (h : t.isOperator texts = true) : t.isEof = false := by
  simp only [isOperator, Bool.and_eq_true, beq_iff_eq] at h
  simp [isEof, h.1]

theorem isEof_of_isIdentifier (h : t.isIdentifier = true) : t.isEof = false := by
  simp only [isIdentifier, beq_iff_eq] at h
  simp [isEof, h]

theorem isEof_of_isWord {word : String} (h : t.isWord word = true) : t.isEof = false := by
  simp only [isWord, Bool.and_eq_true, beq_iff_eq] at h
  simp [isEof, h.1]

/-! ### What a script is cut into -/

theorem expr_notMem_textPart (held : List Char) (source : String) : .expr source ∉ textPart held := by
  unfold textPart
  split <;> simp

/-- An expression in a template is no longer than the text it was read from. -/
theorem templateBody_below (depth : Nat) (held cs : List Char) : ∀ source, .expr source ∈ (templateBody depth held cs).1 →
      source.length ≤ held.length + (templateBody depth held cs).2 := by
  fun_induction templateBody depth held cs with intro source mem
  | case1 held | case4 held c rest => exact absurd mem (expr_notMem_textPart held source)
  | case2 held rest parts n read ih =>
    rcases List.mem_append.mp mem with text | later
    · exact absurd text (expr_notMem_textPart held source)
    · have inside := ih source (by rwa [read])
      simp only [read, List.length_nil] at inside
      omega
  | case3 held c rest parts n read ih | case5 held c rest _ _ _ parts n read ih =>
    have inside := ih source (by rwa [read])
    simp only [read, List.length_cons] at inside
    omega
  | case8 depth held c rest closes depth' parts n read ih =>
    have inside := ih source (by rwa [read])
    simp only [read, List.length_cons] at inside
    omega
  | case6 depth held =>
    cases List.mem_singleton.mp mem
    simp
  | case7 depth held c rest closes parts n read ih =>
    rcases List.mem_cons.mp mem with same | later
    · cases same
      simp
    · have inside := ih source (by rwa [read])
      simp only [read, List.length_nil] at inside
      omega

/-- Templates start with their mark. -/
theorem first_eq_template {divides : Bool} {c : Char} {rest : List Char} {parts : List TemplatePart}
    (template : (first divides c rest).1 = .template parts) :
    c = backtick ∧ first divides c rest = (.template (templateBody 0 [] rest).1, 1 + (templateBody 0 [] rest).2) := by
  by_cases marked : c = backtick
  · subst marked
    exact ⟨rfl, rfl⟩
  have noSymbol : (symbol c rest).1 ≠ .template parts := by
    unfold symbol
    split
    · simp
    · split_ifs <;> simp
  refine absurd template ?_
  apply first_induction divides c rest (P := fun found => found.1 ≠ .template parts) <;> try simp
  · exact fun same => absurd same marked
  · exact noSymbol

/-- A template is its mark and the body that is read behind it. -/
theorem Cut.exists_template {divides : Bool} {cs : List Char} {t : Token} {parts : List TemplatePart}
    (h : Cut divides cs (t :: ts)) (kind : t.kind = .template parts) : ∃ rest, (templateBody 0 [] rest).1 = parts ∧
      t.text.toList = backtick :: rest.take (templateBody 0 [] rest).2 ∧
      ∃ divides', Cut divides' (rest.drop (templateBody 0 [] rest).2) ts := by
  cases h with
  | @token _ c rest after _ _ same size split later =>
    obtain ⟨rfl, spelled⟩ := first_eq_template (same.symm.trans kind)
    rw [spelled] at same size
    have long : t.text.toList.length = (templateBody 0 [] rest).2 + 1 := by rw [String.length_toList, size, Nat.add_comm]
    have behind : after = rest.drop (templateBody 0 [] rest).2 := by
      rw [← List.drop_succ_cons, ← split, ← long, List.drop_left]
    refine ⟨rest, Kind.template.inj (same.symm.trans kind), ?_, _, behind ▸ later⟩
    rw [← List.take_succ_cons, ← split, ← long, List.take_left]

/-- What the first token of a text embeds is shorter than the token. -/
theorem first_embedded {divides : Bool} {c : Char} {rest : List Char} {parts : List TemplatePart}
    (template : (first divides c rest).1 = .template parts) {source : String} (mem : .expr source ∈ parts) :
    source.length < (first divides c rest).2 := by
  obtain ⟨-, spelled⟩ := first_eq_template template
  rw [spelled] at template ⊢
  cases template
  have inside := templateBody_below 0 [] rest source mem
  simp only [List.length_nil] at inside
  dsimp only
  omega

/-- Every token of a cut is proper. -/
theorem Cut.proper {divides : Bool} {cs : List Char} (h : Cut divides cs ts) : ∀ t ∈ ts, t.isProper = true := by
  have texts := h.mem_nonempty
  induction h with
  | done => simp
  | @token divides c rest after t ts kind size _ cut ih =>
    obtain ⟨⟨inside, nonempty⟩, later⟩ := List.forall_mem_cons.mp texts
    refine List.forall_mem_cons.mpr ⟨?_, ih later⟩
    have embeds : ∀ parts, t.kind = .template parts → ∀ source, .expr source ∈ parts → source.length < t.text.length := by
      intro parts template source mem
      rw [size]
      exact first_embedded (kind ▸ template) mem
    simp only [isProper, inside, Bool.not_false, Bool.true_and, Bool.and_eq_true, Bool.not_eq_true']
    refine ⟨by simpa using nonempty, ?_⟩
    split
    · rename_i parts template
      rw [List.all_eq_true]
      intro part mem
      cases part with
      | text raw => rfl
      | expr source => simpa using embeds parts template source mem
    · rfl

theorem proper_scan (source : String) : ∀ t ∈ scan source, t.isProper = true := (scanFrom_cut false source.toList).proper

theorem textSize_eq_length (ts : List Token) : textSize ts = (ts.flatMap fun t => t.text.toList).length := by
  induction ts with
  | nil => rfl
  | cons t ts ih => rw [textSize, ih, List.flatMap_cons, List.length_append, String.length_toList]

/-- The tokens of a text have its characters. -/
theorem textSize_scan (source : String) : textSize (scan source) = source.length := by
  have joined := (scanFrom_cut false source.toList).join_eq
  rw [textSize_eq_length, scan, joined, String.length_toList]

/-- No proper token is empty. -/
theorem textSize_pos (proper : ∀ t ∈ ts, t.isProper = true) (nonempty : ts ≠ []) : 0 < textSize ts := by
  cases ts with
  | nil => exact absurd rfl nonempty
  | cons t ts => exact Nat.lt_of_lt_of_le (length_pos_of_isProper (proper t List.mem_cons_self)) (Nat.le_add_right _ _)

end Token

/-! ### Cursors -/

namespace Cursor

/-- The characters still to be read. -/
def size (c : Cursor) : Nat := Token.textSize c.rest

/-- A cursor in front of tokens of a script and the closing one. -/
def isSound (c : Cursor) : Bool := c.overrun == 0 && Token.isComplete c.rest

/-- The same as a statement. -/
def Sound (c : Cursor) : Prop := ∃ body, c.rest = body ++ [.eof] ∧ (∀ t ∈ body, t.isProper = true) ∧ c.overrun = 0

theorem isSound_iff {c : Cursor} : c.isSound = true ↔ c.Sound := by
  simp only [isSound, Bool.and_eq_true, beq_iff_eq, Token.isComplete_iff, Sound]
  tauto

/-- One cursor is further on than another, by tokens of the script. -/
def Moves (c c' : Cursor) : Prop :=
  ∃ passed, (∀ t ∈ passed, t.isEof = false) ∧ c.rest = passed ++ c'.rest ∧ c'.before = passed.reverse ++ c.before ∧
    c'.overrun = c.overrun

/-- It is at another place. -/
def Advances (c c' : Cursor) : Prop := c.Moves c' ∧ c.pos < c'.pos

variable {c c' c'' : Cursor}

namespace Moves

theorem refl (c : Cursor) : c.Moves c := ⟨[], by simp⟩

theorem trans (h : c.Moves c') (h' : c'.Moves c'') : c.Moves c'' := by
  obtain ⟨passed, inside, split, back, overrun⟩ := h
  obtain ⟨passed', inside', split', back', overrun'⟩ := h'
  refine ⟨passed ++ passed', ?_, by rw [split, split', List.append_assoc], by simp [back, back'], overrun'.trans overrun⟩
  intro t mem
  rcases List.mem_append.mp mem with mem | mem
  · exact inside t mem
  · exact inside' t mem

theorem pos_le (h : c.Moves c') : c.pos ≤ c'.pos := by
  obtain ⟨passed, -, -, back, overrun⟩ := h
  simp only [pos, back, overrun, List.length_append]
  omega

/-- The passed tokens of a sound cursor are proper, and what is left is complete. -/
theorem parts (h : c.Moves c') (sound : c.Sound) :
    ∃ passed, (∀ t ∈ passed, t.isProper = true) ∧ c.rest = passed ++ c'.rest ∧ c'.before = passed.reverse ++ c.before ∧ c'.Sound := by
  obtain ⟨passed, inside, split, back, overrun⟩ := h
  obtain ⟨body, shape, proper, zero⟩ := sound
  rcases List.append_eq_append_iff.mp (shape.symm.trans split) with ⟨more, rfl, last⟩ | ⟨left, rfl, rest⟩
  · -- all of the script was passed, and nothing more, for the closing token is not passed
    rcases more with _ | ⟨t, more⟩
    · simp only [List.append_nil] at *
      exact ⟨body, proper, split, back, [], last.symm, by simp, overrun.trans zero⟩
    · simp only [List.cons_append, List.cons.injEq] at last
      have passes := inside t (by simp)
      rw [← last.1] at passes
      cases passes
  · refine ⟨passed, fun t mem => proper t (List.mem_append_left _ mem), split, back, left, rest, ?_, overrun.trans zero⟩
    exact fun t mem => proper t (List.mem_append_right _ mem)

theorem sound (h : c.Moves c') (sound : c.Sound) : c'.Sound := by
  obtain ⟨_, _, _, _, sound'⟩ := h.parts sound
  exact sound'

theorem size_le (h : c.Moves c') : c'.size ≤ c.size := by
  obtain ⟨passed, _, split, _⟩ := h
  rw [size, size, split, Token.textSize_append]
  exact Nat.le_add_left _ _

theorem passedSince (h : c.Moves c') : c.rest = c'.passedSince c ++ c'.rest := by
  obtain ⟨passed, -, split, -⟩ := h
  simp [Cursor.passedSince, split]

end Moves

namespace Advances

theorem trans_moves (h : c.Advances c') (h' : c'.Moves c'') : c.Advances c'' := ⟨h.1.trans h', Nat.lt_of_lt_of_le h.2 h'.pos_le⟩

theorem length_lt (h : c.Advances c') : c'.rest.length < c.rest.length := by
  obtain ⟨⟨passed, -, split, back, overrun⟩, further⟩ := h
  simp only [pos, back, overrun, List.length_append, List.length_reverse] at further
  rw [split, List.length_append]
  omega

theorem size_lt (h : c.Advances c') (sound : c.Sound) : c'.size < c.size := by
  obtain ⟨passed, proper, split, -, -⟩ := h.1.parts sound
  have nonempty : passed ≠ [] := by
    rintro rfl
    exact absurd h.length_lt (by simp [split])
  have positive := Token.textSize_pos proper nonempty
  rw [size, size, split, Token.textSize_append]
  omega

end Advances

/-! ### Steps of a sound cursor -/

namespace Sound

section

variable (sound : c.Sound)
include sound

theorem advanceBy {n : Nat} (inside : n < c.rest.length) : c.Moves (c.advanceBy n) ∧ (c.advanceBy n).pos = c.pos + n := by
  obtain ⟨body, shape, proper, overrun⟩ := sound
  obtain ⟨before, rest, overrun⟩ := c
  subst shape overrun
  have fits : n ≤ body.length := by simpa [Nat.lt_succ_iff] using inside
  have taken : (body.take n).length = n := List.length_take_of_le fits
  have stepped := advanceBy_append before (body.take n) (body.drop n ++ [Token.eof])
  rw [taken, ← List.append_assoc, List.take_append_drop] at stepped
  rw [stepped]
  refine ⟨⟨body.take n, ?_, by simp [← List.append_assoc], rfl, rfl⟩, ?_⟩
  · exact fun t mem => Token.isEof_of_isProper (proper t (List.mem_of_mem_take mem))
  · simp only [pos, List.length_append, List.length_reverse, taken]
    omega

theorem length_pos : 0 < c.rest.length := by
  obtain ⟨body, shape, -, -⟩ := sound
  simp [shape]

/-- A loop over the tokens has room for a step. -/
theorem exists_succ {limit : Nat} (enough : c.rest.length ≤ limit) : ∃ k, limit = k + 1 :=
  ⟨limit - 1, by have := sound.length_pos; omega⟩

theorem advances_advanceBy {n : Nat} (inside : n < c.rest.length) (positive : 0 < n) : c.Advances (c.advanceBy n) := by
  obtain ⟨moves, further⟩ := sound.advanceBy inside
  exact ⟨moves, by omega⟩

/-- The closing token is the last one. -/
theorem succ_lt_length {i : Nat} (inside : (c.rest.getD i .eof).isEof = false) : i + 1 < c.rest.length := by
  obtain ⟨body, shape, -, -⟩ := sound
  rw [shape] at inside ⊢
  rw [List.length_append, List.length_singleton]
  by_contra outside
  have last : i = body.length ∨ body.length < i := by omega
  rcases last with rfl | beyond
  · simp [Token.eof, Token.isEof] at inside
  · have missing : (body ++ [Token.eof]).getD i .eof = .eof := by
      simp [List.getD_eq_getElem?_getD, List.getElem?_append, show ¬ i < body.length from by omega,
        show ¬ i - body.length < 1 from by omega]
    rw [missing] at inside
    cases inside

theorem advance (inside : c.atEnd = false) : c.Advances c.advance := by
  have here : (c.rest.getD 0 .eof).isEof = false := by
    rwa [← List.headD_eq_getD] 
  exact sound.advances_advanceBy (n := 1) (sound.succ_lt_length here) Nat.one_pos

/-- Tokens of a class that the closing one is not of. -/
theorem run {p : Token → Bool} (outside : p .eof = false) : c.Moves (c.advanceBy (c.run p).length) := by
  refine (sound.advanceBy ?_).1
  obtain ⟨body, shape, -, -⟩ := sound
  have within : ((body ++ [Token.eof]).takeWhile p).length ≤ body.length := by
    rw [List.takeWhile_append]
    split
    · simp [outside]
    · exact (List.takeWhile_sublist p).length_le
  rw [Cursor.run, shape, List.length_append, List.length_singleton]
  omega

theorem skipTrivia : c.Moves c.skipTrivia := sound.run rfl

theorem skipSpace : c.Moves c.skipSpace := sound.run rfl

end

end Sound

theorem ahead_fst (c : Cursor) (k : Nat) : (c.ahead k).1 = c.rest.getD (c.ahead k).2 .eof := by
  have split : c.rest.drop k = (c.rest.drop k).takeWhile Token.isTrivia ++ (c.rest.drop k).dropWhile Token.isTrivia :=
    List.takeWhile_append_dropWhile.symm
  have found : c.rest[(c.ahead k).2]? = ((c.rest.drop k).dropWhile Token.isTrivia)[0]? := by
    rw [ahead, ← List.getElem?_drop]
    nth_rewrite 1 [split]
    rw [List.getElem?_append_right (Nat.le_refl _), Nat.sub_self]
  rw [List.getD_eq_getElem?_getD, found, ← List.head?_eq_getElem?, ← List.headD_eq_head?_getD]
  rfl

namespace Sound

theorem ahead (sound : c.Sound) {k : Nat} (inside : (c.ahead k).1.isEof = false) : (c.ahead k).2 + 1 < c.rest.length := by
  rw [c.ahead_fst] at inside
  exact sound.succ_lt_length inside

theorem current_ahead (sound : c.Sound) {k : Nat} (inside : (c.ahead k).1.isEof = false) :
    (c.advanceBy (c.ahead k).2).current = (c.ahead k).1 := by
  obtain ⟨before, rest, overrun⟩ := c
  obtain ⟨body, -, -, rfl⟩ := id sound
  have fits : (Cursor.ahead ⟨before, rest, 0⟩ k).2 ≤ rest.length := by
    have found : _ < rest.length := sound.ahead inside
    omega
  have stepped := advanceBy_append before (rest.take (Cursor.ahead ⟨before, rest, 0⟩ k).2)
    (rest.drop (Cursor.ahead ⟨before, rest, 0⟩ k).2)
  rw [List.length_take_of_le fits, List.take_append_drop] at stepped
  rw [stepped, ahead_fst]
  simp [current, List.head?_drop, List.headD_eq_head?_getD, List.getD_eq_getElem?_getD]

end Sound

/-! ### Groups -/

namespace Sound

theorem proper (sound : c.Sound) {t : Token} (mem : t ∈ c.rest) (inside : t.isEof = false) : t.isProper = true := by
  obtain ⟨body, shape, proper, -⟩ := sound
  rw [shape, List.mem_append, List.mem_singleton] at mem
  rcases mem with mem | rfl
  · exact proper t mem
  · cases inside

/-- At the end there is the closing token alone. -/
theorem rest_of_atEnd (sound : c.Sound) (ended : c.atEnd = true) : c.rest = [.eof] ∧ c.overrun = 0 := by
  obtain ⟨body, shape, proper, overrun⟩ := sound
  refine ⟨?_, overrun⟩
  cases body with
  | nil => exact shape
  | cons t body =>
    have inside := Token.isEof_of_isProper (proper t List.mem_cons_self)
    simp [atEnd, current, shape, inside] at ended

/-- The first token, where it is not the closing one. -/
theorem cons_of_inside (inside : c.atEnd = false) : ∃ t rest, c.rest = t :: rest ∧ t.isEof = false ∧ c.current = t := by
  rcases rest : c.rest with _ | ⟨t, ts⟩
  · simp [atEnd, current, rest, Token.isEof, Token.eof] at inside
  · have first : c.current = t := by rw [current, rest, List.headD_cons]
    exact ⟨t, ts, rfl, by rwa [atEnd, first] at inside, first⟩

/-- A group is taken with its brackets, or refused without passing the end. -/
theorem group (sound : c.Sound) (opener closer : String) : match c.group opener closer with
    | (.ok inside, c') => c.Advances c' ∧ (∀ t ∈ inside, t.isProper = true) ∧ Token.textSize inside < c.size
    | (.error fault, c') => c.Moves c' ∧ fault ≠ .tooDeep := by
  by_cases opens : c.atPunct [opener] = true
  · rw [Cursor.group, if_pos opens]
    obtain ⟨t, ts, shape, first, -⟩ := cons_of_inside (Token.isEof_of_isPunct opens)
    have behind : c.advance.rest = ts := by rw [Cursor.advance, shape]
    rcases found : groupFrom opener closer 0 c.advance.rest with _ | inside
    · exact ⟨sound.run rfl, by simp⟩
    · rw [behind] at found
      obtain ⟨u, rest, rfl, last, within⟩ := groupFrom_eq_some found
      have closing : (c.rest.getD (inside.length + 1) .eof).isEof = false := by simpa [shape] using last
      refine ⟨sound.advances_advanceBy (sound.succ_lt_length closing) (by omega), ?_, ?_⟩
      · intro v mem
        exact sound.proper (by rw [shape]; simp [mem]) (within v mem)
      · have positive := Token.length_pos_of_isProper (sound.proper (by rw [shape]; simp) first)
        rw [size, shape, Token.textSize, Token.textSize_append]
        omega
  · rw [Cursor.group, if_neg opens]
    exact ⟨.refl c, by simp⟩

end Sound

end Cursor

/-! ### Actions that get on -/

/-- From a desk with the cursor `c` the two actions do the same: the cursor moves on, no fault says that the
rules are nested too deep, and `Q` holds of what is returned and of the cursor. -/
def Proceeds {α : Type} (a b : Edit α) (c : Cursor) (Q : α → Cursor → Prop) : Prop :=
  ∀ d : Desk, d.cursor = c → a d = b d ∧ c.Moves (a d).2.cursor ∧ (a d).1 ≠ .error .tooDeep ∧
    ∀ x, (a d).1 = .ok x → Q x (a d).2.cursor

namespace Proceeds

variable {α β : Type} {a b a' b' : Edit α} {f g : α → Edit β} {c : Cursor} {Q Q' : α → Cursor → Prop}
  {R : β → Cursor → Prop}

theorem mono (h : Proceeds a b c Q) (weaker : ∀ x c', c.Moves c' → Q x c' → Q' x c') : Proceeds a b c Q' := by
  intro d here
  obtain ⟨same, moves, shallow, returned⟩ := h d here
  exact ⟨same, moves, shallow, fun x ok => weaker x _ moves (returned x ok)⟩

protected theorem bind (ha : Proceeds a b c Q) (hf : ∀ x c', c.Moves c' → Q x c' → Proceeds (f x) (g x) c' R) :
    Proceeds (a >>= f) (b >>= g) c R := by
  intro d here
  obtain ⟨same, moves, shallow, returned⟩ := ha d here
  rw [bind_apply, bind_apply, ← same]
  rcases first : a d with ⟨fault | x, d'⟩ <;> rw [first] at moves shallow returned
  · exact ⟨rfl, moves, by simpa using shallow, by simp⟩
  · obtain ⟨same', moves', shallow', returned'⟩ := hf x d'.cursor moves (returned x rfl) d' rfl
    exact ⟨same', moves.trans moves', shallow', returned'⟩

protected theorem ite {p : Prop} [Decidable p] (yes : p → Proceeds a b c Q) (no : ¬ p → Proceeds a' b' c Q) :
    Proceeds (if p then a else a') (if p then b else b') c Q := by
  split
  · exact yes ‹p›
  · exact no ‹¬ p›

/-- An action that always returns and leaves the cursor where `m` takes it. -/
theorem of_returns {m : Cursor → Cursor} (moves : c.Moves (m c))
    (h : ∀ d : Desk, d.cursor = c → ∃ x d', a d = (.ok x, d') ∧ d'.cursor = m c ∧ Q x (m c)) : Proceeds a a c Q := by
  intro d here
  obtain ⟨x, d', run, there, holds⟩ := h d here
  rw [run]
  refine ⟨rfl, by rwa [there], by simp, fun y same => ?_⟩
  cases same
  rwa [there]

protected theorem pure {x : α} (holds : Q x c) : Proceeds (Pure.pure x) (Pure.pure x) c Q :=
  of_returns (m := id) (.refl c) fun d here => ⟨x, d, rfl, here, holds⟩

protected theorem throw {fault : Fault} (shallow : fault ≠ .tooDeep) : Proceeds (throw fault : Edit α) (throw fault) c Q := by
  intro d here
  refine ⟨rfl, ?_, fun same => ?_, fun x ok => ?_⟩
  · rw [← here]
    exact .refl _
  · cases same
    exact shallow rfl
  · cases ok

theorem cursor_bind {f g : Cursor → Edit β} (h : Proceeds (f c) (g c) c R) : Proceeds (cursor >>= f) (cursor >>= g) c R := by
  intro d here
  have looked : cursor d = (.ok c, d) := by rw [← here]; rfl
  rw [bind_ok looked, bind_ok looked]
  exact h d here

theorem outcome {d : Desk} (h : Proceeds a b d.cursor Q) : match a d with
    | (.ok x, d') => d.cursor.Moves d'.cursor ∧ Q x d'.cursor
    | (.error fault, d') => fault ≠ .tooDeep ∧ d.cursor.Moves d'.cursor := by
  obtain ⟨-, moves, shallow, returned⟩ := h d rfl
  rcases run : a d with ⟨fault | x, d'⟩ <;> rw [run] at moves shallow returned
  · exact ⟨by simpa using shallow, moves⟩
  · exact ⟨moves, returned x rfl⟩

theorem move {m : Cursor → Cursor} (moves : c.Moves (m c)) : Proceeds (move m) (move m) c fun _ c' => c' = m c :=
  of_returns moves fun d here => ⟨(), { d with cursor := m d.cursor }, rfl, by rw [← here], rfl⟩

end Proceeds

/-- The cursor stays or gets on. -/
abbrev Safe {α : Type} (a b : Edit α) (c : Cursor) : Prop := Proceeds a b c fun _ _ => True

/-- The cursor stays. -/
abbrev Stays {α : Type} (a b : Edit α) (c : Cursor) : Prop := Proceeds a b c fun _ c' => c' = c

/-- The cursor gets on. -/
abbrev Gets {α : Type} (a b : Edit α) (c : Cursor) : Prop := Proceeds a b c fun _ c' => c.Advances c'

namespace Cursor

/-- A sound cursor with less than `n` characters to be read. -/
structure Below (n : Nat) (c : Cursor) : Prop where
  sound : c.Sound
  size_lt : c.size < n

/-- A sound cursor at a token of the script, with `n` characters to be read at most. -/
structure Starts (n : Nat) (c : Cursor) : Prop where
  sound : c.Sound
  size_le : c.size ≤ n
  inside : c.atEnd = false

variable {n : Nat} {c c' : Cursor}

theorem Below.moves (below : c.Below n) (moves : c.Moves c') : c'.Below n :=
  ⟨moves.sound below.sound, Nat.lt_of_le_of_lt moves.size_le below.size_lt⟩

theorem Starts.advances (starts : c.Starts n) (advances : c.Advances c') : c'.Below n :=
  ⟨advances.1.sound starts.sound, Nat.lt_of_lt_of_le (advances.size_lt starts.sound) starts.size_le⟩

end Cursor

section

variable {α β : Type} {n : Nat} {a b : Edit α} {f g : α → Edit β} {c : Cursor} {R : β → Cursor → Prop}

theorem Proceeds.safe {Q : α → Cursor → Prop} (h : Proceeds a b c Q) : Safe a b c := h.mono fun _ _ _ _ => trivial

/-- An action that does not move the cursor, and what follows. -/
theorem Stays.bind (ha : Stays a b c) (hf : ∀ x, Proceeds (f x) (g x) c R) : Proceeds (a >>= f) (b >>= g) c R :=
  Proceeds.bind ha fun x _ _ same => same ▸ hf x

/-- An action, and what is safe wherever it ends. -/
theorem Proceeds.before {Q : α → Cursor → Prop} (h : Proceeds a b c Q) (hf : ∀ x c', Safe (f x) (g x) c') :
    Safe (a >>= f) (b >>= g) c :=
  h.bind fun x c' _ _ => hf x c'

/-- What follows a safe action has no more to read. -/
theorem Safe.bind (ha : Safe a b c) (below : c.Below n) (hf : ∀ x c', c'.Below n → Safe (f x) (g x) c') :
    Safe (a >>= f) (b >>= g) c :=
  Proceeds.bind ha fun x c' moves _ => hf x c' (below.moves moves)

/-- What follows an action that gets on has less to read. -/
theorem Gets.bind (ha : Gets a b c) (starts : c.Starts n) (hf : ∀ x c', c'.Below n → Safe (f x) (g x) c') :
    Gets (a >>= f) (b >>= g) c :=
  Proceeds.bind ha fun x c' _ advances => (hf x c' (starts.advances advances)).mono fun _ _ moves _ =>
    advances.trans_moves moves

end

/-! ### Looking, moving and writing -/

section

variable {α : Type} {n : Nat} {c : Cursor}

theorem Stays.of_returns {a : Edit α} (h : ∀ d : Desk, ∃ x d', a d = (.ok x, d') ∧ d'.cursor = d.cursor) : Stays a a c :=
  Proceeds.of_returns (m := id) (.refl c) fun d here => by
    obtain ⟨x, d', run, there⟩ := h d
    exact ⟨x, d', run, there.trans here, rfl⟩

theorem stays_get : Stays (MonadState.get : Edit Desk) MonadState.get c := .of_returns fun d => ⟨d, d, rfl, rfl⟩

theorem stays_written : Stays written written c := .of_returns fun d => ⟨_, d, rfl, rfl⟩

theorem stays_mark : Stays mark mark c := .of_returns fun d => ⟨_, d, rfl, rfl⟩

theorem stays_emit (entry : String) : Stays (emit entry) (emit entry) c := .of_returns fun _ => ⟨_, _, rfl, rfl⟩

theorem safe_emit (entry : String) : Safe (emit entry) (emit entry) c := (stays_emit _).safe

theorem stays_rework (f : Buffer → Buffer) : Stays (rework f) (rework f) c := .of_returns fun _ => ⟨_, _, rfl, rfl⟩

theorem stays_takeOperand (operatorsEnd : Bool) : Stays (takeOperand operatorsEnd) (takeOperand operatorsEnd) c :=
  .of_returns fun _ => ⟨_, _, rfl, rfl⟩

theorem stays_markStatement : Stays markStatement markStatement c :=
  .of_returns fun d => ⟨_, _, rfl, by dsimp only [Desk.onSheet, Sheet.markStatement]; split <;> rfl⟩

theorem stays_warn (message : String) : Stays (warn message) (warn message) c := .of_returns fun _ => ⟨_, _, rfl, rfl⟩

theorem stays_record (event : Event) : Stays (record event) (record event) c := .of_returns fun _ => ⟨_, _, rfl, rfl⟩

theorem stays_nextLabel : Stays nextLabel nextLabel c := .of_returns fun _ => ⟨_, _, rfl, rfl⟩

theorem stays_ledger (f : Ledger → Ledger) :
    Stays (modify fun d => { d with toLedger := f d.toLedger } : Edit Unit) (modify fun d => { d with toLedger := f d.toLedger }) c :=
  .of_returns fun _ => ⟨_, _, rfl, rfl⟩

section

variable (sound : c.Sound)
include sound

theorem gets_skip {count : Nat} (inside : count < c.rest.length) (positive : 0 < count) : Gets (skip count) (skip count) c :=
  (Proceeds.move (m := (·.advanceBy count)) (sound.advanceBy inside).1).mono fun _ _ _ same =>
    same ▸ sound.advances_advanceBy inside positive

/-- A token of the script is passed. -/
theorem gets_skip_one (inside : c.atEnd = false) : Gets (skip 1) (skip 1) c :=
  (Proceeds.move (m := (·.advanceBy 1)) (sound.advance inside).1).mono fun _ _ _ same => same ▸ sound.advance inside

theorem safe_skip {count : Nat} (inside : count < c.rest.length) : Safe (skip count) (skip count) c :=
  (Proceeds.move (m := (·.advanceBy count)) (sound.advanceBy inside).1).safe

theorem safe_skip_ahead {k : Nat} (inside : (c.ahead k).1.isEof = false) :
    Proceeds (skip (c.ahead k).2) (skip (c.ahead k).2) c fun _ c' => c'.atEnd = false := by
  have within : (c.ahead k).2 < c.rest.length := Nat.lt_of_succ_lt (sound.ahead inside)
  refine (Proceeds.move (m := (·.advanceBy (c.ahead k).2)) (sound.advanceBy within).1).mono fun _ c' _ same => ?_
  rw [same, Cursor.atEnd, sound.current_ahead inside]
  exact inside

theorem safe_skipTrivia : Safe skipTrivia skipTrivia c := (Proceeds.move sound.skipTrivia).safe

theorem safe_skipSpace : Safe skipSpace skipSpace c := (Proceeds.move sound.skipSpace).safe

theorem gets_next (inside : c.atEnd = false) : Proceeds next next c fun t c' => c.rest = t :: c'.rest ∧ c.Advances c' := by
  refine Proceeds.cursor_bind (Proceeds.bind (.move (sound.advance inside).1) fun _ c' _ same => .pure ?_)
  obtain ⟨t, ts, shape, -, first⟩ := Cursor.Sound.cons_of_inside inside
  refine ⟨?_, same ▸ sound.advance inside⟩
  rw [same, first, Cursor.advance, shape]

theorem safe_skipPunct (text : String) : Safe (skipPunct text) (skipPunct text) c :=
  .cursor_bind (.ite (fun here => (gets_skip_one sound (Token.isEof_of_isPunct here)).safe) fun _ => .pure trivial)

/-- A group has proper tokens and is shorter than what is to be read. -/
theorem gets_group (opener closer : String) : Proceeds (group opener closer) (group opener closer) c fun inside c' =>
      c.Advances c' ∧ (∀ t ∈ inside, t.isProper = true) ∧ Token.textSize inside < c.size := by
  intro d here
  have taken := sound.group opener closer
  have run : group opener closer d = ((c.group opener closer).1, { d with cursor := (c.group opener closer).2 }) := by
    rw [← here]
    rfl
  rw [run]
  rcases found : c.group opener closer with ⟨fault | inside, c'⟩ <;> rw [found] at taken
  · refine ⟨rfl, taken.1, by simpa using taken.2, by simp⟩
  · refine ⟨rfl, taken.1.1, by simp, fun x same => ?_⟩
    cases same
    exact taken

end

/-! ### What follows -/

namespace Cursor

variable {f g : Unit → Edit α}

/-- A token of the script is passed, and what follows has less to read. -/
theorem Starts.skip (starts : c.Starts n) (later : ∀ c' : Cursor, c'.Below n → Safe (f ()) (g ()) c') :
    Gets (skip 1 >>= f) (skip 1 >>= g) c :=
  Gets.bind (gets_skip_one starts.sound starts.inside) starts fun _ => later

theorem Below.skip (below : c.Below n) (inside : c.atEnd = false)
    (later : ∀ c' : Cursor, c'.Below n → Safe (f ()) (g ()) c') : Safe (skip 1 >>= f) (skip 1 >>= g) c :=
  Safe.bind (gets_skip_one below.sound inside).safe below fun _ => later

theorem Below.skipTrivia (below : c.Below n) (later : ∀ c' : Cursor, c'.Below n → Safe (f ()) (g ()) c') :
    Safe (Edit.skipTrivia >>= f) (Edit.skipTrivia >>= g) c := Safe.bind (safe_skipTrivia below.sound) below fun _ => later

theorem Below.skipSpace (below : c.Below n) (later : ∀ c' : Cursor, c'.Below n → Safe (f ()) (g ()) c') :
    Safe (Edit.skipSpace >>= f) (Edit.skipSpace >>= g) c := Safe.bind (safe_skipSpace below.sound) below fun _ => later

/-- Rounds with a limit, each of which gets on before the next one: if there is room for all tokens at hand, more room changes
nothing. -/
theorem Below.rounds {a b : Nat → Edit α} {Q : α → Cursor → Prop} (round : ∀ {limit limit' : Nat} {c : Cursor}, c.Below n →
      (∀ c', c.Advances c' → Proceeds (a limit) (b limit') c' Q) → Proceeds (a (limit + 1)) (b (limit' + 1)) c Q)
    {limit limit' : Nat} (below : c.Below n) (enough : c.rest.length ≤ limit) (enough' : c.rest.length ≤ limit') :
    Proceeds (a limit) (b limit') c Q := by
  induction limit generalizing c limit' with
  | zero => exact absurd below.sound.length_pos (by omega)
  | succ limit ih =>
    obtain ⟨limit', rfl⟩ := below.sound.exists_succ enough'
    refine round below fun c' advances => ?_
    have shorter := advances.length_lt
    exact ih (below.moves advances.1) (by omega) (by omega)

end Cursor

/-! ### Scopes -/

theorem Safe.capture {a b : Edit Unit} (h : Safe a b c) : Safe (capture a) (capture b) c := by
  intro d here
  obtain ⟨same, moves, shallow, returned⟩ := h (d.onSheet d.toSheet.beginCapture) here
  have restored : ∀ d : Desk, (d.onSheet d.toSheet.endCapture).cursor = d.cursor := by
    intro d
    unfold Desk.onSheet Sheet.endCapture
    split <;> rfl
  simp only [Edit.capture, ← same]
  rcases inner : a (d.onSheet d.toSheet.beginCapture) with ⟨fault | x, d'⟩ <;> rw [inner] at moves shallow returned
  · exact ⟨trivial, by rwa [restored], by simpa [Except.map] using shallow, by simp [Except.map]⟩
  · exact ⟨trivial, by rwa [restored], by simp [Except.map], by simp⟩

theorem Proceeds.nested {a b : Edit Unit} {tokens : List Token} {Q : Unit → Cursor → Prop}
    (h : Proceeds a b (.ofTokens (tokens ++ [.eof])) Q) : Stays (nested tokens a) (nested tokens b) c := by
  intro d here
  obtain ⟨same, moves, shallow, returned⟩ := h (d.onSheet (.nested tokens)) rfl
  simp only [Edit.nested, ← same]
  rcases inner : a (d.onSheet (.nested tokens)) with ⟨fault | x, d'⟩ <;> rw [inner] at shallow
  · refine ⟨trivial, ?_, by simpa [Except.map] using shallow, by simp [Except.map]⟩
    exact here ▸ .refl _
  · refine ⟨trivial, ?_, by simp [Except.map], fun y _ => here⟩
    exact here ▸ .refl _

theorem Safe.asStatements {a b : Edit Unit} (h : Safe a b c) : Safe (asStatements a) (asStatements b) c := by
  intro d here
  obtain ⟨same, moves, shallow, returned⟩ := h { d with inExpression := false } here
  simp only [Edit.asStatements, ← same]
  exact ⟨trivial, moves, shallow, returned⟩

theorem Safe.enclosedBy {a b : Edit Unit} (enclosure : Enclosure) (h : Safe a b c) :
    Safe (enclosedBy enclosure a) (enclosedBy enclosure b) c := by
  intro d here
  obtain ⟨same, moves, shallow, returned⟩ := h { d with
    enclosures := enclosure :: d.enclosures, journal := d.journal ++ [.entered enclosure.scope] } here
  simp only [Edit.enclosedBy, ← same]
  rcases inner : a { d with
    enclosures := enclosure :: d.enclosures, journal := d.journal ++ [.entered enclosure.scope] } with ⟨fault | x, d'⟩ <;>
    rw [inner] at moves shallow
  · exact ⟨trivial, moves, by simpa [Except.map] using shallow, by simp⟩
  · exact ⟨trivial, moves, by simp [Except.map], by simp⟩

end

end NoteScript

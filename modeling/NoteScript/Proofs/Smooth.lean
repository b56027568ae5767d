import Mathlib.Data.List.Chain
import NoteScript.Proofs.Sentence

/-!
# Smooth texts

Finished code is read once more, character by character: by the passes that spell out updates and leave strings and
comments alone, and by Lua. What they look for starts with a quote or with two marks in a row. A smooth text has neither, nor
braces, and nothing that stands next to it can make such a pair with its first or its last character.

* `Smooth.append`: smooth texts in a row are smooth.
* `Expr.smooth_lua`, `Sentence.smooth_lua`: translations are smooth.
-/

namespace NoteScript

open Text

/-- Two marks in a row that update or join something, or open a comment or a long string. -/
def doubleMarks : List (Char × Char) :=
  [('+', '='), ('-', '='), ('.', '='), ('.', '.'), ('+', '+'), ('-', '-'), ('[', '['), ('[', '=')]

/-- The first ones of such marks. -/
def firstMarks : List Char := ['+', '-', '.', '[']

/-- The second ones of such marks. -/
def secondMarks : List Char := ['=', '.', '+', '-', '[']

theorem mem_of_doubleMarks : ∀ p ∈ doubleMarks, p.1 ∈ firstMarks ∧ p.2 ∈ secondMarks := by decide

/-- Quotes and braces. -/
def outerMarks : List Char := ['"', '\''] ++ ['\x7b', '\x7d']

/-- No two neighbours are a double mark. -/
abbrev NoDoubleMark (cs : List Char) : Prop := cs.IsChain fun a b => (a, b) ∉ doubleMarks

theorem NoDoubleMark.append {cs cs' : List Char} (h : NoDoubleMark cs) (h' : NoDoubleMark cs')
    (meet : cs.getLast?.all (!firstMarks.contains ·) = true ∨ cs'.head?.all (!secondMarks.contains ·) = true) :
    NoDoubleMark (cs ++ cs') := by
  refine List.isChain_append.mpr ⟨h, h', fun a last b head double => ?_⟩
  obtain ⟨first, second⟩ := mem_of_doubleMarks (a, b) double
  rw [Option.mem_def] at last head
  rcases meet with ends | starts
  · simp [last, first] at ends
  · simp [head, second] at starts

/-- A text without quotes, braces and double marks, whose ends take part in none. -/
structure Smooth (s : String) : Prop where
  outer : ∀ c ∈ s.toList, c ∉ outerMarks
  pairs : NoDoubleMark s.toList
  starts : s.toList.head?.all (!secondMarks.contains ·) = true
  ends : s.toList.getLast?.all (!firstMarks.contains ·) = true

instance (s : String) : Decidable (Smooth s) := decidable_of_iff ((∀ c ∈ s.toList, c ∉ outerMarks) ∧ NoDoubleMark s.toList ∧
      s.toList.head?.all (!secondMarks.contains ·) = true ∧ s.toList.getLast?.all (!firstMarks.contains ·) = true)
    ⟨fun ⟨outer, pairs, starts, ends⟩ => ⟨outer, pairs, starts, ends⟩, fun h => ⟨h.outer, h.pairs, h.starts, h.ends⟩⟩

namespace Smooth

variable {s s' : String}

theorem quotes (h : Smooth s) : ∀ c ∈ s.toList, c ∉ ['"', '\''] := fun c hc quote => h.outer c hc (List.mem_append_left _ quote)

/-- Characters that are no marks make a smooth text. -/
theorem flat (h : ∀ c ∈ s.toList, c ∉ outerMarks ++ firstMarks ++ secondMarks) : Smooth s := by
  simp only [List.mem_append, not_or] at h
  constructor
  · exact fun c hc => (h c hc).1.1
  · refine List.isChain_iff_forall_rel_of_append_cons_cons.mpr fun a b before after shape double => ?_
    exact (h a (by simp [shape])).1.2 (mem_of_doubleMarks (a, b) double).1
  · cases head : s.toList.head? with
    | none => rfl
    | some c => simpa using (h c (List.mem_of_mem_head? head)).2
  · cases last : s.toList.getLast? with
    | none => rfl
    | some c => simpa using (h c (List.mem_of_mem_getLast? last)).1.2

theorem append (h : Smooth s) (h' : Smooth s') : Smooth (s ++ s') := by
  constructor
  · intro c hc
    rw [String.toList_append, List.mem_append] at hc
    exact hc.elim (h.outer c) (h'.outer c)
  · rw [String.toList_append]
    exact h.pairs.append h'.pairs (.inl h.ends)
  · rw [String.toList_append, List.head?_append]
    cases head : s.toList.head? with
    | none => exact h'.starts
    | some c => simpa [head] using h.starts
  · rw [String.toList_append, List.getLast?_append]
    cases last : s'.toList.getLast? with
    | none => exact h.ends
    | some c => simpa [last] using h'.ends

theorem joint (h : Smooth s) (nonempty : s ≠ "") (h' : Smooth s') (nonempty' : s' ≠ "") {mark : String}
    (known : mark ∈ [".", "["]) : Smooth (s ++ mark ++ s') := by
  have marks : ∀ mark ∈ [".", "["], (∀ c ∈ mark.toList, c ∉ outerMarks) ∧ NoDoubleMark mark.toList := by decide
  obtain ⟨outer, pairs⟩ := marks mark known
  constructor
  · intro c hc
    simp only [String.toList_append, List.mem_append] at hc
    rcases hc with (hc | hc) | hc
    · exact h.outer c hc
    · exact outer c hc
    · exact h'.outer c hc
  · rw [String.toList_append, String.toList_append]
    exact (h.pairs.append pairs (.inl h.ends)).append h'.pairs (.inr h'.starts)
  · rw [String.toList_append, String.toList_append, List.append_assoc,
      List.head?_append_of_ne_nil _ (mt String.toList_eq_nil_iff.mp nonempty)]
    exact h.starts
  · rw [String.toList_append, List.getLast?_append_of_ne_nil _ (mt String.toList_eq_nil_iff.mp nonempty')]
    exact h'.ends

theorem around {front back : String} (h : Smooth s) (first : Smooth front) (last : Smooth back) : Smooth (front ++ s ++ back) :=
  (first.append h).append last

theorem between {mark : String} (h : Smooth s) (h' : Smooth s') (plain : Smooth mark) : Smooth (s ++ mark ++ s') :=
  (h.append plain).append h'

theorem suffix (h : Smooth s) (h' : Smooth s') : Smooth (s ++ "(" ++ s' ++ ")") :=
  (h.between h' (by decide)).append (by decide)

end Smooth

theorem IsWord.smooth {s : String} (h : IsWord s) : Smooth s := by
  refine .flat fun c hc mark => ?_
  have marks : ∀ c ∈ outerMarks ++ firstMarks ++ secondMarks, Token.continuesName c = false := by decide
  exact h.ne_of_mem hc (marks c mark) rfl

theorem Parameters.smooth_lua (params : Parameters) : Smooth params.lua := by
  cases params with
  | single x => exact x.isWord.smooth
  | several xs =>
    rw [Parameters.lua]
    induction xs with
    | nil => decide
    | cons x xs ih =>
      cases xs with
      | nil => simpa using x.isWord.smooth
      | cons y ys =>
        rw [List.map_cons, List.map_cons, String.intercalate_cons_cons]
        exact x.isWord.smooth.between ih (by decide)

theorem Rules.smooth_asReceiver {s : String} (h : Smooth s) : Smooth (Rules.asReceiver s) := by
  unfold Rules.asReceiver
  split
  · exact h
  · exact h.around (by decide) (by decide)

theorem UnaryMethod.smooth_lua (m : UnaryMethod) {receiver argument : String} (h : Smooth receiver)
    (h' : Smooth argument) : Smooth (m.lua receiver argument) := by
  have receives := Rules.smooth_asReceiver h
  have inside : Smooth (m.inside receiver argument) := by
    cases m with
    | push | join => exact h.between h' (by decide)
    | includes => exact receives.append (h'.around (by decide) (by decide))
    | startsWith | endsWith => exact receives.between h' (h'.around (by decide) (by decide))
  have callee : Smooth m.callee := by cases m <;> decide
  rw [m.lua_eq]
  exact callee.suffix inside

namespace Expr

theorem smooth_choiceText {test yes no : String} (h : Smooth test) (h' : Smooth yes) (h'' : Smooth no) :
    Smooth (choiceText test yes no) := by
  delta choiceText
  exact (((h.around (by decide) (by decide)).append h').between h'' (by decide)).append (by decide)

theorem smooth_lengthText {operand : String} (h : Smooth operand) : Smooth (lengthText operand) := by
  unfold lengthText
  split
  · exact .append (by decide) h
  · exact h.around (by decide) (by decide)

theorem lua_ne_empty {cat : Category} (e : Expr cat) (present : cat.isPresent = true) : e.lua ≠ "" := by
  intro empty
  have starts := e.lua_starts present
  rw [empty] at starts
  cases starts

/-- A translation has neither quotes nor braces nor double marks. -/
theorem smooth_lua {cat : Category} (e : Expr cat) : Smooth e.lua := by
  induction e with rw [lua]
  | choice test yes no h h' h'' => exact smooth_choiceText h h' h''
  | plain e ih | operand p ih | value e ih | last a ih | someArguments args ih => exact ih
  | number n => exact n.isWord.smooth
  | name x => exact x.isWord.smooth
  | length p ih => exact smooth_lengthText ih
  | negation e ih => exact .append (by decide) ih
  | binary sign left right h h' =>
    have between : Smooth (" " ++ sign.lua ++ " ") := by cases sign <;> decide
    have whole := (h.append between).append h'
    simpa only [lua, String.append_assoc] using whole
  | parens e ih | toText p ih => exact ih.around (by decide) (by decide)
  | field p f ih => exact ih.joint (p.lua_ne_empty rfl) f.isWord.smooth f.isWord.1 (by decide)
  | index p e h h' => exact (h.joint (p.lua_ne_empty rfl) h' (e.lua_ne_empty rfl) (by decide)).append (by decide)
  | call p args h h' => exact h.suffix h'
  | link p m args h h' => exact (h.between m.isWord.smooth (by decide)).suffix h'
  | unaryCall p m e h h' => exact m.smooth_lua h h'
  | arrow params e ih => exact ((params.smooth_lua.around (by decide) (by decide)).append ih).append (by decide)
  | more a rest h h' => exact h.between h' (by decide)
  | noArguments => decide

end Expr

theorem Lead.smooth_lua (lead : Lead) : Smooth lead.lua := by
  cases lead with
  | alone | giveBack => decide
  | assign x => exact x.isWord.smooth.append (by decide)
  | declare word known x => exact x.isWord.smooth.around (by decide) (by decide)

theorem Sentence.smooth_lua (s : Sentence) : Smooth s.lua := s.lead.smooth_lua.append s.body.smooth_lua

end NoteScript

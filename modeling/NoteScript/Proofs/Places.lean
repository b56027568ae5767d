import NoteScript.Proofs.Guarantee
import NoteScript.Proofs.Pairing

/-!
# Where a token list stands in the source

The rules read a script as a list of tokens and parts of it (an argument, a condition, an operand) as
lists of their own; what a template embeds is cut anew from its text. `Stands` says where such a list
starts in the source. Main statements:

* `Stands.chars_eq`: the characters of the list stand in the source from that place on.
* `Stands.nested`: what is read on its own from the list stands in the source too; for a template it is a
  part of its text, behind an opening mark (`Cut.spellsOut`).
* `Stands.line_iff`: a line that is counted from the start of the list is the line in the source exactly
  if no line feed stands in front of the list.
-/

namespace NoteScript

namespace Token

/-! ### What a template embeds -/

/-- What a template embeds stands behind an opening mark, unless it began in front of the characters at
hand, where `held` has its first characters. -/
theorem templateBody_expr (depth : Nat) (held cs : List Char) : ∀ inner, .expr inner ∈ (templateBody depth held cs).1 →
      (∃ lead tail, cs.take (templateBody depth held cs).2 = lead ++ '$' :: '\x7b' :: (inner.toList ++ tail)) ∨
      (0 < depth ∧ ∃ tail, held.reverse ++ cs.take (templateBody depth held cs).2 = inner.toList ++ tail) := by
  fun_induction templateBody depth held cs with intro inner mem
  | case1 held | case4 held c rest => exact absurd mem (expr_notMem_textPart held inner)
  | case2 held rest parts n read ih =>
    rw [read] at ih
    rw [Nat.add_comm, List.take_succ_cons, List.take_succ_cons]
    rcases List.mem_append.mp mem with text | later
    · exact absurd text (expr_notMem_textPart held inner)
    · rcases ih inner later with ⟨lead, tail, found⟩ | ⟨-, tail, found⟩
      · exact .inl ⟨'$' :: '\x7b' :: lead, tail, by rw [found]; rfl⟩
      · exact .inl ⟨[], tail, by rw [List.reverse_nil, List.nil_append] at found; rw [found]; rfl⟩
  | case3 held c rest parts n read ih =>
    rw [read] at ih
    rw [Nat.add_comm, List.take_succ_cons, List.take_succ_cons]
    rcases ih inner mem with ⟨lead, tail, found⟩ | ⟨inside, -⟩
    · exact .inl ⟨'\\' :: c :: lead, tail, by rw [found]; rfl⟩
    · exact absurd inside (Nat.lt_irrefl 0)
  | case5 held c rest _ _ _ parts n read ih =>
    rw [read] at ih
    rw [Nat.add_comm, List.take_succ_cons]
    rcases ih inner mem with ⟨lead, tail, found⟩ | ⟨inside, -⟩
    · exact .inl ⟨c :: lead, tail, by rw [found]; rfl⟩
    · exact absurd inside (Nat.lt_irrefl 0)
  | case6 depth held =>
    cases List.mem_singleton.mp mem
    exact .inr ⟨Nat.succ_pos _, [], by simp⟩
  | case7 depth held c rest closes parts n read ih =>
    rw [read] at ih
    rw [Nat.add_comm, List.take_succ_cons]
    rcases List.mem_cons.mp mem with same | later
    · cases same
      exact .inr ⟨Nat.succ_pos _, c :: rest.take n, by simp⟩
    · rcases ih inner later with ⟨lead, tail, found⟩ | ⟨inside, -⟩
      · exact .inl ⟨c :: lead, tail, by rw [found]; rfl⟩
      · exact absurd inside (Nat.lt_irrefl 0)
  | case8 depth held c rest closes depth' parts n read ih =>
    rw [read] at ih
    rw [Nat.add_comm, List.take_succ_cons]
    rcases ih inner mem with ⟨lead, tail, found⟩ | ⟨-, tail, found⟩
    · exact .inl ⟨c :: lead, tail, by rw [found]; rfl⟩
    · exact .inr ⟨Nat.succ_pos _, tail, by rw [← found]; simp⟩

/-- `t.Embeds lead inner`: the token is a template, and behind the characters `lead` of its text and an
opening mark it has the expression `inner`. -/
def Embeds (t : Token) (lead inner : String) : Prop :=
  ∃ parts tail, t.kind = .template parts ∧ .expr inner ∈ parts ∧ t.text = lead ++ "$\x7b" ++ inner ++ tail

/-- `t.SpellsOut`: each expression that the token embeds is found in its text. -/
def SpellsOut (t : Token) : Prop := ∀ parts, t.kind = .template parts → ∀ inner, .expr inner ∈ parts → ∃ lead, t.Embeds lead inner

theorem Cut.spellsOut {divides : Bool} {cs : List Char} {ts : List Token} (h : Cut divides cs ts) : ∀ t ∈ ts, t.SpellsOut := by
  induction h with
  | done => simp
  | token kind size split later ih =>
    refine List.forall_mem_cons.mpr ⟨?_, ih⟩
    intro parts template inner mem
    obtain ⟨rest, rfl, text, -⟩ := (Cut.token kind size split later).exists_template template
    rcases templateBody_expr 0 [] rest inner mem with ⟨lead, tail, found⟩ | ⟨inside, -⟩
    · refine ⟨String.ofList (backtick :: lead), _, String.ofList tail, template, mem, ?_⟩
      apply String.toList_inj.mp
      rw [text, found]
      simp
    · exact absurd inside (Nat.lt_irrefl 0)

theorem spellsOut_tokenize (source : String) : ∀ t ∈ tokenize source, t.SpellsOut := by
  intro t mem
  rcases List.mem_append.mp mem with inside | last
  · exact (scanFrom_cut false source.toList).spellsOut t inside
  · rw [List.mem_singleton.mp last]
    intro parts template
    cases template

end Token

open Token

/-! ### Places of token lists -/

/-- `Stands source offset ts`: the token list `ts` is read from the source at a distance of `offset`
characters from its start. It is the whole script, a part of such a list, or cut from a template in such
a list. -/
inductive Stands (source : String) : Nat → List Token → Prop where
  | script : Stands source 0 (tokenize source)
  | part {offset : Nat} {front part back : List Token} : Stands source offset (front ++ part ++ back) →
      Stands source (offset + textSize front) (part ++ [.eof])
  | embedded {offset : Nat} {front back : List Token} {t : Token} {lead inner : String} :
      Stands source offset (front ++ t :: back) → t.Embeds lead inner →
      Stands source (offset + textSize front + (lead.length + 2)) (tokenize inner)

namespace Stands

variable {source : String} {offset : Nat} {ts : List Token}

theorem spellsOut (h : Stands source offset ts) : ∀ t ∈ ts, t.SpellsOut := by
  induction h with
  | script => exact spellsOut_tokenize source
  | @part _ front part back _ ih =>
    intro t mem
    rcases List.mem_append.mp mem with inside | last
    · exact ih t (by simp [inside])
    · rw [List.mem_singleton.mp last]
      intro parts template
      cases template
  | embedded => exact spellsOut_tokenize _

/-- The characters of the list stand in the source, at its offset. -/
theorem chars_eq (h : Stands source offset ts) :
    ∃ front back, source.toList = front ++ chars ts ++ back ∧ front.length = offset := by
  induction h with
  | script => exact ⟨[], [], by rw [chars_tokenize]; simp, rfl⟩
  | @part offset front part back _ ih =>
    obtain ⟨before, after, text, size⟩ := ih
    refine ⟨before ++ chars front, chars back ++ after, ?_, ?_⟩
    · rw [text]
      simp [chars, eof]
    · rw [List.length_append, size, length_chars]
  | @embedded offset front back t lead inner _ embeds ih =>
    obtain ⟨before, after, text, size⟩ := ih
    obtain ⟨parts, tail, -, -, spelled⟩ := embeds
    refine ⟨before ++ chars front ++ (lead ++ "$\x7b").toList, tail.toList ++ chars back ++ after, ?_, ?_⟩
    · rw [text, chars_tokenize, chars_append, chars_cons, spelled]
      simp
    · simp only [List.length_append, size, length_chars, String.length_toList, String.length_append]
      rfl

/-- What is read on its own from such a list stands in the source too. -/
theorem nested (h : Stands source offset ts) {tokens : List Token} (reads : ReadFrom ts tokens) :
    ∃ offset', Stands source offset' (tokens ++ [.eof]) := by
  cases reads with
  | part inside =>
    obtain ⟨front, back, whole⟩ := inside
    rw [← whole] at h
    exact ⟨_, h.part⟩
  | @embedded t parts inner mem template embedded =>
    obtain ⟨lead, embeds⟩ := h.spellsOut t mem parts template inner embedded
    obtain ⟨front, back, whole⟩ := List.append_of_mem mem
    rw [whole] at h
    exact ⟨_, h.embedded embeds⟩

end Stands

/-! ### Lines -/

theorem Cursor.lineAfter_eq (ts : List Token) : lineAfter ts = 1 + feeds ts := by
  induction ts with
  | nil => rfl
  | cons t ts ih =>
    rw [lineAfter, ih, feeds_cons]
    omega

theorem Token.feeds_reverse (ts : List Token) : feeds ts.reverse = feeds ts := by
  induction ts with
  | nil => rfl
  | cons t ts ih =>
    rw [List.reverse_cons, feeds_append, ih, feeds_cons, feeds_cons, feeds_nil]
    omega

theorem Token.textSize_reverse (ts : List Token) : textSize ts.reverse = textSize ts := by
  rw [← length_chars, ← length_chars]
  simp [chars, List.length_flatMap, List.sum_reverse]

/-- The line of a cursor counts the line feeds of the source from the start of the list that the cursor
is on. -/
theorem Stands.line_eq {source : String} {offset : Nat} {c : Cursor} (h : Stands source offset c.tokens) :
    c.line = 1 + ((source.toList.drop offset).take (textSize c.before)).count '\n' := by
  obtain ⟨front, back, text, size⟩ := h.chars_eq
  have behind : source.toList.drop offset = chars c.before.reverse ++ (chars c.rest ++ back) := by
    rw [text, Cursor.tokens, chars_append, List.append_assoc, List.append_assoc, List.drop_left' size]
  have taken : (source.toList.drop offset).take (textSize c.before) = chars c.before.reverse := by
    rw [behind]
    exact List.take_left' (by rw [length_chars, textSize_reverse])
  rw [taken, Cursor.line, Cursor.lineAfter_eq, ← feeds_reverse, feeds]

/-- It is the line in the source exactly if the list starts on the first line. -/
theorem Stands.line_iff {source : String} {offset : Nat} {c : Cursor} (h : Stands source offset c.tokens) :
    c.line = lineAt source (offset + textSize c.before) ↔ '\n' ∉ source.toList.take offset := by
  rw [h.line_eq, lineAt, List.take_add, List.count_append, ← List.count_eq_zero]
  omega

end NoteScript

import NoteScript.Buffer.Basic
import NoteScript.Proofs.Words

/-!
# The words of a buffer

The keywords that close a construct are put behind its body by reworking the buffer: blank entries are
dropped, others are put in, and the body of a loop may be wrapped. Here that is followed word by word.

* `Dense ws es`: entries that start and end with text, with the words `ws`.
* `Laid lead ws es`: what is written for a block, with blank entries at its ends; `lead` are those at its start.
* `exists_emitClause`: a keyword behind such entries keeps all words and is a word of its own.
* `exists_labelBody`: so does wrapping the body of a loop.
-/

namespace NoteScript.Buffer

open Text

variable {es lead front : Buffer} {ws ws' : List String} {label : String}

theorem text_append (a b : Buffer) : text (a ++ b) = text a ++ text b := by
  simp [text, String.join_append]

theorem text_singleton (e : String) : text [e] = e := by
  simp [text]

/-- Entries of nothing but white space, none of them empty. -/
def Blank (es : Buffer) : Prop := ∀ e ∈ es, isBlank e = true ∧ e ≠ ""

/-- Entries that start and end with text, and their words. -/
structure Dense (ws : List String) (es : Buffer) : Prop where
  starts : es.head?.any startsSolid = true
  ends : es.getLast?.any endsSolid = true
  words_eq : words (text es) = ws

theorem startsSolid_text (h : es.head?.any startsSolid = true) : startsSolid (text es) = true := by
  rcases es with _ | ⟨e, es⟩
  · cases h
  · rw [← List.singleton_append, text_append, text_singleton]
    exact startsSolid_append h _

theorem endsSolid_text (h : es.getLast?.any endsSolid = true) : endsSolid (text es) = true := by
  rcases List.eq_nil_or_concat es with rfl | ⟨front, e, rfl⟩
  · cases h
  · rw [List.concat_eq_append, text_append, text_singleton]
    exact endsSolid_append _ (by simpa using h)

theorem isBlank_text (h : ∀ e ∈ es, isBlank e = true) : isBlank (text es) = true := by
  rw [isBlank, text, String.toList_join, List.all_flatMap, List.all_eq_true]
  exact h

namespace Blank

theorem append {a b : Buffer} (ha : Blank a) (hb : Blank b) : Blank (a ++ b) := List.forall_mem_append.mpr ⟨ha, hb⟩

theorem isBlank_text {es : Buffer} (h : Blank es) : isBlank (text es) = true := Buffer.isBlank_text fun e he => (h e he).1

theorem text_ne_empty {es : Buffer} (h : Blank es) (nonempty : es ≠ []) : text es ≠ "" := by
  rcases es with _ | ⟨e, es⟩
  · exact absurd rfl nonempty
  · intro empty
    have chars : (text (e :: es)).toList = [] := by rw [empty]; rfl
    simp only [text, String.join_cons, String.toList_append, List.append_eq_nil_iff] at chars
    exact (h e List.mem_cons_self).2 (String.toList_eq_nil_iff.mp chars.1)

theorem startsWithSpace_head {e : String} {es : Buffer} (h : Blank (e :: es)) : startsWithSpace e = true := by
  obtain ⟨blank, nonempty⟩ := h e List.mem_cons_self
  have all : ∀ c ∈ e.toList, isSpace c = true := List.all_eq_true.mp blank
  rw [startsWithSpace]
  rcases chars : e.toList with _ | ⟨c, cs⟩
  · exact absurd (String.toList_eq_nil_iff.mp chars) nonempty
  · simpa [chars] using all c (by simp [chars])

end Blank

namespace Dense

variable {ws ws' : List String} {a b : Buffer}

theorem word {e : String} (nonempty : e ≠ "") (solid : ∀ c ∈ e.toList, isSpace c = false) :
    Dense [e] [e] where
  starts := startsSolid_of_solid nonempty solid
  ends := endsSolid_of_solid nonempty solid
  words_eq := by rw [text_singleton, words_of_solid nonempty solid]

theorem keyword (first : String) {front x : String} (opens : front = first ++ " ") (starts : startsSolid first = true)
    (nonempty : x ≠ "") (solid : ∀ c ∈ x.toList, isSpace c = false) : Dense (words first ++ [x]) [front ++ x] := by
  subst opens
  refine ⟨?_, ?_, ?_⟩
  · simpa [String.append_assoc] using startsSolid_append starts (" " ++ x)
  · simpa using endsSolid_append (first ++ " ") (endsSolid_of_solid nonempty solid)
  · rw [text_singleton, words_blank, words_of_solid nonempty solid]

theorem words_ne_nil (h : Dense ws a) : ws ≠ [] := by
  rw [← h.words_eq]
  exact Text.words_ne_nil (startsSolid_text h.starts)

theorem head_append (h : Dense ws a) (b : Buffer) : (a ++ b).head?.any startsSolid = true := by
  have starts := h.starts
  rcases a with _ | ⟨e, a⟩
  · cases starts
  · exact starts

theorem getLast_append (h : Dense ws b) (a : Buffer) : (a ++ b).getLast?.any endsSolid = true := by
  have ends := h.ends
  rcases last : b.getLast? with _ | e
  · simp [last] at ends
  · simpa [List.getLast?_append, last] using ends

/-- Blank entries between two texts keep their words apart. -/
theorem append_blank {gap : Buffer} (ha : Dense ws a) (blank : Blank gap) (nonempty : gap ≠ [])
    (hb : Dense ws' b) : Dense (ws ++ ws') (a ++ gap ++ b) where
  starts := by
    rw [List.append_assoc]
    exact ha.head_append _
  ends := hb.getLast_append _
  words_eq := by
    rw [text_append, text_append, words_append_blank blank.isBlank_text (blank.text_ne_empty nonempty), ha.words_eq, hb.words_eq]

/-- Without anything between them they share a word. -/
theorem append_glue (ha : Dense ws a) (hb : Dense ws' b) : Dense (glue ws ws') (a ++ b) where
  starts := ha.head_append _
  ends := hb.getLast_append _
  words_eq := by
    rw [text_append, words_glue (endsSolid_text ha.ends) (startsSolid_text hb.starts), ha.words_eq, hb.words_eq]

end Dense

theorem Dense.between (first last : String) {front x back : String} (opens : front = first ++ " ")
    (closes : back = " " ++ last) (starts : startsSolid first = true) (ends : endsSolid last = true) (nonempty : x ≠ "")
    (solid : ∀ c ∈ x.toList, isSpace c = false) : Dense (words first ++ x :: words last) [front ++ x ++ back] := by
  subst opens closes
  refine ⟨?_, ?_, ?_⟩
  · simpa [String.append_assoc] using startsSolid_append starts (" " ++ x ++ (" " ++ last))
  · simpa [String.append_assoc] using endsSolid_append (first ++ " " ++ x ++ " ") ends
  · rw [text_singleton, ← String.append_assoc, words_blank, words_blank, words_of_solid nonempty solid,
      List.append_assoc, List.singleton_append]

/-! ### Blocks -/

/-- What is written for the statements of a block: blank entries at its start and its end, and between
them either nothing or the words. -/
def Laid (lead : Buffer) (ws : List String) (es : Buffer) : Prop :=
  ∃ core trail, es = lead ++ core ++ trail ∧ Blank lead ∧ Blank trail ∧ (core = [] ∧ ws = [] ∨ Dense ws core)

/-- What is written for a body behind its head: if it has words, there are blank entries in front. -/
def Body (ws : List String) (es : Buffer) : Prop := ∃ lead core trail, es = lead ++ core ++ trail ∧ Blank lead ∧ Blank trail ∧
    (core = [] ∧ ws = [] ∨ lead ≠ [] ∧ Dense ws core)

/-- A dense text with blank entries behind it. -/
def Loose (ws : List String) (es : Buffer) : Prop := ∃ front trail, es = front ++ trail ∧ Dense ws front ∧ Blank trail

theorem Laid.words_eq (h : Laid lead ws es) : words (text es) = ws := by
  obtain ⟨core, trail, rfl, blank, blank', ⟨rfl, rfl⟩ | dense⟩ := h
  · rw [List.append_nil]
    exact words_of_isBlank (blank.append blank').isBlank_text
  · rw [List.append_assoc, text_append, words_blank_append blank.isBlank_text, text_append, words_append (.inr ?_),
      dense.words_eq, words_of_isBlank blank'.isBlank_text, List.append_nil]
    have all : ∀ c ∈ (text trail).toList, isSpace c = true := List.all_eq_true.mp blank'.isBlank_text
    rcases chars : (text trail).toList with _ | ⟨c, cs⟩
    · rfl
    · simpa using all c (by simp [chars])

/-- A text in front of a block that starts with white space, or has no words. -/
theorem Laid.cons {gap a : Buffer} (h : Laid lead ws' es) (blank : Blank gap)
    (dense : Dense ws a) (apart : lead ≠ [] ∨ ws' = []) : Laid gap (ws ++ ws') (gap ++ a ++ es) := by
  obtain ⟨core, trail, rfl, blanks, blanks', ⟨rfl, rfl⟩ | inner⟩ := h
  · exact ⟨a, lead ++ trail, by simp, blank, blanks.append blanks', .inr (by simpa using dense)⟩
  · rcases apart with nonempty | rfl
    · exact ⟨a ++ lead ++ core, trail, by simp, blank, blanks', .inr (dense.append_blank blanks nonempty inner)⟩
    · exact absurd rfl inner.words_ne_nil

theorem Laid.cons_glue {gap a : Buffer} (h : Laid [] ws' es) (blank : Blank gap)
    (dense : Dense ws a) (nonempty : ws' ≠ []) : Laid gap (glue ws ws') (gap ++ a ++ es) := by
  obtain ⟨core, trail, rfl, _, blanks', ⟨_, rfl⟩ | inner⟩ := h
  · exact absurd rfl nonempty
  · exact ⟨a ++ core, trail, by simp, blank, blanks', .inr (dense.append_glue inner)⟩

theorem separateAt_append (out es : Buffer) : separateAt (out ++ es) out.length = match es with
    | [] => out
    | e :: es => if startsWithSpace e then out ++ e :: es else out ++ " " :: e :: es := by
  unfold separateAt
  rcases es with _ | ⟨e, es⟩
  · simp
  · simp

/-- Keeping a block apart from its head makes it a body. -/
theorem Laid.exists_separateAt (h : Laid lead ws es) (out : Buffer) :
    ∃ es', separateAt (out ++ es) out.length = out ++ es' ∧ Body ws es' := by
  obtain ⟨core, trail, rfl, blank, blank', content⟩ := h
  rw [separateAt_append]
  rcases lead with _ | ⟨e, lead⟩
  · rcases content with ⟨rfl, rfl⟩ | dense
    · -- nothing but blank entries
      rcases trail with _ | ⟨e, trail⟩
      · exact ⟨[], by simp, [], [], [], rfl, blank, blank', .inl ⟨rfl, rfl⟩⟩
      · refine ⟨e :: trail, ?_, [], [], e :: trail, rfl, blank, blank', .inl ⟨rfl, rfl⟩⟩
        simp [blank'.startsWithSpace_head]
    · have starts := dense.starts
      rcases core with _ | ⟨e, core⟩
      · cases starts
      · have solid : startsWithSpace e = false := by
          have first : startsSolid e = true := starts
          rw [startsSolid] at first
          rw [startsWithSpace]
          rcases chars : e.toList with _ | ⟨c, cs⟩
          · rfl
          · simpa [chars] using first
        refine ⟨" " :: (e :: core ++ trail), by simp [solid], [" "], e :: core, trail, by simp, ?_, blank', .inr ⟨by simp, dense⟩⟩
        intro e he
        rw [List.mem_singleton.mp he]
        decide
  · have space := blank.startsWithSpace_head
    refine ⟨e :: lead ++ core ++ trail, by simp [space], e :: lead, core, trail, rfl, blank, blank', ?_⟩
    rcases content with nothing | dense
    · exact .inl nothing
    · exact .inr ⟨by simp, dense⟩

theorem Body.loose (h : Body ws' es) (dense : Dense ws front) : Loose (ws ++ ws') (front ++ es) := by
  obtain ⟨lead, core, trail, rfl, blank, blank', ⟨rfl, rfl⟩ | ⟨nonempty, inner⟩⟩ := h
  · exact ⟨front, lead ++ trail, by simp, by simpa using dense, blank.append blank'⟩
  · exact ⟨front ++ lead ++ core, trail, by simp, dense.append_blank blank nonempty inner, blank'⟩

/-! ### Keywords -/

theorem not_isBlank_of_endsSolid {e : String} (h : endsSolid e = true) : isBlank e = false := by
  rw [endsSolid] at h
  rcases last : e.toList.getLast? with _ | c
  · simp [last] at h
  · rw [isBlank, List.all_eq_false]
    exact ⟨c, List.mem_of_getLast? last, by simpa [last] using h⟩

/-- Blank entries behind a text are dropped, and nothing else. -/
theorem trimTo_append (out : Buffer) {trail : Buffer} (ends : front.getLast?.any endsSolid = true)
    (blank : Blank trail) : trimTo (out ++ (front ++ trail)) out.length = out ++ front := by
  have drop : ((front ++ trail).reverse.dropWhile isBlank).reverse = front := by
    rw [List.reverse_append, List.dropWhile_append_of_pos (fun e he => (blank e (List.mem_reverse.mp he)).1)]
    rw [← List.head?_reverse] at ends
    rcases back : front.reverse with _ | ⟨e, es⟩
    · simp [back] at ends
    · have solid := not_isBlank_of_endsSolid (e := e) (by simpa [back] using ends)
      rw [List.dropWhile_cons_of_neg (by simp [solid]), ← back, List.reverse_reverse]
  rw [trimTo, List.take_left, List.drop_left, drop]

theorem isBlank_append {a b : String} (ha : isBlank a = true) (hb : isBlank b = true) : isBlank (a ++ b) = true := by
  rw [isBlank, String.toList_append, List.all_append]
  exact Bool.and_eq_true_iff.mpr ⟨ha, hb⟩

theorem isBlank_indentAt (b : Buffer) (start : Nat) : isBlank (indentAt b start) = true := by
  have blanks : ∀ c, isTabOrBlank c = true → isSpace c = true := by
    intro c hc
    simp only [isTabOrBlank, Bool.or_eq_true, beq_iff_eq] at hc
    rcases hc with rfl | rfl <;> decide
  rw [isBlank, indentAt, String.toList_ofList, List.all_eq_true]
  exact fun c hc => blanks c (List.mem_takeWhile_imp hc)

/-- Further entries behind white space, in the same entry or not. -/
theorem Dense.append_text (dense : Dense ws front) {blank rest : String}
    (isBlank : isBlank blank = true) (nonempty : blank ≠ "") (written : text es = blank ++ rest)
    (ends : es.getLast?.any endsSolid = true) : Dense (ws ++ words rest) (front ++ es) where
  starts := dense.head_append _
  ends := by
    rcases last : es.getLast? with _ | e
    · simp [last] at ends
    · simpa [List.getLast?_append, last] using ends
  words_eq := by
    rw [text_append, written, ← String.append_assoc, words_append_blank isBlank nonempty, dense.words_eq]

/-- Closing a construct keeps its words and adds the keyword. -/
theorem Loose.exists_emitClause (h : Loose ws es) (out : Buffer) {keyword : String} (ends : endsSolid keyword = true) :
    ∃ es', emitClause (out ++ es) out.length keyword = out ++ es' ∧ Dense (ws ++ words keyword) es' := by
  obtain ⟨front, trail, rfl, dense, blank⟩ := h
  unfold emitClause
  rw [trimTo_append out dense.ends blank]
  dsimp only
  split_ifs
  · refine ⟨front ++ ["\n" ++ indentAt (out ++ front) out.length ++ keyword], by simp [emit], ?_⟩
    refine dense.append_text (isBlank_append (by decide) (isBlank_indentAt _ _)) (by simp)
      (text_singleton _) ?_
    simpa using endsSolid_append _ ends
  · refine ⟨front ++ [" " ++ keyword], by simp [emit], ?_⟩
    refine dense.append_text (by decide) (by decide) (text_singleton _) ?_
    simpa using endsSolid_append " " ends

/-! ### Labels -/

/-- A label is a word of its own. -/
theorem words_label (solid : ∀ c ∈ label.toList, isSpace c = false) :
    words ("::" ++ label ++ "::") = ["::" ++ label ++ "::"] := by
  apply words_of_solid
  · simp
  · have colon : isSpace ':' = false := by decide
    simpa [or_imp, forall_and, colon] using solid

/-- A wrapped body behind a dense text, with any white space around its own words. -/
theorem Dense.append_wrapped (dense : Dense ws front) {gap inside gap' gap'' : String} (blank : isBlank gap = true ∧ gap ≠ "")
    (blank' : isBlank gap' = true ∧ gap' ≠ "") (blank'' : isBlank gap'' = true ∧ gap'' ≠ "")
    (body : words inside = "do" :: ws') (solid : ∀ c ∈ label.toList, isSpace c = false)
    (written : text es = gap ++ (inside ++ gap' ++ "end" ++ gap'' ++ ("::" ++ label ++ "::")))
    (ends : es.getLast?.any endsSolid = true) :
    Dense (ws ++ ("do" :: ws' ++ ["end", "::" ++ label ++ "::"])) (front ++ es) := by
  have last : words "end" = ["end"] := by decide
  have all := dense.append_text blank.1 blank.2 written ends
  rw [words_append_blank blank''.1 blank''.2, words_append_blank blank'.1 blank'.2, body, last, words_label solid] at all
  simpa using all

/-- White space at the start of a text is there after its lines were indented. -/
theorem head_indent {s indent : String} (h : s.toList.head?.any isSpace = true) :
    (replace "\n" ("\n" ++ indent) s).toList.head?.all isSpace = true := by
  have newline : isSpace '\n' = true := by decide
  rcases chars : s.toList with _ | ⟨c, cs⟩
  · simp [chars] at h
  · by_cases feed : c = '\n'
    · simp [replace, chars, replaceFrom_newline, feed, newline]
    · simpa [replace, chars, replaceFrom_newline, feed] using h

theorem Blank.head_text (h : Blank es) (nonempty : es ≠ []) (rest : Buffer) :
    (text (es ++ rest)).toList.head?.any isSpace = true := by
  rcases es with _ | ⟨e, es⟩
  · exact absurd rfl nonempty
  · have first := h.startsWithSpace_head
    rw [startsWithSpace] at first
    rcases chars : e.toList with _ | ⟨c, cs⟩
    · simp [chars] at first
    · simpa [text, chars] using first

/-- Wrapping the body of a loop that has words keeps them and adds its own. -/
theorem Body.exists_labelBody (h : Body ws' es) (dense : Dense ws front)
    (nonempty : ws' ≠ []) (out : Buffer) {indent : String} (blank : isBlank indent = true)
    (solid : ∀ c ∈ label.toList, isSpace c = false) :
    ∃ es', labelBody (out ++ front ++ es) (out ++ front).length indent label = out ++ es' ∧
      Dense (ws ++ ("do" :: ws' ++ ["end", "::" ++ label ++ "::"])) es' := by
  obtain ⟨lead, core, trail, rfl, blanks, blanks', ⟨_, rfl⟩ | ⟨some, inner⟩⟩ := h
  · exact absurd rfl nonempty
  · have trimmed : trimTo (out ++ front ++ (lead ++ core ++ trail)) (out ++ front).length =
        out ++ front ++ (lead ++ core) := trimTo_append _ (inner.getLast_append _) blanks'
    have body : words (text (lead ++ core)) = ws' := by
      rw [text_append, words_blank_append blanks.isBlank_text, inner.words_eq]
    have space := blanks.head_text some core
    have word : words "do" = ["do"] := by decide
    have ends : endsSolid "::" = true := by decide
    unfold labelBody
    rw [trimmed]
    dsimp only
    rw [List.drop_left, List.take_left]
    split_ifs
    · have feed : isBlank ("\n" ++ (indent ++ indentUnit)) = true := isBlank_append (by decide) (isBlank_append blank (by decide))
      have wrapped : words ("do" ++ replace "\n" ("\n" ++ indentUnit) (text (lead ++ core))) = "do" :: ws' := by
        rw [words_append (.inr (head_indent space)), words_indent (by decide), body, word]
        rfl
      have close : "end\n" = "end" ++ "\n" := rfl
      refine ⟨_, by rw [emit, emit, List.append_assoc, List.append_assoc], ?_⟩
      refine dense.append_wrapped ⟨feed, by simp⟩ ⟨feed, by simp⟩ ⟨feed, by simp⟩ wrapped solid ?_ ?_
      · simp only [text_append, text_singleton, close, String.append_assoc]
      · simpa using endsSolid_append _ ends
    · have single : isBlank " " = true ∧ " " ≠ "" := by decide
      have wrapped : words ("do" ++ text (lead ++ core)) = "do" :: ws' := by
        rw [words_append (.inr ?_), body, word]
        · rfl
        · rcases head : (text (lead ++ core)).toList.head? with _ | c
          · rfl
          · simpa [head] using space
      have opens : " do" = " " ++ "do" := rfl
      have close : " end ::" = " " ++ "end" ++ " " ++ "::" := rfl
      refine ⟨_, by rw [emit, List.append_assoc], ?_⟩
      refine dense.append_wrapped single single single wrapped solid ?_ ?_
      · simp only [text_singleton, opens, close, String.append_assoc]
      · simpa using endsSolid_append _ ends

end NoteScript.Buffer

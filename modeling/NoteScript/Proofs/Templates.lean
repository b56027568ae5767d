import Mathlib.Data.List.Chain
import NoteScript.Proofs.Advance
import NoteScript.Proofs.Balance

/-!
# Template literals and their parts

A template literal is cut into parts, and the parts in a row are the literal again. This goes both ways:

* `Template.written`: the parts as they stand in the literal. `Template.Sound`: which parts come from a closed literal.
* `templateBody_reading`: what is read is either all of a closed literal, or all that there is, and it ends in a text or in an
  expression that is still open.
* `templateBody_written`: parts that are sound are read back from what is written for them.
-/

namespace NoteScript

open Token

/-- A part as it stands in the literal. -/
def TemplatePart.written : TemplatePart → List Char
  | .text raw => raw.toList
  | .expr source => '$' :: '\x7b' :: source.toList ++ ['\x7d']

def TemplatePart.isText : TemplatePart → Bool
  | .text _ => true
  | .expr _ => false

namespace Template

/-- The parts in a row. -/
def written (parts : List TemplatePart) : List Char := parts.flatMap TemplatePart.written

/-- Texts of pairs that start with a backslash, and of other characters except the mark of templates. No expression starts in
them. -/
inductive Spelled : List Char → Prop where
  | nil : Spelled []
  | pair {c : Char} {cs : List Char} : Spelled cs → Spelled ('\\' :: c :: cs)
  | char {c : Char} {cs : List Char} : c ≠ backtick → c ≠ '\\' → ¬(c = '$' ∧ cs.head? = some '\x7b') → Spelled cs →
      Spelled (c :: cs)

/-- No text is empty, and no two texts stand side by side. -/
structure Alternating (parts : List TemplatePart) : Prop where
  nonempty : ∀ raw, .text raw ∈ parts → raw ≠ ""
  between : parts.IsChain fun p q => p.isText = false ∨ q.isText = false

/-- The braces in each expression balance. -/
def BracesBalance (parts : List TemplatePart) : Prop := ∀ source, .expr source ∈ parts → Balances '\x7b' '\x7d' source.toList

/-- The parts of a closed literal. -/
structure Sound (parts : List TemplatePart) : Prop extends Alternating parts where
  spelled : ∀ raw, .text raw ∈ parts → Spelled raw.toList
  braces : BracesBalance parts

/-! ### Texts -/

theorem templateBody_spelled {raw : List Char} (spelled : Spelled raw) {tail : List Char} (apart : tail.head? ≠ some '\x7b')
    (held : List Char) : templateBody 0 held (raw ++ tail) =
      ((templateBody 0 (raw.reverse ++ held) tail).1, raw.length + (templateBody 0 (raw.reverse ++ held) tail).2) := by
  induction spelled generalizing held with
  | nil => simp
  | @pair c cs _ ih =>
    rw [List.cons_append, List.cons_append, templateBody, ih]
    simp only [List.reverse_cons, List.append_assoc, List.cons_append, List.nil_append, List.length_cons]
    rw [← Nat.add_assoc, Nat.add_comm 2]
  | @char c cs mark pair starts _ ih =>
    have expression : ∀ rest, c = '$' → cs ++ tail = '\x7b' :: rest → False := by
      intro rest dollar shape
      refine starts ⟨dollar, ?_⟩
      cases cs with
      | nil => exact absurd (by rw [← List.nil_append tail, shape, List.head?_cons]) apart
      | cons d cs => rw [List.cons_append] at shape; rw [List.head?_cons, (List.cons.inj shape).1]
    rw [List.cons_append, templateBody.eq_4 held c (cs ++ tail) expression fun _ _ same => absurd same pair,
      if_neg (by simpa using mark), ih]
    simp only [List.reverse_cons, List.append_assoc, List.singleton_append, List.length_cons]
    rw [← Nat.add_assoc, Nat.add_comm 1]

/-- Where a text may stop: at the end, at the mark, or at an expression. -/
inductive Stops : List Char → Prop where
  | nil : Stops []
  | mark (rest : List Char) : Stops (backtick :: rest)
  | expr (rest : List Char) : Stops ('$' :: '\x7b' :: rest)

theorem Stops.head?_ne {tail : List Char} (stops : Stops tail) : tail.head? ≠ some '\x7b' := by
  cases stops <;> simp [backtick]

theorem templateBody_held {tail : List Char} (stops : Stops tail) (held : List Char) :
    templateBody 0 held tail = (textPart held ++ (templateBody 0 [] tail).1, (templateBody 0 [] tail).2) := by
  have none : textPart [] = [] := rfl
  cases stops with
  | nil | expr rest => simp [templateBody, none]
  | mark rest =>
    have here : ∀ held, templateBody 0 held (backtick :: rest) = (textPart held, 1) := fun _ => rfl
    rw [here, here, none, List.append_nil]

/-- A text is read up to the place where it stops. -/
theorem templateBody_text {raw tail : List Char} (spelled : Spelled raw) (stops : Stops tail) : templateBody 0 [] (raw ++ tail) =
      (textPart raw.reverse ++ (templateBody 0 [] tail).1, raw.length + (templateBody 0 [] tail).2) := by
  rw [templateBody_spelled spelled stops.head?_ne, List.append_nil, templateBody_held stops]

/-- Every text has a place where it stops, unless it ends in the first half of a pair. -/
theorem exists_spelled (cs : List Char) : ∃ raw tail, cs = raw ++ tail ∧ Spelled raw ∧ (Stops tail ∨ tail = ['\\']) := by
  induction size : cs.length using Nat.strongRecOn generalizing cs with
  | ind n ih =>
    cases cs with
    | nil => exact ⟨[], [], rfl, .nil, .inl .nil⟩
    | cons c rest =>
      by_cases mark : c = backtick
      · subst mark
        exact ⟨[], _, rfl, .nil, .inl (.mark rest)⟩
      by_cases pair : c = '\\'
      · subst pair
        cases rest with
        | nil => exact ⟨[], _, rfl, .nil, .inr rfl⟩
        | cons d rest =>
          have shorter : rest.length < n := by
            rw [← size, List.length_cons, List.length_cons]
            omega
          obtain ⟨raw, tail, rfl, spelled, stops⟩ := ih rest.length shorter rest rfl
          exact ⟨_, tail, rfl, .pair spelled, stops⟩
      by_cases expression : c = '$' ∧ rest.head? = some '\x7b'
      · obtain ⟨rfl, opens⟩ := expression
        obtain ⟨rest, rfl⟩ := List.head?_eq_some_iff.mp opens
        exact ⟨[], _, rfl, .nil, .inl (.expr rest)⟩
      obtain ⟨raw, tail, rfl, spelled, stops⟩ := ih rest.length (by simp [← size]) rest rfl
      refine ⟨c :: raw, tail, rfl, .char mark pair (fun starts => expression ⟨starts.1, ?_⟩) spelled, stops⟩
      rw [List.head?_append, starts.2, Option.some_or]

/-! ### Expressions -/

/-- An expression is read up to the brace that closes it. -/
theorem templateBody_closed {depth : Nat} {inner : List Char} (closes : Closes '\x7b' '\x7d' depth inner) (held rest : List Char) :
    templateBody (depth + 1) held (inner ++ '\x7d' :: rest) =
      (.expr (String.ofList (held.reverse ++ inner)) :: (templateBody 0 [] rest).1,
        inner.length + 1 + (templateBody 0 [] rest).2) := by
  induction inner generalizing depth held with
  | nil =>
    rw [closes_nil] at closes
    subst closes
    simp [templateBody]
  | cons c inner ih =>
    have step : ∀ depth', templateBody (depth + 1) held (c :: (inner ++ '\x7d' :: rest)) =
        ((templateBody (depth' + 1) (c :: held) (inner ++ '\x7d' :: rest)).1,
          1 + (templateBody (depth' + 1) (c :: held) (inner ++ '\x7d' :: rest)).2) → Closes '\x7b' '\x7d' depth' inner →
        templateBody (depth + 1) held (c :: inner ++ '\x7d' :: rest) =
          (.expr (String.ofList (held.reverse ++ c :: inner)) :: (templateBody 0 [] rest).1,
            (c :: inner).length + 1 + (templateBody 0 [] rest).2) := by
      intro depth' read closes
      rw [List.cons_append, read, ih closes]
      simp only [List.reverse_cons, List.append_assoc, List.singleton_append, List.length_cons]
      rw [← Nat.add_assoc, Nat.add_comm 1, Nat.add_right_comm]
    by_cases opens : c = '\x7b'
    · subst opens
      exact step (depth + 1) rfl ((closes_opening (by decide)).mp closes)
    by_cases ends : c = '\x7d'
    · subst ends
      obtain ⟨pos, closes⟩ := (closes_closing (by decide)).mp closes
      obtain ⟨depth, rfl⟩ := Nat.exists_eq_succ_of_ne_zero (Nat.ne_of_gt pos)
      exact step depth rfl closes
    · refine step depth ?_ ((closes_other opens ends).mp closes)
      rw [templateBody.eq_6]
      simp [opens, ends]

/-- An expression that is not closed runs to the end. -/
theorem templateBody_open (depth : Nat) (held cs : List Char) :
    (∃ inner rest, cs = inner ++ '\x7d' :: rest ∧ Closes '\x7b' '\x7d' depth inner) ∨
      templateBody (depth + 1) held cs = ([.expr (String.ofList (held.reverse ++ cs))], cs.length) := by
  induction cs generalizing depth held with
  | nil => simp [templateBody]
  | cons c cs ih =>
    have step : ∀ depth', templateBody (depth + 1) held (c :: cs) =
        ((templateBody (depth' + 1) (c :: held) cs).1, 1 + (templateBody (depth' + 1) (c :: held) cs).2) →
        (∀ inner, Closes '\x7b' '\x7d' depth' inner → Closes '\x7b' '\x7d' depth (c :: inner)) →
        (∃ inner rest, c :: cs = inner ++ '\x7d' :: rest ∧ Closes '\x7b' '\x7d' depth inner) ∨
          templateBody (depth + 1) held (c :: cs) = ([.expr (String.ofList (held.reverse ++ c :: cs))], (c :: cs).length) := by
      intro depth' read closes
      rcases ih depth' (c :: held) with ⟨inner, rest, rfl, inside⟩ | runs
      · exact .inl ⟨c :: inner, rest, rfl, closes inner inside⟩
      · refine .inr ?_
        rw [read, runs]
        simp [Nat.add_comm]
    by_cases opens : c = '\x7b'
    · subst opens
      exact step (depth + 1) rfl fun _ => (closes_opening (by decide)).mpr
    by_cases ends : c = '\x7d'
    · subst ends
      cases depth with
      | zero => exact .inl ⟨[], cs, rfl, closes_nil.mpr rfl⟩
      | succ depth => exact step depth rfl fun _ closes => (closes_closing (by decide)).mpr ⟨Nat.succ_pos depth, closes⟩
    · refine step depth ?_ fun _ => (closes_other opens ends).mpr
      rw [templateBody.eq_6]
      simp [opens, ends]

/-! ### Parts -/

theorem textPart_reverse {raw : List Char} (nonempty : raw ≠ []) : textPart raw.reverse = [.text (String.ofList raw)] := by
  simp [textPart, nonempty]

theorem written_textPart (raw : List Char) : written (textPart raw.reverse) = raw := by
  by_cases empty : raw = []
  · subst empty
    rfl
  · rw [textPart_reverse empty]
    simp [written, TemplatePart.written]

theorem mem_textPart {raw : List Char} {p : TemplatePart} (mem : p ∈ textPart raw.reverse) :
    raw ≠ [] ∧ p = .text (String.ofList raw) := by
  by_cases empty : raw = []
  · subst empty
    cases mem
  · rw [textPart_reverse empty, List.mem_singleton] at mem
    exact ⟨empty, mem⟩

theorem apart_textPart (raw : List Char) : Alternating (textPart raw.reverse) where
  nonempty := by
    rintro _ mem rfl
    obtain ⟨nonempty, same⟩ := mem_textPart mem
    exact nonempty (String.ofList_eq_empty_iff.mp (TemplatePart.text.inj same).symm)
  between := by
    by_cases empty : raw = []
    · subst empty
      exact .nil
    · rw [textPart_reverse empty]
      exact .singleton _

theorem bracesBalance_textPart (raw : List Char) : BracesBalance (textPart raw.reverse) := by
  intro source mem
  cases (mem_textPart mem).2

theorem sound_textPart {raw : List Char} (spelled : Spelled raw) : Sound (textPart raw.reverse) where
  toAlternating := apart_textPart raw
  spelled := by
    intro text mem
    cases (mem_textPart mem).2
    rwa [String.toList_ofList]
  braces := bracesBalance_textPart raw

/-- A text and an expression in front of other parts. -/
def lead (raw inner : List Char) (parts : List TemplatePart) : List TemplatePart :=
  textPart raw.reverse ++ .expr (String.ofList inner) :: parts

section Lead

variable {raw inner : List Char} {parts : List TemplatePart}

theorem written_lead : written (lead raw inner parts) = raw ++ '$' :: '\x7b' :: (inner ++ '\x7d' :: written parts) := by
  have text := written_textPart raw
  unfold written at text
  simp [written, lead, TemplatePart.written, text]

theorem Alternating.lead (apart : Alternating parts) : Alternating (lead raw inner parts) where
  nonempty := by
    intro text mem
    rcases List.mem_append.mp mem with mem | mem
    · exact (apart_textPart raw).nonempty text mem
    · exact apart.nonempty text (List.mem_of_ne_of_mem (by rintro ⟨⟩) mem)
  between := by
    -- the expression keeps the texts on its two sides apart
    have behind : (TemplatePart.expr (String.ofList inner) :: parts).IsChain fun p q => p.isText = false ∨ q.isText = false :=
      List.isChain_cons.mpr ⟨fun _ _ => .inl rfl, apart.between⟩
    refine List.isChain_append.mpr ⟨(apart_textPart raw).between, behind, fun p _ q head => .inr ?_⟩
    cases head
    rfl

theorem BracesBalance.lead (braces : BracesBalance parts) (balanced : Balances '\x7b' '\x7d' inner) :
    BracesBalance (lead raw inner parts) := by
  intro source mem
  rcases List.mem_append.mp mem with mem | mem
  · exact bracesBalance_textPart raw source mem
  · rcases List.mem_cons.mp mem with same | mem
    · cases same
      rwa [String.toList_ofList]
    · exact braces source mem

theorem Sound.lead (sound : Sound parts) (spelled : Spelled raw) (balanced : Balances '\x7b' '\x7d' inner) :
    Sound (lead raw inner parts) where
  toAlternating := sound.toAlternating.lead
  spelled := by
    intro text mem
    rcases List.mem_append.mp mem with mem | mem
    · exact (sound_textPart spelled).spelled text mem
    · exact sound.spelled text (List.mem_of_ne_of_mem (by rintro ⟨⟩) mem)
  braces := sound.braces.lead balanced

end Lead

/-- `Reading cs parts n`: the text `cs` behind the opening mark is read as `parts`, which take `n` characters with the closing
mark. If that one is missing all of the text is read, and the last part may be an expression whose brace is missing too. -/
inductive Reading : List Char → List TemplatePart → Nat → Prop where
  | closed {parts : List TemplatePart} (rest : List Char) : Sound parts →
      Reading (written parts ++ backtick :: rest) parts ((written parts).length + 1)
  | inText {parts : List TemplatePart} : Alternating parts → BracesBalance parts → Reading (written parts) parts (written parts).length
  | inExpr {front : List TemplatePart} (last : List Char) : Alternating (front ++ [TemplatePart.expr (String.ofList last)]) →
      BracesBalance front → Reading (written front ++ '$' :: '\x7b' :: last) (front ++ [TemplatePart.expr (String.ofList last)])
        ((written front).length + (2 + last.length))

/-- What is read ends with the closing mark, or there is nothing behind it. -/
theorem Reading.ends {cs : List Char} {parts : List TemplatePart} {n : Nat} (reading : Reading cs parts n) :
    (cs.take n).getLast? = some backtick ∨ cs.drop n = [] := by
  cases reading with
  | closed rest => exact .inl (by simp [List.take_append])
  | inText => exact .inr List.drop_length
  | inExpr => exact .inr (List.drop_of_length_le (by simp only [List.length_append, List.length_cons]; omega))

theorem Reading.lead {raw inner cs : List Char} {parts : List TemplatePart} {n : Nat} (reading : Reading cs parts n)
    (spelled : Spelled raw) (balanced : Balances '\x7b' '\x7d' inner) :
    Reading (raw ++ '$' :: '\x7b' :: (inner ++ '\x7d' :: cs)) (lead raw inner parts) (raw.length + (2 + (inner.length + 1 + n))) := by
  have size : ∀ parts, (written (Template.lead raw inner parts)).length =
      raw.length + (2 + (inner.length + 1 + (written parts).length)) := by
    intro parts
    simp only [written_lead, List.length_append, List.length_cons]
    omega
  cases reading with
  | closed rest sound =>
    have read := Reading.closed rest (sound.lead spelled balanced)
    rw [size, written_lead] at read
    simpa [Nat.add_assoc] using read
  | inText apart braces =>
    have read := Reading.inText (@Alternating.lead raw inner _ apart) (braces.lead balanced)
    rwa [size, written_lead] at read
  | @inExpr front last apart braces =>
    have shape : Template.lead raw inner (front ++ [TemplatePart.expr (String.ofList last)]) =
        Template.lead raw inner front ++ [TemplatePart.expr (String.ofList last)] := by simp [Template.lead]
    have read := Reading.inExpr last (shape ▸ @Alternating.lead raw inner _ apart) (@BracesBalance.lead raw _ _ braces balanced)
    rw [size, written_lead] at read
    rw [shape]
    simpa [Nat.add_assoc] using read

/-- What is read of any text behind an opening mark. -/
theorem templateBody_reading (cs : List Char) : Reading cs (templateBody 0 [] cs).1 (templateBody 0 [] cs).2 := by
  induction size : cs.length using Nat.strongRecOn generalizing cs with
  | ind n ih =>
    obtain ⟨raw, tail, rfl, spelled, stops | rfl⟩ := exists_spelled cs
    · rw [templateBody_text spelled stops]
      cases stops with
      | nil =>
        have read := Reading.inText (apart_textPart raw) (bracesBalance_textPart raw)
        rw [written_textPart] at read
        simpa [templateBody, textPart] using read
      | mark rest =>
        have read := Reading.closed rest (sound_textPart spelled)
        rw [written_textPart] at read
        have here : templateBody 0 [] (backtick :: rest) = ([], 1) := rfl
        simpa [here] using read
      | expr rest =>
        rw [templateBody]
        dsimp only
        rcases templateBody_open 0 [] rest with ⟨inner, rest, rfl, closes⟩ | runs
        · rw [templateBody_closed closes]
          have shorter : rest.length < n := by
            simp only [List.length_append, List.length_cons] at size
            omega
          exact (ih _ shorter rest rfl).lead spelled (closes_zero.mp closes)
        · have apart : Alternating (textPart raw.reverse ++ [.expr (String.ofList rest)]) := Alternating.lead ⟨by simp, .nil⟩
          have read := Reading.inExpr rest apart (bracesBalance_textPart raw)
          rw [written_textPart] at read
          rw [runs]
          exact read
    · have read := Reading.inText (apart_textPart (raw ++ ['\\'])) (bracesBalance_textPart _)
      rw [written_textPart] at read
      rw [templateBody_spelled spelled (by decide)]
      have here : ∀ held, templateBody 0 held ['\\'] = (textPart ('\\' :: held), 1) := fun _ => rfl
      rw [here]
      simpa using read

theorem Sound.tail {p : TemplatePart} {parts : List TemplatePart} (sound : Sound (p :: parts)) : Sound parts where
  nonempty raw mem := sound.nonempty raw (List.mem_cons_of_mem p mem)
  between := sound.between.tail
  spelled raw mem := sound.spelled raw (List.mem_cons_of_mem p mem)
  braces source mem := sound.braces source (List.mem_cons_of_mem p mem)

/-- Behind a text there is an expression or the closing mark. -/
theorem stops_written {raw : String} {parts : List TemplatePart} (apart : Alternating (.text raw :: parts)) (rest : List Char) :
    Stops (written parts ++ backtick :: rest) := by
  cases parts with
  | nil => exact .mark rest
  | cons p parts =>
    cases p with
    | text other => simpa [TemplatePart.isText] using apart.between
    | expr source => exact .expr _

/-- Sound parts are read back. -/
theorem templateBody_written {parts : List TemplatePart} (sound : Sound parts) (rest : List Char) :
    templateBody 0 [] (written parts ++ backtick :: rest) = (parts, (written parts).length + 1) := by
  induction parts with
  | nil => rfl
  | cons p parts ih =>
    have later := ih sound.tail
    cases p with
    | text raw =>
      have nonempty : raw.toList ≠ [] := by simpa using sound.nonempty raw List.mem_cons_self
      have shape : written (.text raw :: parts) = raw.toList ++ written parts := rfl
      rw [shape, List.append_assoc, templateBody_text (sound.spelled raw List.mem_cons_self) (stops_written sound.toAlternating rest), later,
        textPart_reverse nonempty, String.ofList_toList, List.length_append, Nat.add_assoc]
      rfl
    | expr source =>
      have shape : written (.expr source :: parts) = '$' :: '\x7b' :: (source.toList ++ '\x7d' :: written parts) := by
        simp [written, TemplatePart.written]
      have closes := closes_zero.mpr (sound.braces source List.mem_cons_self)
      rw [shape, List.cons_append, List.cons_append, List.append_assoc, List.cons_append, templateBody, templateBody_closed closes, later]
      simp [textPart]
      omega

end Template

/-! ### Tokens -/

namespace Token

open Template

theorem Cut.behind {divides : Bool} {cs : List Char} {before ts : List Token} (h : Cut divides cs (before ++ ts)) :
    ∃ divides cs, Cut divides cs ts := by
  induction before generalizing divides cs with
  | nil => exact ⟨divides, cs, h⟩
  | cons t before ih =>
    cases h with
    | token _ _ _ later => exact ih later

/-- A template at the start of a text: its text and what follows. -/
theorem Cut.template {divides : Bool} {cs : List Char} {t : Token} {ts : List Token} {parts : List TemplatePart}
    (h : Cut divides cs (t :: ts)) (kind : t.kind = .template parts) :
    ∃ rest n, Reading rest parts n ∧ t.text.toList = backtick :: rest.take n ∧ ∃ divides, Cut divides (rest.drop n) ts := by
  obtain ⟨rest, rfl, text, later⟩ := h.exists_template kind
  exact ⟨rest, _, templateBody_reading rest, text, later⟩

theorem Cut.eq_nil {divides : Bool} {ts : List Token} (h : Cut divides [] ts) : ts = [] := by
  cases h
  rfl

/-- A token of the list is the closing one or was cut at its place. -/
theorem eof_or_cut {source : String} {before after : List Token} {t : Token} (split : tokenize source = before ++ t :: after) :
    t = eof ∧ after = [] ∨ ∃ ts, after = ts ++ [eof] ∧ Cut false source.toList (before ++ t :: ts) := by
  rcases List.eq_nil_or_concat after with rfl | ⟨ts, last, rfl⟩
  · obtain ⟨-, same⟩ := List.append_inj' split rfl
    exact .inl ⟨(List.singleton_inj.mp same).symm, rfl⟩
  · rw [tokenize, List.concat_eq_append, ← List.cons_append, ← List.append_assoc] at split
    obtain ⟨inside, same⟩ := List.append_inj' split rfl
    rw [List.singleton_inj] at same
    subst same
    exact .inr ⟨ts, List.concat_eq_append, inside ▸ scanFrom_cut false source.toList⟩

/-- The parts of a template that a script is cut into are the template again: no text is empty, no two texts stand side by side,
the braces in each expression balance, and the parts as they are written stand between two marks. Only of the last token the
closing mark may be missing, and of its last part the closing brace as well. Conversely, parts that are sound are read back from
what is written for them between two marks, as one token. -/
theorem tokenize_template :
    (∀ (source : String) (before : List Token) (t : Token) (after : List Token) (parts : List TemplatePart),
      tokenize source = before ++ t :: after → t.kind = .template parts → Alternating parts ∧
      (t.text.toList = backtick :: written parts ++ [backtick] ∧ Sound parts ∨
        after = [eof] ∧ t.text.toList = backtick :: written parts ∧ BracesBalance parts ∨
        after = [eof] ∧ ∃ front last, parts = front ++ [.expr last] ∧ t.text.toList = backtick :: (written parts).dropLast ∧
          BracesBalance front)) ∧
    ∀ (parts : List TemplatePart) (text : String), Sound parts → text.toList = backtick :: written parts ++ [backtick] →
      tokenize text = [⟨.template parts, text⟩, eof] := by
  constructor
  · intro source before t after parts split kind
    obtain ⟨rfl, -⟩ | ⟨ts, rfl, cuts⟩ := eof_or_cut split
    · cases kind
    obtain ⟨_, _, cut⟩ := cuts.behind
    obtain ⟨rest, n, reading, text, _, later⟩ := cut.template kind
    cases reading with
    | closed rest sound =>
      refine ⟨sound.toAlternating, .inl ⟨?_, sound⟩⟩
      rw [text, List.take_append, List.take_of_length_le (Nat.le_succ _)]
      simp
    | inText apart braces =>
      rw [List.drop_length] at later
      cases later.eq_nil
      rw [List.take_length] at text
      exact ⟨apart, .inr (.inl ⟨rfl, text, braces⟩)⟩
    | @inExpr front last apart braces =>
      have whole : (written front ++ '$' :: '\x7b' :: last).length = (written front).length + (2 + last.length) := by
        simp only [List.length_append, List.length_cons]
        omega
      rw [← whole, List.drop_length] at later
      cases later.eq_nil
      rw [← whole, List.take_length] at text
      have brace : written (front ++ [.expr (String.ofList last)]) = written front ++ '$' :: '\x7b' :: last ++ ['\x7d'] := by
        simp [written, TemplatePart.written]
      refine ⟨apart, .inr (.inr ⟨rfl, front, _, rfl, ?_, braces⟩)⟩
      rw [text, brace, List.dropLast_concat]
  · intro parts text sound shape
    have read := templateBody_written sound []
    have found : first false backtick (written parts ++ [backtick]) =
        (.template parts, 1 + (written parts ++ [backtick]).length) := by
      change (Kind.template (templateBody 0 [] _).1, 1 + (templateBody 0 [] _).2) = _
      rw [read, List.length_append, List.length_singleton]
    rw [tokenize, scan, shape, List.cons_append, scanFrom, found]
    simp only [Nat.add_sub_cancel_left, List.take_length, List.drop_length, scanFrom]
    rw [← List.cons_append, ← shape, String.ofList_toList]
    rfl

/-- An escaped mark, braces in an expression, and a dollar sign in front of the closing mark. -/
theorem tokenize_template_braces :
    tokenize "\x60a\\\x60$\x7b\x7bb\x7d\x7d$\x60" =
      [⟨.template [.text "a\\\x60", .expr "\x7bb\x7d", .text "$"], "\x60a\\\x60$\x7b\x7bb\x7d\x7d$\x60"⟩, eof] := by
  refine tokenize_template.2 _ _ ?_ rfl
  have texts : ∀ raw : String, .text raw ∈ [TemplatePart.text "a\\\x60", .expr "\x7bb\x7d", .text "$"] →
      raw = "a\\\x60" ∨ raw = "$" := by simp
  have exprs : ∀ source : String, .expr source ∈ [TemplatePart.text "a\\\x60", .expr "\x7bb\x7d", .text "$"] →
      source = "\x7bb\x7d" := by simp
  constructor
  case spelled =>
    intro raw mem
    rcases texts raw mem with rfl | rfl
    · exact .char (by decide) (by decide) (by decide) (.pair .nil)
    · exact .char (by decide) (by decide) (by decide) .nil
  case braces =>
    intro source mem
    rw [exprs source mem]
    decide
  case toAlternating =>
    refine ⟨fun raw mem => ?_, by simp [TemplatePart.isText]⟩
    rcases texts raw mem with rfl | rfl <;> decide

end Token

end NoteScript

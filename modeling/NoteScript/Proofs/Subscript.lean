import NoteScript.Proofs.Lines

/-!
# Indices that are numbers

Arrays count from zero in a script and from one in Lua. A number in square brackets is counted on when the text is finished,
by a pass that looks for digits right between the brackets and for a word character or a closing bracket in front of them.

* `Subscript`: an assignment of an operand with a number as its index, and white space around the number.
* `transpile_subscript`: its translation, and when the index is counted from one.
-/

namespace NoteScript

open Edit Buffer Text Token Polish

/-! ### Decimal values -/

theorem isInlineSpace_of_isDecimal {c : Char} (decimal : isDecimal c = true) : isInlineSpace c = false := by
  have name : (Text.isWord c || c == '$') = true := by rw [isWord_of_isDecimal decimal, Bool.true_or]
  exact isInlineSpace_of_continuesName name

/-- The number that a numeral stands for. -/
def Numeral.value (n : Numeral) : Nat := Nat.ofDigitChars 10 n.text.toList 0

/-! ### Tokens -/

/-- White space within a line, or none. -/
structure Padding where
  text : String
  inline : ∀ c ∈ text.toList, isInlineSpace c = true

namespace Padding

def tokens (p : Padding) : List Token := if p.text = "" then [] else [⟨.space, p.text⟩]

def written (p : Padding) : Buffer := if p.text = "" then [] else [p.text]

theorem text_written (p : Padding) : Buffer.text p.written = p.text := by
  rw [written]
  split
  · rename_i empty
    rw [empty]
    rfl
  · exact text_singleton p.text

theorem legible (p : Padding) {rest : List Token} (h : AlwaysLegible rest) (solid : rest.head?.all (!·.isTrivia) = true) :
    AlwaysLegible (p.tokens ++ rest) := by
  rw [tokens]
  split
  · exact h
  · rename_i nonempty
    refine h.cons (fun _ => ?_) fun u hu => apart_space ?_
    · simpa [Readable, nonempty] using p.inline
    · rintro space
      rw [Option.mem_def] at hu
      simp [hu, isTrivia, space] at solid

theorem reads (p : Padding) (rest : List Token) (out : Buffer) : Reads 1 1 p.tokens rest out (out ++ p.written) := by
  rw [tokens, written]
  split
  · rw [List.append_nil]
    exact .nil
  · refine .unit (fun d before loops _ => ?_) rfl rfl
    rw [← addTrivia_blank out (.inl rfl : (⟨.space, p.text⟩ : Token).kind = .space ∨ _)]
    exact Rules.takes_trivia rfl

end Padding

/-- An operand and its translation end in the same name or bracket. -/
theorem Expr.exists_last {callable : Bool} (p : Expr (.chain callable)) : ∃ front front' last,
    p.lua = front ++ last ∧ sourceText p.tokens = front' ++ last ∧ (IsWord last ∨ last ∈ [")", "]"]) := by
  have bracket : ∀ {mark : String}, mark ∈ [")", "]"] → ∀ (s : String) (ts : List Token), ∃ front front' last,
      s ++ mark = front ++ last ∧ sourceText (ts ++ [Token.mark mark]) = front' ++ last ∧ (IsWord last ∨ last ∈ [")", "]"]) := by
    intro mark known s ts
    refine ⟨s, sourceText ts, mark, rfl, ?_, .inr known⟩
    rw [sourceText_append]
    simp [sourceText]
  cases p with
  | name x => exact ⟨"", "", x.text, (String.empty_append ..).symm, by simp [tokens, sourceText], .inl x.isWord⟩
  | field p f =>
    exact ⟨p.lua ++ ".", sourceText p.tokens ++ ".", f.text, rfl, by simp [tokens, sourceText, String.append_assoc], .inl f.isWord⟩
  | parens | index | call | link => exact bracket (by simp) _ _
  | unaryCall p m e =>
    rw [lua, m.lua_eq]
    exact bracket (by simp) _ _
  | toText p =>
    have shape : p.toText.tokens = (p.tokens ++ [Token.sign ".", .word "toString", .mark "("]) ++ [Token.mark ")"] := by simp [tokens]
    rw [shape]
    exact bracket (by simp) _ _

/-- An index behind a name or a bracket follows it, unless a dollar sign stands in front. -/
theorem endsTarget_last {last : String} (known : IsWord last ∨ last ∈ [")", "]"]) : ∃ c, last.toList.getLast? = some c ∧
    endsTarget c = (c != '$') := by
  rcases known with ⟨nonempty, all⟩ | mark
  · have present := mt String.toList_eq_nil_iff.mp nonempty
    refine ⟨_, List.getLast?_eq_some_getLast present, ?_⟩
    have name := all _ (List.getLast_mem present)
    generalize last.toList.getLast present = c at name
    by_cases dollar : c = '$'
    · rw [dollar]
      decide
    · have word : Text.isWord c = true := by simpa [continuesName, Text.isWord, dollar] using name
      simp [endsTarget, word, dollar]
  · rcases List.mem_pair.mp mark with rfl | rfl
    · exact ⟨')', rfl, by decide⟩
    · exact ⟨']', rfl, by decide⟩

/-- `x = p[ n ];` -/
structure Subscript where
  name : Identifier
  callable : Bool
  array : Expr (.chain callable)
  front : Padding
  index : Numeral
  back : Padding

namespace Subscript

variable {s : Subscript} {c : Char}

/-- What stands between the brackets. -/
def indexTokens (s : Subscript) : List Token := s.front.tokens ++ (⟨.number, s.index.text⟩ :: s.back.tokens)

/-- The operand with its index. -/
def bodyTokens (s : Subscript) : List Token := s.array.tokens ++ (.mark "[" :: (s.indexTokens ++ [.mark "]"]))

def tokens (s : Subscript) : List Token := (Lead.assign s.name).tokens ++ (s.bodyTokens ++ ending true)

/-- The text of the assignment with its semicolon. -/
def line (s : Subscript) : String := sourceText s.tokens

/-- The index as it is written down. -/
def indexText (s : Subscript) : String := s.front.text ++ s.index.text ++ s.back.text

/-- The same assignment without the index. -/
def assignment (s : Subscript) : Sentence := ⟨.assign s.name, .plain (.operand s.array)⟩

def indexWritten (s : Subscript) : Buffer := s.front.written ++ ([s.index.text] ++ s.back.written)

def written (s : Subscript) : Buffer := s.assignment.written ++ (["["] ++ s.indexWritten ++ ["]"])

theorem text_written (s : Subscript) : Buffer.text s.written = s.assignment.lua ++ "[" ++ s.indexText ++ "]" := by
  simp only [written, indexWritten, text_append, text_singleton, s.assignment.text_written, Padding.text_written, indexText,
    String.append_assoc]

theorem legible (s : Subscript) : AlwaysLegible s.tokens := by
  have closing : AlwaysLegible [.mark "]", .mark ";"] := (alwaysLegible_nil.mark ";" rfl).mark "]" rfl
  have back : AlwaysLegible (s.back.tokens ++ [Token.mark "]", .mark ";"]) := s.back.legible closing rfl
  have number : AlwaysLegible (⟨.number, s.index.text⟩ :: (s.back.tokens ++ [Token.mark "]", .mark ";"])) := by
    refine back.cons (fun _ => ?_) ?_
    · simpa [Readable, s.index.nonempty] using s.index.digits
    · rw [Padding.tokens]
      split <;> rintro u ⟨⟩ <;> rfl
  have index : AlwaysLegible (.mark "[" :: (s.front.tokens ++ ⟨.number, s.index.text⟩ :: (s.back.tokens ++
      [.mark "]", .mark ";"]))) := (s.front.legible number rfl).mark "[" rfl
  have body : AlwaysLegible (s.bodyTokens ++ ending true) := by
    have shape : s.bodyTokens ++ ending true = s.array.tokens ++ Token.mark "[" :: (s.front.tokens ++ ⟨.number, s.index.text⟩ ::
        (s.back.tokens ++ [Token.mark "]", .mark ";"])) := by simp [bodyTokens, indexTokens, ending]
    rw [shape]
    refine s.array.legible_append rfl s.array.legible (index true) fun t _ u hu => ?_
    cases hu
    exact apart_mark t "["
  refine (Lead.assign s.name).legible body ?_
  obtain ⟨t, ts, shape, begins⟩ := s.array.head_tokens rfl
  rw [bodyTokens, shape]
  cases begins <;> rfl

theorem grouped_tokens (s : Subscript) : Grouped false s.tokens := by
  have padding : ∀ p : Padding, Grouped true p.tokens := by
    intro p
    rw [Padding.tokens]
    split
    · exact .nil
    · exact .plain rfl .nil
  have index : Grouped true s.indexTokens := (padding s.front).append (.plain rfl (padding s.back))
  have body : Grouped false s.bodyTokens := s.array.grouped_tokens.append (.group (by decide) index .nil)
  exact .plain rfl (.plain rfl (.plain rfl (.plain rfl (body.append (.plain rfl .nil)))))

theorem reads_index (s : Subscript) (rest : List Token) (out : Buffer) :
    Reads 1 1 s.indexTokens rest out (out ++ s.indexWritten) := by
  have number : Reads 1 1 [⟨.number, s.index.text⟩] (s.back.tokens ++ rest) (out ++ s.front.written) _ :=
    .unit (fun _ _ _ _ => Rules.takes_number) rfl rfl
  have whole := (s.front.reads _ out).append (number.append (s.back.reads rest _))
  simpa [indexTokens, indexWritten] using whole

theorem statements (s : Subscript) {d : Nat} (enough : s.array.depth ≤ d + 1) (loops : LoopState) :
    ∃ before, Statements (Rules.within (d + 2)) ⟨[], s.tokens ++ [Token.eof], [], loops⟩
      ⟨before, [.eof], s.written, loops⟩ := by
  have array := s.array.runs (.mark "[" :: s.indexTokens ++ [.mark "]"] ++ (ending true ++ [Token.eof]))
    ([s.name.text] ++ [" "] ++ ["="] ++ [" "]) (.blank _) rfl (.inr rfl)
  have body := Reads.index array s.array.operandIn_tokens (Nat.le_refl 1) (s.reads_index _ _)
  exact Sentence.statements_assigned s.name ((Reads.equals.mono (by omega)).append (body.mono (by omega))) loops

/-- Only digits and white space stand between the brackets. -/
theorem mem_indexText (mem : c ∈ s.indexText.toList) : c.isDigit = true ∨ isInlineSpace c = true := by
  simp only [indexText, String.toList_append, List.mem_append] at mem
  rcases mem with (mem | mem) | mem
  · exact .inr (s.front.inline c mem)
  · exact .inl (s.index.digits c mem)
  · exact .inr (s.back.inline c mem)

theorem notMem_indexText (s : Subscript) (digit : c.isDigit = false) (space : isInlineSpace c = false) :
    c ∉ s.indexText.toList := by
  intro mem
  rcases mem_indexText mem with digit' | space'
  · rw [digit] at digit'
    cases digit'
  · rw [space] at space'
    cases space'

theorem isLine_written (s : Subscript) : IsLine (s.assignment.lua ++ "[" ++ s.indexText ++ "]") := by
  have front := s.assignment.isLine_lua
  have nonempty : s.assignment.lua ≠ "" := by
    intro empty
    have starts := front.starts
    rw [empty] at starts
    cases starts
  have nonempty' : s.indexText ≠ "" := by
    simp [indexText, String.append_eq_empty_iff, s.index.nonempty]
  have marks : ∀ c ∈ outerMarks ++ firstMarks ++ secondMarks, c.isDigit = false ∧ isInlineSpace c = false := by decide
  have inside : Smooth s.indexText := .flat fun c mem mark => s.notMem_indexText (marks c mark).1 (marks c mark).2 mem
  refine ⟨(front.smooth.joint nonempty inside nonempty' (by decide)).append (by decide), ?_, ?_, ?_⟩
  · have feed := s.notMem_indexText (c := '\n') (by decide) (by decide)
    simp [front.line, feed]
  · rw [String.append_assoc, String.append_assoc]
    exact startsSolid_append front.starts _
  · exact endsSolid_append _ (by decide)

/-- Does the index stand close to its brackets, behind an operand whose last character is no dollar sign? -/
def isTight (s : Subscript) : Bool :=
  s.front.text == "" && s.back.text == "" && (sourceText s.array.tokens).toList.getLast? != some '$'

/-- The index in the translation. -/
def indexLua (s : Subscript) : String := if s.isTight then Nat.repr (s.index.value + 1) else s.indexText

/-- The translation of the assignment. -/
def lua (s : Subscript) : String := polish s.assignment.lua ++ "[" ++ s.indexLua ++ "]"

/-- White space around an index is no part of a number. -/
theorem eq_empty_of_isDecimal (decimal : ∀ c ∈ s.indexText.toList, isDecimal c = true) :
    s.front.text = "" ∧ s.back.text = "" := by
  have padding : ∀ p : Padding, (∀ c ∈ p.text.toList, c ∈ s.indexText.toList) → p.text = "" := by
    intro p among
    rw [← String.toList_eq_nil_iff, List.eq_nil_iff_forall_not_mem]
    intro c mem
    have space := isInlineSpace_of_isDecimal (decimal c (among c mem))
    simp [p.inline c mem] at space
  exact ⟨padding s.front fun c mem => by simp [indexText, mem], padding s.back fun c mem => by simp [indexText, mem]⟩

/-- An index with white space around it is not seen. -/
theorem eq_empty_of_indexAt {digits rest : List Char}
    (found : IndexAt ('[' :: (s.indexText.toList ++ [']'])) digits rest) : s.front.text = "" ∧ s.back.text = "" := by
  have split := (List.cons.inj found.split).2
  -- the digits of the index reach over all that is written, since no other bracket closes
  rcases List.append_eq_append_iff.mp split with ⟨others, shape, -⟩ | ⟨others, shape, last⟩
  · exact eq_empty_of_isDecimal fun c mem => found.decimal c (by simp [shape, mem])
  · cases others with
    | nil => exact eq_empty_of_isDecimal fun c mem => found.decimal c (by simpa [shape] using mem)
    | cons d others =>
      obtain ⟨rfl, -⟩ := List.cons.inj last
      exact absurd (by simp [shape]) (s.notMem_indexText (c := ']') (by decide) (by decide))

theorem indexText_of_isTight (tight : s.isTight = true) : s.indexText = s.index.text := by
  simp only [isTight, Bool.and_eq_true, beq_iff_eq] at tight
  rw [indexText, tight.1.1, tight.1.2, String.empty_append, String.append_empty]

theorem shifts_index (s : Subscript) (last : (sourceText s.array.tokens).toList.getLast? = some c)
    (follows : endsTarget c = (c != '$')) :
    Shifts (some c) ('[' :: (s.indexText.toList ++ [']'])) ('[' :: (s.indexLua.toList ++ [']'])) := by
  rw [indexLua]
  split
  · rename_i tight
    have target : (some c).any endsTarget = true := by
      simpa [isTight, last, follows] using (Bool.and_eq_true_iff.mp tight).2
    have digits : (Nat.repr (s.index.value + 1)).toList = Nat.toDigits 10 (decimalValue s.index.text.toList + 1) := by
      rw [decimalValue_eq s.index.digits]
      exact String.toList_ofList
    rw [indexText_of_isTight tight, digits]
    have found : IndexAt ('[' :: (s.index.text.toList ++ [']'])) s.index.text.toList [] :=
      ⟨rfl, mt String.toList_eq_nil_iff.mp s.index.nonempty, fun d mem => isDecimal_of_isDigit (s.index.digits d mem)⟩
    have shifted := Shifts.index found target .nil
    rwa [List.append_nil] at shifted
  · rename_i loose
    have bracket : '[' ∉ s.indexText.toList ++ [']'] := by
      simp [s.notMem_indexText (c := '[') (by decide) (by decide)]
    refine .char (fun target digits rest found => loose ?_) (.refl bracket _)
    have dollar : c ≠ '$' := by simpa [follows] using target
    simp [isTight, eq_empty_of_indexAt found, last, dollar]

theorem polish_written (s : Subscript) : polish (s.assignment.lua ++ "[" ++ s.indexText ++ "]") = s.lua := by
  obtain ⟨front, front', name, translated, source, known⟩ := s.array.exists_last
  obtain ⟨c, last, follows⟩ := endsTarget_last known
  have ends : s.assignment.lua.toList.getLast? = some c := by
    change (s.name.text ++ " = " ++ s.array.lua).toList.getLast? = _
    rw [translated, ← String.append_assoc, String.toList_append, List.getLast?_append, last]
    rfl
  have ends' : (sourceText s.array.tokens).toList.getLast? = some c := by
    rw [source, String.toList_append, List.getLast?_append, last]
    rfl
  have whole : Shifts none (s.assignment.lua.toList ++ '[' :: (s.indexText.toList ++ [']']))
      ((polish s.assignment.lua).toList ++ '[' :: (s.indexLua.toList ++ [']'])) := by
    refine s.assignment.isLine_lua.shifts_polish.append_behind ?_ ?_
    · rw [ends]
      exact s.shifts_index ends' follows
    · rw [List.dropWhile_cons_of_neg (by decide), List.head?_cons]
      decide
  have polished := s.isLine_written.shifts_polish
  have chars : (s.assignment.lua ++ "[" ++ s.indexText ++ "]").toList =
      s.assignment.lua.toList ++ '[' :: (s.indexText.toList ++ [']']) := by simp
  rw [chars] at polished
  rw [← String.toList_inj, polished.eq whole, lua]
  generalize polish s.assignment.lua = front
  simp

theorem transpile_line (s : Subscript) : transpile s.line = ⟨.ok s.lua, []⟩ := by
  have enough : s.array.depth ≤ 2 * textSize (s.tokens ++ [Token.eof]) + 1 := by
    have depth := s.array.depth_le
    have size := length_le_textSize (s.legible false)
    rw [textSize_append]
    simp only [tokens, bodyTokens, List.length_append] at size ⊢
    omega
  obtain ⟨before, run⟩ := s.statements enough ⟨0, []⟩
  have whole := run.transpile_eq (.of_legible s.legible) (List.cons_ne_nil _ _) s.grouped_tokens
  rwa [s.text_written, s.polish_written] at whole

theorem indexLua_eq_iff (s : Subscript) : s.indexLua = Nat.repr (s.index.value + 1) ↔ s.isTight = true := by
  rw [indexLua]
  refine ⟨fun same => ?_, fun tight => if_pos tight⟩
  by_contra loose
  rw [if_neg loose] at same
  have digits : s.indexText.toList = Nat.toDigits 10 (s.index.value + 1) := by
    rw [same]
    exact String.toList_ofList
  -- white space is no digit, so the text is the numeral alone, and no number is its own successor
  have decimal : ∀ c ∈ s.indexText.toList, isDecimal c = true := by
    rw [digits]
    exact fun c mem => isDecimal_of_isDigit (Nat.isDigit_of_mem_toDigits (by decide) (by decide) mem)
  obtain ⟨front, back⟩ := eq_empty_of_isDecimal decimal
  rw [indexText, front, back, String.empty_append, String.append_empty] at digits
  have value : s.index.value = s.index.value + 1 := by
    have read : Nat.ofDigitChars 10 (Nat.toDigits 10 (s.index.value + 1)) 0 = s.index.value + 1 := Nat.ofDigitChars_ten_toDigits
    rwa [← digits] at read
  exact absurd value (Nat.ne_of_lt (Nat.lt_succ_self _))

end Subscript

/-- The translation of an assignment of an operand with a number as its index, beside that of the operand alone. The index
is counted from one exactly if it stands close to its brackets and the operand does not end in a dollar sign; otherwise it
is left as it is. -/
theorem transpile_subscript (s : Subscript) :
    transpile s.assignment.line = ⟨.ok (polish s.assignment.lua), []⟩ ∧
      transpile s.line = ⟨.ok (polish s.assignment.lua ++ "[" ++ s.indexLua ++ "]"), []⟩ ∧
      (s.indexLua = Nat.repr (s.index.value + 1) ↔ s.isTight = true) := by
  have alone := transpile_ofLines s.assignment []
  exact ⟨by simpa using alone, s.transpile_line, s.indexLua_eq_iff⟩

/-- An index with blanks around it is not counted from one. -/
theorem transpile_loose_index : (transpile "y = a[ 0 ];").outcome = .ok "y = a[ 0 ]" := by
  decide +kernel

end NoteScript

import NoteScript.Proofs.Expression
import NoteScript.Proofs.Operand

/-!
# The entries of a translation

The rules write the translation of a tree entry by entry. How it is cut into entries decides what can be
taken back again.

* `Expr.written`: the entries; `text_written`: together they are the translation.
* `paired_lua`: a translation closes its brackets.
* `attached_written`: the entries of an operand hang together; `takeOperand_written`: they are taken back
  as they were written.
-/

namespace NoteScript

open Buffer Text

/-! ### Words -/

/-- A text of characters that names are made of. -/
def IsWord (s : String) : Prop := s ≠ "" ∧ ∀ c ∈ s.toList, Token.continuesName c = true

namespace IsWord

variable {s : String}

theorem ne_of_mem (h : IsWord s) {c : Char} (hc : c ∈ s.toList) {other : Char}
    (outside : Token.continuesName other = false) : c ≠ other :=
  Token.ne_of_continuesName (h.2 c hc) other outside

theorem solid (h : IsWord s) : ∀ c ∈ s.toList, isSpace c = false := fun c hc => Token.isSpace_of_continuesName (h.2 c hc)

theorem paired (h : IsWord s) : Paired s := by
  refine .flat fun c hc => ?_
  have outside : ∀ other ∈ ['(', ')', '[', ']', '\n', '"'], Token.continuesName other = false := by decide
  intro mem
  exact h.ne_of_mem hc (outside c mem) rfl

theorem starts (h : IsWord s) : startsOperand s = true := by
  obtain ⟨c, cs, chars⟩ : ∃ c cs, s.toList = c :: cs :=
    List.exists_cons_of_ne_nil fun empty => h.1 (String.toList_eq_nil_iff.mp empty)
  have mem : c ∈ s.toList := by simp [chars]
  have point : c ≠ '.' := h.ne_of_mem mem (by decide)
  have colon : c ≠ ':' := h.ne_of_mem mem (by decide)
  simp [startsOperand, chars, h.solid c mem, point, colon]

theorem ends (h : IsWord s) : endsSolid s = true := endsSolid_of_solid h.1 h.solid

/-- A word is an operand, unless it is one at which operands end. -/
theorem attached (h : IsWord s) (other : s ∉ statementWords ++ binaryOperators ++ bodyWords) (operatorsEnd : Bool) :
    Attached operatorsEnd [s] := by
  have inside : ∀ c ∈ s.toList, isSpace c = false ∧ c ≠ '=' ∧ c ≠ ')' :=
    fun c hc => ⟨h.solid c hc, h.ne_of_mem hc (by decide), h.ne_of_mem hc (by decide)⟩
  exact .entry (isBoundary_of_solid h.1 inside other) h.paired.level
    (not_isBlank_of_startsSolid (startsSolid_of_startsOperand h.starts)) (startsMember_eq_false h.starts)

/-- A member goes on with the operand in front of it. -/
theorem attached_member (h : IsWord s) {mark : String} (joint : mark ∈ [".", ":"]) {operatorsEnd : Bool} {es : Buffer}
    (chain : Attached operatorsEnd es) : Attached operatorsEnd (es ++ [mark ++ s]) := by
  have joints : ∀ mark ∈ [".", ":"], Paired mark ∧ startsSolid mark = true ∧
      ∀ c ∈ mark.toList, isSpace c = false ∧ c ≠ '=' ∧ c ≠ ')' := by
    intro mark mem
    rcases List.mem_pair.mp mem with rfl | rfl <;> exact ⟨.flat (by decide), by decide, by decide⟩
  obtain ⟨paired, starts, solid⟩ := joints mark joint
  have inside : ∀ c ∈ (mark ++ s).toList, isSpace c = false ∧ c ≠ '=' ∧ c ≠ ')' := by
    intro c hc
    rcases List.mem_append.mp (String.toList_append ▸ hc) with hc | hc
    · exact solid c hc
    · exact ⟨h.solid c hc, h.ne_of_mem hc (by decide), h.ne_of_mem hc (by decide)⟩
  have other : mark ++ s ∉ statementWords ++ binaryOperators ++ bodyWords := by
    intro mem
    -- behind a point or a colon none of these words has the characters of a name
    have words : ∀ word ∈ statementWords ++ binaryOperators ++ bodyWords, ∀ mark ∈ [".", ":"],
        mark.toList.isPrefixOf word.toList = true → word.toList.drop 1 = ['.'] := by decide
    have tail : (mark ++ s).toList.drop 1 = s.toList := by
      rcases List.mem_pair.mp joint with rfl | rfl <;> simp
    have point := words _ mem mark joint (by simp)
    rw [tail] at point
    exact h.ne_of_mem (c := '.') (by simp [point]) (by decide) rfl
  exact chain.member (isBoundary_of_solid (by simp [h.1]) inside other) (paired.append h.paired).level
    (not_isBlank_of_startsSolid (startsSolid_append starts s))

end IsWord

/-! ### Names, numbers and methods -/

namespace Identifier

variable (x : Identifier)

theorem isWord : IsWord x.text := Token.continuesName_of_isNameText x.isName

theorem attached (operatorsEnd : Bool) : Attached operatorsEnd [x.text] := by
  refine x.isWord.attached (fun mem => ?_) operatorsEnd
  have words : ∀ word ∈ statementWords ++ binaryOperators ++ bodyWords,
      word ∈ reservedWords ++ luaWords ++ knownNames ∨ Token.isNameText word = false := by decide
  rcases words x.text mem with taken | other
  · exact x.free taken
  · simp [x.isName] at other

end Identifier

namespace Numeral

variable (n : Numeral)

theorem isWord : IsWord n.text := ⟨n.nonempty, fun c hc => Token.continuesName_of_isDigit (n.digits c hc)⟩

theorem attached (operatorsEnd : Bool) : Attached operatorsEnd [n.text] := by
  refine n.isWord.attached (fun mem => ?_) operatorsEnd
  have words : ∀ word ∈ statementWords ++ binaryOperators ++ bodyWords, word.toList.any (!·.isDigit) = true := by decide
  obtain ⟨c, hc, other⟩ := List.any_eq_true.mp (words n.text mem)
  simp [n.digits c hc] at other

end Numeral

theorem Link.isWord (m : Link) : IsWord m.lua := by
  have names : ∀ name ∈ "filter" :: Method.chained, Token.isNameText (if name = "filter" then "where" else name) = true := by
    decide
  exact Token.continuesName_of_isNameText (names m.name m.known)

theorem Parameters.paired_lua (params : Parameters) : Paired params.lua := by
  cases params with
  | single x => exact x.isWord.paired
  | several xs =>
    rw [Parameters.lua]
    induction xs with
    | nil => exact .flat (by simp)
    | cons x xs ih =>
      cases xs with
      | nil => simpa using x.isWord.paired
      | cons y ys =>
        rw [List.map_cons, List.map_cons, String.intercalate_cons_cons]
        exact x.isWord.paired.between ih (by decide)

theorem Rules.paired_asReceiver {s : String} (h : Paired s) : Paired (Rules.asReceiver s) := by
  unfold Rules.asReceiver
  split
  · exact h
  · exact h.enclosed (by decide)

theorem UnaryMethod.paired_inside (m : UnaryMethod) {receiver argument : String} (h : Paired receiver)
    (h' : Paired argument) : Paired (m.inside receiver argument) := by
  have receives := Rules.paired_asReceiver h
  have listed : Paired (receiver ++ ", " ++ argument) := h.between h' (by decide)
  cases m with
  | push | join => exact listed
  | includes => exact receives.append (h'.enclosed (by decide))
  | startsWith | endsWith => exact (receives.append (h'.enclosed (by decide))).append h'

theorem Sign.attached (sign : Sign) {es es' : Buffer} (h : Attached false es) (h' : Attached false es') :
    Attached false (es ++ [" ", sign.lua, " "] ++ es') := by
  have signs : isBoundary false sign.lua = false ∧ closedIn sign.lua.toList = 0 ∧ isBlank sign.lua = false ∧
      startsMember sign.lua = false := by cases sign <;> decide
  obtain ⟨free, flat, solid, first⟩ := signs
  exact h.binary h' free flat solid first

theorem Sign.isOperand (sign : Sign) {es es' : Buffer} (h : IsOperand false es) (h' : IsOperand false es') :
    IsOperand false (es ++ [" ", sign.lua, " "] ++ es') := by
  have between : Paired (Buffer.text [" ", sign.lua, " "]) := by cases sign <;> exact .flat (by decide)
  have attached := sign.attached h.attached h'.attached
  rw [List.append_assoc] at attached ⊢
  refine h.extend attached (getLast?_any_append _ h'.ends) ?_
  rw [text_append]
  exact between.append h'.paired

/-- The call of a method is written in one entry. -/
theorem UnaryMethod.called_lua (m : UnaryMethod) {receiver argument : String} (h : Paired receiver) (h' : Paired argument) :
    Called (m.lua receiver argument) := by
  have callees : Paired m.callee ∧ endsFunctionHead m.callee.toList.reverse = false ∧ startsOperand (m.callee ++ "(") = true := by
    cases m <;> exact ⟨.flat (by decide), by decide, by decide⟩
  rw [m.lua_eq]
  exact .mk callees.1 (m.paired_inside h h') callees.2.1 callees.2.2

namespace Expr

variable {cat : Category} {operatorsEnd : Bool}

/-! ### Entries -/

/-- The entries in which the translation of a tree is written. What takes an operand back is one entry. -/
def written {cat : Category} : Expr cat → Buffer
  | choice test yes no => [(choice test yes no).lua]
  | plain e => e.written
  | number n => [n.text]
  | operand p => p.written
  | length p => [(length p).lua]
  | negation e => ["not "] ++ e.written
  | binary sign left right => left.written ++ [" ", sign.lua, " "] ++ right.written
  | name x => [x.text]
  | parens e => ["("] ++ e.written ++ [")"]
  | field p f => p.written ++ ["." ++ f.text]
  | index p e => p.written ++ (["["] ++ e.written ++ ["]"])
  | call p args => p.written ++ (["("] ++ args.written ++ [")"])
  | link p m args => p.written ++ [":" ++ m.lua] ++ (["("] ++ args.written ++ [")"])
  | unaryCall p m e => [(unaryCall p m e).lua]
  | toText p => [(toText p).lua]
  | value e => e.written
  | arrow params e => ["function(" ++ params.lua ++ ") return "] ++ e.written ++ [" end"]
  | last a => a.written
  | more a rest => a.written ++ [",", " "] ++ rest.written
  | noArguments => []
  | someArguments args => args.written

theorem text_written (e : Expr cat) : text e.written = e.lua := by
  have pair : ∀ a b, text [a, b] = a ++ b := by simp [text]
  have triple : ∀ a b c, text [a, b, c] = a ++ b ++ c := by simp [text, String.append_assoc]
  induction e with
  | more a rest first others =>
    have comma : ", " = "," ++ " " := rfl
    rw [written, text_append, text_append, pair, first, others, lua, comma]
  | binary sign left right first second =>
    rw [written, text_append, text_append, triple, first, second, lua]
    simp only [String.append_assoc]
  | noArguments => rfl
  | choice | length | unaryCall | toText => rw [written, text_singleton]
  | number | name => rw [written, text_singleton, lua]
  | plain e ih | operand p ih | value e ih | last a ih | someArguments args ih => rw [written, ih, lua]
  | negation e ih => rw [written, text_append, text_singleton, ih, lua]
  | field p f ih => rw [written, text_append, text_singleton, ih, lua, String.append_assoc]
  | parens e ih | arrow params e ih => simp only [written, text_append, text_singleton, ih, lua]
  | index p e ih ih' | call p e ih ih' | link p m e ih ih' =>
    simp only [written, text_append, text_singleton, ih, ih', lua, String.append_assoc]

/-! ### Brackets -/

/-- A conditional is written in one entry. -/
theorem called_choiceText {test yes no : String} (h : Paired test) (h' : Paired yes) (h'' : Paired no) :
    Called (choiceText test yes no) := by
  change Called ("(function() if " ++ test ++ " then return " ++ yes ++ " else return " ++ no ++ " end end)()")
  have shape : "(function() if " ++ test ++ " then return " ++ yes ++ " else return " ++ no ++ " end end)()" =
      "(function() if " ++ (test ++ " then return " ++ yes ++ " else return " ++ no) ++ " end end)" ++ "(" ++ "" ++ ")" := by
    have closing : " end end)()" = " end end)" ++ "(" ++ "" ++ ")" := rfl
    simp only [closing, String.append_assoc]
  have inner : Paired (test ++ " then return " ++ yes ++ " else return " ++ no) :=
    (h.between h' (by decide)).between h'' (by decide)
  have noHead : ∀ cs, endsFunctionHead (')' :: cs) = false := fun cs => rfl
  rw [shape]
  refine .mk (inner.enclosed (by decide)) (.flat (by decide)) ?_ ?_
  · simp [noHead]
  · exact startsOperand_append (startsOperand_append (startsOperand_append (by decide) _) _) _

theorem solid_of_isSimpleOperand {s : String} (h : isSimpleOperand s = true) :
    ∀ c ∈ ("#" ++ s).toList, isSpace c = false ∧ c ≠ '=' ∧ c ≠ ')' := by
  have marks : ∀ c ∈ ['#', '.', ':'], isSpace c = false ∧ c ≠ '=' ∧ c ≠ ')' := by decide
  intro c hc
  rcases List.mem_cons.mp (by simpa using hc : c ∈ '#' :: s.toList) with rfl | inside
  · exact marks '#' (by decide)
  · simp only [isSimpleOperand, Bool.and_eq_true, List.all_eq_true, Bool.or_eq_true, beq_iff_eq] at h
    rcases h.2 c inside with (word | rfl) | rfl
    · have name : Token.continuesName c = true := by
        simp only [isWord, Bool.or_eq_true] at word
        simp only [Token.continuesName, Bool.or_eq_true]
        tauto
      exact ⟨Token.isSpace_of_continuesName name, Token.ne_of_continuesName name _ (by decide),
        Token.ne_of_continuesName name _ (by decide)⟩
    · exact marks '.' (by decide)
    · exact marks ':' (by decide)

/-- A length is written in one entry, with brackets around an operand that needs them. -/
theorem isOperand_lengthText {operand : String} (h : Paired operand) (operatorsEnd : Bool) :
    IsOperand operatorsEnd [lengthText operand] := by
  rw [lengthText]
  by_cases simple : isSimpleOperand operand = true
  · have starts : startsOperand ("#" ++ operand) = true := startsOperand_append (by decide) _
    have solid := solid_of_isSimpleOperand simple
    have other : "#" ++ operand ∉ statementWords ++ binaryOperators ++ bodyWords := by
      intro mem
      have words : ∀ word ∈ statementWords ++ binaryOperators ++ bodyWords, word.toList.head? ≠ some '#' := by decide
      exact words _ mem (by simp)
    have paired : Paired ("#" ++ operand) := .append (.flat (by decide)) h
    rw [if_pos simple]
    exact {
      attached := .entry (isBoundary_of_solid (by simp) solid other) paired.level
        (not_isBlank_of_startsSolid (startsSolid_of_startsOperand starts)) (startsMember_eq_false starts)
      starts := starts
      ends := endsSolid_of_solid (by simp) fun c hc => (solid c hc).1
      paired := by rwa [text_singleton] }
  · have shape : "#(" ++ operand ++ ")" = "#" ++ "(" ++ operand ++ ")" := by
      have opening : "#(" = "#" ++ "(" := rfl
      rw [opening]
    rw [if_neg simple, shape]
    exact Called.isOperand (.mk (.flat (by decide)) h (by decide) (by decide)) operatorsEnd

theorem paired_lua (e : Expr cat) : Paired e.lua := by
  induction e with rw [lua]
  | choice test yes no h h' h'' => exact (called_choiceText h h' h'').paired
  | plain e ih | operand p ih | value e ih | last a ih | someArguments args ih => exact ih
  | number n => exact n.isWord.paired
  | name x => exact x.isWord.paired
  | length p ih =>
    have paired := (isOperand_lengthText ih true).paired
    rwa [text_singleton] at paired
  | negation e ih => exact .append (.flat (by decide)) ih
  | binary sign left right h h' =>
    have spelled : Paired sign.lua := by cases sign <;> exact .flat (by decide)
    exact (h.between spelled (by decide)).between h' (by decide)
  | parens e ih | toText p ih => exact ih.enclosed (by decide)
  | field p f ih => exact ih.between f.isWord.paired (by decide)
  | index p e h h' | call p args h h' => exact h.suffix h' (by decide)
  | link p m args h h' => exact (h.between m.isWord.paired (by decide)).suffix h' (by decide)
  | unaryCall p m e h h' => exact (m.called_lua h h').paired
  | arrow params e ih =>
    exact ((params.paired_lua.enclosed (by decide)).append ih).append (.flat (by decide))
  | more a rest h h' => exact h.between h' (by decide)
  | noArguments => exact .flat (by decide)

theorem nested_written (e : Expr cat) : Nested e.written := by
  induction e with rw [written]
  | plain e ih | operand p ih | value e ih | last a ih | someArguments args ih => exact ih
  | number n => exact .entry n.isWord.paired.level
  | name x => exact .entry x.isWord.paired.level
  | choice test yes no => exact .entry (choice test yes no).paired_lua.level
  | length p => exact .entry (length p).paired_lua.level
  | unaryCall p m e => exact .entry (unaryCall p m e).paired_lua.level
  | toText p => exact .entry (toText p).paired_lua.level
  | negation e ih => exact .append (.entry (by decide)) ih
  | binary sign left right h h' =>
    have blank : Nested [" "] := .entry (by decide)
    have between : Nested [sign.lua] := .entry (by cases sign <;> decide)
    exact (h.append (blank.append (between.append blank))).append h'
  | parens e ih => exact ih.group (by decide)
  | field p f ih =>
    have paired : Paired ("." ++ f.text) := .append (.flat (by decide)) f.isWord.paired
    exact ih.append (.entry paired.level)
  | index p e h h' | call p e h h' => exact h.append (h'.group (by decide))
  | link p m args h h' =>
    have paired : Paired (":" ++ m.lua) := .append (.flat (by decide)) m.isWord.paired
    exact (h.append (.entry paired.level)).append (h'.group (by decide))
  | arrow params e ih =>
    have head : Paired ("function(" ++ params.lua ++ ") return ") := params.paired_lua.enclosed (by decide)
    exact (Nested.append (.entry head.level) ih).append (.entry (by decide))
  | more a rest h h' =>
    have comma : Nested [","] := .entry (by decide)
    have blank : Nested [" "] := .entry (by decide)
    exact (h.append (comma.append blank)).append h'
  | noArguments => exact .nil

theorem called_tostring {operand : String} (h : Paired operand) : Called ("tostring(" ++ operand ++ ")") := by
  have shape : "tostring(" ++ operand ++ ")" = "tostring" ++ "(" ++ operand ++ ")" := by
    have opening : "tostring(" = "tostring" ++ "(" := rfl
    rw [opening]
  rw [shape]
  exact .mk (.flat (by decide)) h (by decide) (by decide)

/-! ### Both ends -/

/-- A translation starts as an operand does, if there is one. -/
theorem written_starts (e : Expr cat) (present : cat.isPresent = true) : e.written.head?.any startsOperand = true := by
  have front : ∀ {es : Buffer}, es.head?.any startsOperand = true → ∀ es', (es ++ es').head?.any startsOperand = true := by
    intro es starts es'
    cases es with
    | nil => cases starts
    | cons => exact starts
  induction e with rw [written]
  | noArguments | someArguments => cases present
  | plain e ih | operand p ih | value e ih | last a ih => exact ih rfl
  | number n => exact n.isWord.starts
  | name x => exact x.isWord.starts
  | choice test yes no =>
    rw [lua, List.head?_cons, Option.any_some]
    exact (called_choiceText test.paired_lua yes.paired_lua no.paired_lua).starts
  | unaryCall p m e => exact (m.called_lua p.paired_lua e.paired_lua).starts
  | length p => exact (isOperand_lengthText p.paired_lua true).starts
  | toText p => exact (called_tostring p.paired_lua).starts
  | negation e | parens e => rfl
  | arrow params e => exact startsOperand_append (startsOperand_append (by decide) _) _
  | field p f ih => exact front (ih rfl) _
  | index p e h h' | call p e h h' => exact front (h rfl) _
  | binary sign left right h | more left right h | link p m args h =>
    rw [List.append_assoc]
    exact front (h rfl) _

theorem written_ends (e : Expr cat) (present : cat.isPresent = true) : e.written.getLast?.any endsSolid = true := by
  have back : ∀ es {es' : Buffer}, es'.getLast?.any endsSolid = true → (es ++ es').getLast?.any endsSolid = true :=
    getLast?_any_append
  have close : ∀ (es : Buffer) {e : String}, endsSolid e = true → (es ++ [e]).getLast?.any endsSolid = true :=
    fun es e ends => back es ends
  induction e with rw [written]
  | noArguments | someArguments => cases present
  | plain e ih | operand p ih | value e ih | last a ih => exact ih rfl
  | number n => exact n.isWord.ends
  | name x => exact x.isWord.ends
  | choice test yes no =>
    rw [lua, List.getLast?_singleton, Option.any_some]
    exact (called_choiceText test.paired_lua yes.paired_lua no.paired_lua).ends
  | unaryCall p m e => exact (m.called_lua p.paired_lua e.paired_lua).ends
  | toText p => exact (called_tostring p.paired_lua).ends
  | length p => exact (isOperand_lengthText p.paired_lua true).ends
  | negation e ih => exact back _ (ih rfl)
  | binary sign left right h h' | more left right h h' => exact back _ (h' rfl)
  | field p f ih => exact close _ (endsSolid_append _ f.isWord.ends)
  | parens e | arrow params e => exact close _ (by decide)
  | index p e h h' | call p e h h' | link p m args h h' => exact back _ (close _ (by decide))

theorem lua_starts (e : Expr cat) (present : cat.isPresent = true) : startsSolid e.lua = true := by
  rw [← text_written]
  exact startsSolid_of_head (e.written_starts present)

theorem lua_ends (e : Expr cat) (present : cat.isPresent = true) : endsSolid e.lua = true := by
  rw [← text_written]
  exact endsSolid_text (e.written_ends present)

theorem strip_lua (e : Expr cat) (present : cat.isPresent = true) : strip e.lua = e.lua :=
  strip_of_solid (e.lua_starts present) (e.lua_ends present)

/-! ### Taking back -/

/-- The entries of an operand hang together. -/
theorem attached_written (e : Expr cat) (operand : cat.isOperand operatorsEnd = true) : Attached operatorsEnd e.written := by
  induction e with rw [written]
  | number n => exact n.attached operatorsEnd
  | operand p ih => exact ih rfl
  | length p => exact (isOperand_lengthText p.paired_lua operatorsEnd).attached
  | negation e ih =>
    cases operatorsEnd with
    | true => cases operand
    | false => exact Attached.append (.entry (by decide) (by decide) (by decide) (by decide)) (ih rfl)
  | binary sign left right h h' =>
    cases operatorsEnd with
    | true => cases operand
    | false => exact sign.attached (h rfl) (h' rfl)
  | name x => exact x.attached operatorsEnd
  | parens e => exact .group e.nested_written (by decide)
  | field p f ih => exact f.isWord.attached_member (by decide) (ih rfl)
  | index p e ih =>
    exact (ih rfl).append (.group e.nested_written (by decide))
  | call p args ih =>
    exact (ih rfl).append (.group args.nested_written (by decide))
  | link p m args ih =>
    exact (m.isWord.attached_member (by decide) (ih rfl)).append (.group args.nested_written (by decide))
  | unaryCall p m e => exact (m.called_lua p.paired_lua e.paired_lua).attached operatorsEnd
  | toText p => exact (called_tostring p.paired_lua).attached operatorsEnd
  | _ => cases operand

theorem isOperand_written (e : Expr cat) (operand : cat.isOperand operatorsEnd = true) : IsOperand operatorsEnd e.written := by
  have present : cat.isPresent = true := by cases cat <;> first | rfl | cases operand
  exact {
    attached := e.attached_written operand
    starts := e.written_starts present
    ends := e.written_ends present
    paired := by rw [text_written]; exact e.paired_lua }

/-- An operand is taken back as it was written, with the blanks behind it. -/
theorem takeOperand_written (e : Expr cat)
    (operand : cat.isOperand operatorsEnd = true) {out trail : Buffer} (ready : Ready operatorsEnd out)
    (blank : ∀ entry ∈ trail, isBlank entry = true) :
    takeOperand (out ++ e.written ++ trail) operatorsEnd = (e.lua, out) := by
  rw [takeOperand_append ready (e.isOperand_written operand) blank, text_written]

end Expr

end NoteScript

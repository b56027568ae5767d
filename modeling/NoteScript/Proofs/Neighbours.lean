import NoteScript.Proofs.Sentence

/-!
# Sentences side by side

The semicolon that ends a sentence leaves nothing in the text. What keeps the next sentence from the text in
front of it is the white space between them, and not every kind of white space keeps it from every form.

* `Expr.luaBehind`: how a tree is translated right behind an operand, which its first operand takes to itself;
  `Expr.writtenOn_append`: the rules do that.
* `Sentence.pulls`: does a sentence take text of the sentence in front of it?
* `convertTokens_neighbours`: the translation of two sentences, and when it is made of those of each.
-/

namespace NoteScript

open Edit Buffer Text Token

/-! ### White space in front of an operand -/

def Space.char : Space → Char
  | blank => ' '
  | tab => '\t'
  | carriageReturn => '\r'
  | feed => '\n'

namespace Gap

/-- Does white space go on to another line? -/
def hasFeed (gap : Gap) : Bool := gap.any (·.char == '\n')

/-- The entries written for white space. -/
def written (gap : Gap) : Buffer := gap.tokens.map (·.text)

theorem text_written (gap : Gap) : text gap.written = sourceText gap.tokens := rfl

theorem toList_text : (gap : Gap) → (sourceText gap.tokens).toList = gap.map Space.char
  | [] => rfl
  | .feed :: gap => by
    have further := toList_text gap
    simp only [sourceText, String.toList_join, List.flatMap_map] at further ⊢
    simp [Gap.tokens, Space.char, further]
  | .blank :: gap | .tab :: gap | .carriageReturn :: gap => by
    have further := toList_text gap
    have added : ∀ c ts, (sourceText (addSpace c ts)).toList = c :: (sourceText ts).toList := by
      intro c ts
      unfold addSpace
      split <;> simp [sourceText, String.toList_join]
    rw [Gap.tokens, added, further]
    rfl

theorem blank_written (gap : Gap) : ∀ e ∈ gap.written, isBlank e = true := by
  intro e he
  obtain ⟨t, ht, rfl⟩ := List.mem_map.mp he
  exact (gap.blank_of_mem t ht).2.1

theorem written_ne_nil {gap : Gap} (h : gap ≠ []) : gap.written ≠ [] := by
  simpa [written] using gap.tokens_ne_nil h

theorem contains_written (gap : Gap) : gap.written.any (contains "\n") = gap.hasFeed := by
  rw [Bool.eq_iff_iff, List.any_eq_true, hasFeed, List.any_eq_true]
  have inside : '\n' ∈ (sourceText gap.tokens).toList ↔ ∃ e ∈ gap.written, '\n' ∈ e.toList := by
    rw [← text_written, Buffer.text, String.toList_join]
    simp
  simp only [contains_newline_iff, ← inside, toList_text, List.mem_map, beq_iff_eq]

/-- Behind white space that goes on to another line an expression begins. -/
theorem ready {gap : Gap} (h : gap.hasFeed = true) (out : Buffer) :
    Ready true (out ++ gap.written) ∧ Ready false (out ++ gap.written) := by
  have nonempty : gap ≠ [] := by
    rintro rfl
    cases h
  exact ⟨.blanks gap.blank_written (written_ne_nil nonempty) out, .feed gap.blank_written (gap.contains_written.trans h) out⟩

end Gap

/-! ### The first operand and the last one -/

namespace Expr

variable {cat : Category}

/-- The entries of the last operand of a tree. -/
def lastOperand {cat : Category} : Expr cat → Buffer
  | plain e => e.lastOperand
  | negation e => e.lastOperand
  | binary _ _ right => right.lastOperand
  | e => e.written

/-- The entries in front of the last operand. -/
def beforeLast {cat : Category} : Expr cat → Buffer
  | plain e => e.beforeLast
  | negation e => ["not "] ++ e.beforeLast
  | binary sign left right => left.written ++ [" ", sign.lua, " "] ++ right.beforeLast
  | _ => []

/-- The translation of a tree right behind a text that becomes part of its first operand. -/
def luaBehind (front : String) {cat : Category} : Expr cat → String
  | operand p => p.luaBehind front
  | length p => lengthText (p.luaBehind front)
  | binary sign left right => left.luaBehind front ++ " " ++ sign.lua ++ " " ++ right.lua
  | field p f => p.luaBehind front ++ "." ++ f.text
  | index p e => p.luaBehind front ++ "[" ++ e.lua ++ "]"
  | call p args => p.luaBehind front ++ "(" ++ args.lua ++ ")"
  | link p m args => p.luaBehind front ++ ":" ++ m.lua ++ "(" ++ args.lua ++ ")"
  | unaryCall p m e => m.lua (p.luaBehind front) e.lua
  | toText p => "tostring(" ++ p.luaBehind front ++ ")"
  | e => front ++ e.lua

/-- The entries of such a translation. -/
def writtenBehind (front : Buffer) {cat : Category} : Expr cat → Buffer
  | operand p => p.writtenBehind front
  | length p => [lengthText (p.luaBehind (text front))]
  | binary sign left right => left.writtenBehind front ++ [" ", sign.lua, " "] ++ right.written
  | field p f => p.writtenBehind front ++ ["." ++ f.text]
  | index p e => p.writtenBehind front ++ (["["] ++ e.written ++ ["]"])
  | call p args => p.writtenBehind front ++ (["("] ++ args.written ++ [")"])
  | link p m args => p.writtenBehind front ++ [":" ++ m.lua] ++ (["("] ++ args.written ++ [")"])
  | unaryCall p m e => [m.lua (p.luaBehind (text front)) e.lua]
  | toText p => ["tostring(" ++ p.luaBehind (text front) ++ ")"]
  | e => front ++ e.written

/-- Is the first operand of a tree taken back by a form that is written around it? -/
def takesBack {cat : Category} : Expr cat → Bool
  | plain e => e.takesBack
  | operand p => p.takesBack
  | binary _ left _ => left.takesBack
  | field p _ | index p _ | call p _ | link p _ _ => p.takesBack
  | length _ | unaryCall _ _ _ | toText _ => true
  | _ => false

theorem written_eq (e : Expr cat) : e.written = e.beforeLast ++ e.lastOperand := by
  induction e with
  | plain e ih => exact ih
  | negation e ih => simp [written, beforeLast, lastOperand, ih]
  | binary sign left right h h' => simp [written, beforeLast, lastOperand, h']
  | _ => rfl

theorem text_writtenBehind (e : Expr cat) (front : Buffer) : text (e.writtenBehind front) = e.luaBehind (text front) := by
  have triple : ∀ a b c, text [a, b, c] = a ++ b ++ c := by simp [Buffer.text, String.append_assoc]
  induction e with
  | operand p ih => exact ih
  | length | unaryCall | toText => exact text_singleton _
  | binary sign left right h h' =>
    simp only [writtenBehind, luaBehind, text_append, triple, text_written, h, String.append_assoc]
  | field p f ih | index p e ih | call p args ih | link p m args ih =>
    simp only [writtenBehind, luaBehind, text_append, text_singleton, text_written, ih, String.append_assoc]
  | choice | plain | number | negation | name | parens | value | arrow | last | more | noArguments | someArguments =>
    rw [writtenBehind, luaBehind, text_append, text_written] <;> simp

/-! ### Operands behind an operand -/

theorem isOperand_lastOperand (e : Expr cat) (operand : cat.isOperand false = true)
    (operatorsEnd : Bool) : IsOperand operatorsEnd e.lastOperand := by
  induction e with
  | choice | plain | value | arrow | last | more | noArguments | someArguments => cases operand
  | number n =>
    have paired : Paired (Buffer.text [n.text]) := by rw [text_singleton]; exact n.isWord.paired
    exact ⟨n.attached operatorsEnd, n.isWord.starts, n.isWord.ends, paired⟩
  | length p => exact isOperand_lengthText p.paired_lua operatorsEnd
  | negation e ih => exact ih rfl
  | binary sign left right h h' => exact h' rfl
  | operand p => exact p.isOperand_written rfl
  | _ => exact isOperand_written _ rfl

/-- A condition may have any operand in the place of its last one. -/
theorem isOperand_beforeLast (e : Expr cat) {es : Buffer} (h : IsOperand false es) : IsOperand false (e.beforeLast ++ es) := by
  induction e with
  | plain e ih => exact ih
  | negation e ih =>
    have sign : Attached false ["not "] := .entry (by decide) (by decide) (by decide) (by decide)
    have paired : Paired (Buffer.text (["not "] ++ (e.beforeLast ++ es))) := by
      rw [text_append]
      exact .append (.flat (by decide)) ih.paired
    rw [beforeLast, List.append_assoc]
    exact ⟨sign.append ih.attached, rfl, getLast?_any_append _ ih.ends, paired⟩
  | binary sign left right _ ih =>
    rw [beforeLast, List.append_assoc]
    exact sign.isOperand (left.isOperand_written rfl) ih
  | _ => exact h

/-- Behind an operand the first operand of a tree grows, and the tree is an operand as before. -/
theorem isOperand_behind (e : Expr cat) {operatorsEnd : Bool}
    (operand : cat.isOperand operatorsEnd = true) {front : Buffer} (h : ∀ operatorsEnd, IsOperand operatorsEnd front) :
    IsOperand operatorsEnd (e.writtenBehind front) := by
  have inside : ∀ {cat : Category} (e : Expr cat), Paired (Buffer.text e.written) := by
    intro cat e
    rw [text_written]
    exact e.paired_lua
  have member : ∀ {es : Buffer} {mark name : String}, IsOperand operatorsEnd es → IsWord name → mark ∈ [".", ":"] →
      IsOperand operatorsEnd (es ++ [mark ++ name]) := by
    intro es mark name chain word joint
    have joints : ∀ mark ∈ [".", ":"], Paired mark := by
      simp only [List.mem_cons, List.not_mem_nil, or_false]
      rintro mark (rfl | rfl) <;> exact .flat (by decide)
    have paired : Paired (Buffer.text [mark ++ name]) := by
      rw [text_singleton]
      exact (joints mark joint).append word.paired
    exact chain.extend (word.attached_member joint chain.attached) (endsSolid_append _ word.ends) paired
  induction e with
  | operand p ih => exact ih rfl
  | number n => exact (h _).append ((number n).isOperand_written operand)
  | negation e => exact (h _).append ((negation e).isOperand_written operand)
  | name x => exact (h _).append ((name x).isOperand_written operand)
  | parens e => exact (h _).append ((parens e).isOperand_written operand)
  | length p ih =>
    have paired := (ih rfl).paired
    rw [text_writtenBehind] at paired
    exact isOperand_lengthText paired operatorsEnd
  | toText p ih =>
    have paired := (ih rfl).paired
    rw [text_writtenBehind] at paired
    exact (called_tostring paired).isOperand operatorsEnd
  | unaryCall p m e ih =>
    have paired := (ih rfl).paired
    rw [text_writtenBehind] at paired
    exact (m.called_lua paired e.paired_lua).isOperand operatorsEnd
  | binary sign left right ih =>
    cases operatorsEnd with
    | true => cases operand
    | false => exact sign.isOperand (ih rfl) (right.isOperand_written rfl)
  | field p f ih => exact member (ih rfl) f.isWord (by decide)
  | index p e ih => exact (ih rfl).group e.nested_written (inside e) (by decide)
  | call p args ih => exact (ih rfl).group args.nested_written (inside args) (by decide)
  | link p m args ih => exact (member (ih rfl) m.isWord (by decide)).group args.nested_written (inside args) (by decide)
  | _ => cases operand

/-- Right behind an operand the first operand of a tree goes on with the one in front. -/
theorem writtenOn_append (e : Expr cat) (simple : cat.isOperand false = true) {older front : Buffer}
    (ready : Ready true older) (operand : ∀ operatorsEnd, IsOperand operatorsEnd front) :
    e.writtenOn (older ++ front) = older ++ e.writtenBehind front := by
  have wrapped : ∀ {callable} (p : Expr (.chain callable)) (form : String → String),
      wrapOperand (older ++ p.writtenBehind front) true form = older ++ [form (p.luaBehind (Buffer.text front))] := by
    intro callable p form
    have nothing : ∀ entry ∈ ([] : Buffer), isBlank entry = true := by simp
    have taken := takeOperand_append ready (p.isOperand_behind rfl operand) nothing
    rw [List.append_nil, text_writtenBehind] at taken
    rw [wrapOperand, taken]
  induction e with
  | operand p ih => exact ih rfl
  | number | name | parens | negation => simp [writtenOn, writtenBehind]
  | length p ih | toText p ih | unaryCall p m e ih => rw [writtenOn, ih rfl, wrapped, writtenBehind]
  | field p f ih | index p e ih | call p args ih | link p m args ih => simp [writtenOn, writtenBehind, ih rfl]
  | binary sign left right ih =>
    rw [writtenOn, ih rfl, signBehind_operand (left.isOperand_behind rfl operand)]
    simp [writtenBehind]
  | _ => cases simple

end Expr

/-! ### What grows is another text -/

/-- A text that starts as a call does, with brackets that close: what closes its brackets in front of a place ends
before the bracket that opens or behind the one that closes it. -/
theorem length_front {callee inside tail front rest : List Char} (flat : ∀ c ∈ callee, c ∉ ['(', ')', '[', ']'])
    (closed : closes 0 inside = true) (level : closedIn front = 0)
    (same : callee ++ '(' :: (inside ++ ')' :: tail) = front ++ rest) :
    front.length ≤ callee.length ∨ callee.length + inside.length + 2 ≤ front.length := by
  by_contra between
  obtain ⟨m, size, short⟩ : ∃ m, front.length = callee.length + (m + 1) ∧ m ≤ inside.length :=
    ⟨front.length - callee.length - 1, by omega, by omega⟩
  have shape : front = callee ++ '(' :: inside.take m := by
    have taken := congrArg (List.take front.length) same
    rw [List.take_left, size, List.take_length_add_append, List.take_succ_cons, List.take_append_of_le_length short] at taken
    exact taken.symm
  have open_ : closedIn ('(' :: inside.take m) = -1 + closedIn (inside.take m) := rfl
  have inner := (closes_iff.mp closed).2 m
  rw [shape, closedIn_append, closedIn_eq_zero flat, open_] at level
  omega

/-- A call around a longer operand is no text in front of a call. -/
theorem called_ne {callee inside inside' tail front : List Char} (flat : ∀ c ∈ callee, c ∉ ['(', ')', '[', ']'])
    (closed : closes 0 inside = true) (level : closedIn front = 0) (nonempty : front ≠ []) :
    callee ++ '(' :: (inside ++ ')' :: tail) ≠ front ++ (callee ++ '(' :: (inside' ++ ')' :: tail)) := by
  intro same
  have size := congrArg List.length same
  rcases length_front flat closed level same with short | long
  · -- the first bracket of the one text stands further left than that of the other
    obtain ⟨more, shape⟩ : ∃ more, callee = front ++ more := ⟨callee.drop front.length, by
        have taken := congrArg (List.take front.length) same
        rw [List.take_left, List.take_append_of_le_length short] at taken
        rw [← taken, List.length_take, Nat.min_eq_left short, List.take_append_drop]⟩
    have first : ∀ cs ds : List Char, (∀ c ∈ cs, c ∉ ['(', ')', '[', ']']) → (cs ++ '(' :: ds).takeWhile (· != '(') = cs := by
      intro cs ds flat
      rw [List.takeWhile_append_of_pos fun c hc => by have := flat c hc; simp_all]
      simp
    have rest : more ++ '(' :: (inside ++ ')' :: tail) = callee ++ '(' :: (inside' ++ ')' :: tail) := by
      rw [shape, List.append_assoc] at same
      rw [shape]
      exact List.append_cancel_left same
    have heads := congrArg (List.takeWhile (· != '(')) rest
    rw [first more _ fun c hc => flat c (by simp [shape, hc]), first callee _ flat] at heads
    have := congrArg List.length shape
    have := congrArg List.length heads
    have := List.length_pos_iff.mpr nonempty
    simp only [List.length_append] at *
    omega
  · simp only [List.length_append, List.length_cons] at size
    omega

theorem call_ne {callee inside inside' front : String} (flat : ∀ c ∈ callee.toList, c ∉ ['(', ')', '[', ']'])
    (closed : Paired inside) (level : closedIn front.toList = 0) (nonempty : front ≠ "") :
    callee ++ "(" ++ inside ++ ")" ≠ front ++ (callee ++ "(" ++ inside' ++ ")") := by
  intro same
  have chars : callee.toList ++ '(' :: (inside.toList ++ ')' :: []) =
      front.toList ++ (callee.toList ++ '(' :: (inside'.toList ++ ')' :: [])) := by
    simpa using congrArg String.toList same
  exact called_ne flat closed.closes level (mt String.toList_eq_nil_iff.mp nonempty) chars

/-- A conditional around a longer condition is no text in front of a conditional. -/
theorem choiceText_ne {test test' yes no front : String} (h : Paired test) (h' : Paired yes) (h'' : Paired no)
    (level : closedIn front.toList = 0) (nonempty : front ≠ "") :
    Expr.choiceText test yes no ≠ front ++ Expr.choiceText test' yes no := by
  have shape : ∀ test : String, Expr.choiceText test yes no = "(" ++ ("function() if " ++ test ++ " then return " ++ yes ++
      " else return " ++ no ++ " end end") ++ ")()" := by
    intro test
    have opening : "(function() if " = "(" ++ "function() if " := rfl
    have closing : " end end)()" = " end end" ++ ")()" := rfl
    delta Expr.choiceText
    simp only [opening, closing, String.append_assoc]
  have closed : closes 0 ("function() if " ++ test ++ " then return " ++ yes ++ " else return " ++ no ++
      " end end").toList = true := by
    simp only [String.toList_append]
    exact closes_append (closes_append (closes_append (closes_append (closes_append (closes_append (by decide) h.closes)
      (by decide)) h'.closes) (by decide)) h''.closes) (by decide)
  rw [shape, shape]
  generalize "function() if " ++ test ++ " then return " ++ yes ++ " else return " ++ no ++ " end end" = inside at closed
  generalize "function() if " ++ test' ++ " then return " ++ yes ++ " else return " ++ no ++ " end end" = inside'
  intro same
  have chars : [] ++ '(' :: (inside.toList ++ ')' :: ['(', ')']) =
      front.toList ++ ([] ++ '(' :: (inside'.toList ++ ')' :: ['(', ')'])) := by
    simpa using congrArg String.toList same
  exact called_ne (by simp) closed level (mt String.toList_eq_nil_iff.mp nonempty) chars

/-- A length around a longer operand is no text in front of a length. -/
theorem lengthText_ne {operand operand' front : String} (closed : closes 0 operand.toList = true)
    (level : closedIn front.toList = 0) (nonempty : front ≠ "") :
    Expr.lengthText operand ≠ front ++ Expr.lengthText operand' := by
  intro same
  obtain ⟨c, cs, chars⟩ : ∃ c cs, front.toList = c :: cs :=
    List.exists_cons_of_ne_nil fun empty => nonempty (String.toList_eq_nil_iff.mp empty)
  obtain ⟨rest, hash⟩ : ∃ rest, (Expr.lengthText operand').toList = '#' :: rest := by
    unfold Expr.lengthText
    split
    · exact ⟨operand'.toList, by simp⟩
    · exact ⟨'(' :: (operand'.toList ++ [')']), by simp⟩
  have same' : (Expr.lengthText operand).toList = c :: (cs ++ '#' :: rest) := by
    rw [same, String.toList_append, chars, hash]
    rfl
  rw [Expr.lengthText] at same'
  split at same'
  · rename_i simple
    have inside : '#' ∈ operand.toList := by
      have tail : operand.toList = cs ++ '#' :: rest := by
        have := congrArg List.tail same'
        simpa using this
      rw [tail]
      simp
    simp only [isSimpleOperand, Bool.and_eq_true, List.all_eq_true] at simple
    exact absurd (simple.2 '#' inside) (by decide)
  · have shape : ['#'] ++ '(' :: (operand.toList ++ ')' :: []) = (c :: cs) ++ '#' :: rest := by
      simpa using same'
    rcases length_front (by decide) closed (chars ▸ level) shape with short | long
    · obtain rfl : cs = [] := List.length_eq_zero_iff.mp (by simpa using short)
      simp at shape
    · have size := congrArg List.length shape
      simp only [List.length_append, List.length_cons, List.length_nil] at size long
      omega

namespace Expr

variable {cat : Category} {gap : Gap}

/-- A tree takes nothing to itself if no form is written around its first operand. -/
theorem luaBehind_eq (e : Expr cat) (front : String) (h : e.takesBack = false)
    (simple : cat.isOperand false = true) : e.luaBehind front = front ++ e.lua := by
  induction e with
  | operand p ih => exact ih h rfl
  | length | unaryCall | toText => cases h
  | binary sign left right ih | field p f ih | index p e ih | call p args ih | link p m args ih =>
    rw [luaBehind, ih h rfl, lua]
    simp only [String.append_assoc]
  | number | negation | name | parens => rfl
  | _ => cases simple

/-- Where a form is written around the first operand, the text in front is taken into it. -/
theorem luaBehind_ne (e : Expr cat) {front : Buffer} (h : e.takesBack = true)
    (simple : cat.isOperand false = true) (operand : ∀ operatorsEnd, IsOperand operatorsEnd front) :
    e.luaBehind (Buffer.text front) ≠ Buffer.text front ++ e.lua := by
  have nonempty := (operand true).text_ne_empty
  have closed : ∀ {callable} (p : Expr (.chain callable)), Paired (p.luaBehind (Buffer.text front)) := by
    intro callable p
    have grown : IsOperand true (p.writtenBehind front) := p.isOperand_behind rfl operand
    rw [← text_writtenBehind]
    exact grown.paired
  have level := (operand true).paired.level
  induction e with
  | operand p ih => exact ih h rfl
  | length p => exact lengthText_ne (closed p).closes level nonempty
  | unaryCall p m e =>
    have flat : ∀ c ∈ m.callee.toList, c ∉ ['(', ')', '[', ']'] := by cases m <;> decide
    rw [luaBehind, lua, m.lua_eq, m.lua_eq]
    exact call_ne flat (m.paired_inside (closed p) e.paired_lua) level nonempty
  | toText p =>
    have opening : "tostring(" = "tostring" ++ "(" := rfl
    rw [luaBehind, lua, opening]
    exact call_ne (by decide) (closed p) level nonempty
  | binary sign left right ih | field p f ih | index p e ih | call p args ih | link p m args ih =>
    intro same
    simp only [luaBehind, lua, ← String.append_assoc, String.append_left_inj] at same
    exact ih h rfl same
  | number | negation | name | parens => cases h
  | _ => cases simple

/-! ### Expressions on one line -/

theorem isOperand_expression (e : Expr .expression) : IsOperand false e.written := by
  cases e with
  | plain e => exact e.isOperand_written rfl
  | choice test yes no => exact (called_choiceText test.paired_lua yes.paired_lua no.paired_lua).isOperand false

theorem isOperand_lastOperand_expression (e : Expr .expression) (operatorsEnd : Bool) : IsOperand operatorsEnd e.lastOperand := by
  cases e with
  | plain e => exact e.isOperand_lastOperand rfl operatorsEnd
  | choice test yes no => exact (called_choiceText test.paired_lua yes.paired_lua no.paired_lua).isOperand operatorsEnd

/-- In front of its last operand an expression lets an operand begin. -/
theorem ready_beforeLast (e : Expr cat) {out : Buffer} (ready : Ready true out) : Ready true (out ++ e.beforeLast) := by
  induction e generalizing out with
  | plain e ih => exact ih ready
  | negation e ih =>
    rw [beforeLast, ← List.append_assoc]
    exact ih (.stop out (.inl (by decide)))
  | binary sign left right _ ih =>
    have shape : out ++ (binary sign left right).beforeLast =
        out ++ left.written ++ [" ", sign.lua] ++ [" "] ++ right.beforeLast := by simp [beforeLast]
    rw [shape]
    exact ih (.blank _)
  | _ => simpa [beforeLast] using ready

/-- The translation of an expression that follows another one on its line: the last operand of the one is part of the
first operand of the other, if nothing stands between them. -/
def luaBeside (first : Expr .expression) (gap : Gap) (e : Expr .simple) : String :=
  if gap.isEmpty then Buffer.text first.beforeLast ++ e.luaBehind (Buffer.text first.lastOperand)
  else first.lua ++ sourceText gap.tokens ++ e.lua

/-- The entries of such a translation. -/
def writtenBeside (first : Expr .expression) (gap : Gap) (e : Expr .simple) : Buffer :=
  if gap.isEmpty then first.beforeLast ++ e.writtenBehind first.lastOperand
  else first.written ++ gap.written ++ e.written

theorem text_writtenBeside (first : Expr .expression) (gap : Gap) (e : Expr .simple) :
    Buffer.text (first.writtenBeside gap e) = first.luaBeside gap e := by
  unfold writtenBeside luaBeside
  split
  · rw [text_append, text_writtenBehind]
  · rw [text_append, text_append, first.text_written, e.text_written]
    rfl

theorem isOperand_beside (first : Expr .expression) (inline : gap.hasFeed = false) (e : Expr .simple) :
    IsOperand false (first.writtenBeside gap e) := by
  unfold writtenBeside
  split
  · exact first.isOperand_beforeLast (e.isOperand_behind rfl first.isOperand_lastOperand_expression)
  · have line : ∀ entry ∈ gap.written, contains "\n" entry = false := by
      rw [← Gap.contains_written] at inline
      simpa using inline
    exact first.isOperand_expression.spaced (e.isOperand_written rfl) gap.blank_written line

theorem writtenOn_beside (first : Expr .expression) (gap : Gap) (e : Expr .simple) {older : Buffer} (ready : Ready true older) :
    e.writtenOn (older ++ (first.written ++ gap.written)) = older ++ first.writtenBeside gap e := by
  cases gap with
  | nil =>
    have shape : older ++ (first.written ++ Gap.written []) = older ++ first.beforeLast ++ first.lastOperand := by
      rw [first.written_eq]
      simp [Gap.written, Gap.tokens]
    rw [shape, e.writtenOn_append rfl (first.ready_beforeLast ready) first.isOperand_lastOperand_expression, List.append_assoc]
    rfl
  | cons space gap =>
    have blank : Ready true (older ++ (first.written ++ Gap.written (space :: gap))) := by
      rw [← List.append_assoc]
      exact .blanks (Gap.blank_written _) (Gap.written_ne_nil (by simp)) _
    rw [e.writtenOn_ready rfl blank, List.append_assoc]
    rfl

/-- The translation of an expression behind another one on its line. A conditional takes the whole other one into its
condition. -/
def luaAfter (first : Expr .expression) (gap : Gap) : Expr .expression → String
  | plain e => first.luaBeside gap e
  | choice test yes no => choiceText (first.luaBeside gap test) yes.lua no.lua

/-- The entries of such a translation. -/
def writtenAfter (first : Expr .expression) (gap : Gap) : Expr .expression → Buffer
  | plain e => first.writtenBeside gap e
  | choice test yes no => [choiceText (first.luaBeside gap test) yes.lua no.lua]

theorem text_writtenAfter (first : Expr .expression) (gap : Gap) (e : Expr .expression) :
    Buffer.text (first.writtenAfter gap e) = first.luaAfter gap e := by
  cases e with
  | plain e => exact first.text_writtenBeside gap e
  | choice test yes no => exact text_singleton _

theorem writtenOn_after (first : Expr .expression) (inline : gap.hasFeed = false) (e : Expr .expression)
    {older : Buffer} (ready : Ready true older ∧ Ready false older) :
    e.writtenOn (older ++ (first.written ++ gap.written)) = older ++ first.writtenAfter gap e := by
  cases e with
  | plain e => exact first.writtenOn_beside gap e ready.1
  | choice test yes no =>
    rw [writtenOn, first.writtenOn_beside gap test ready.1, wrapOperand,
      takeOperand_append ready.2 (first.isOperand_beside inline test) (List.forall_mem_singleton.mpr (by decide)),
      text_writtenBeside]
    rfl

/-- Behind another expression on its line an expression is translated as elsewhere, unless it takes from the other. -/
theorem luaAfter_eq_iff (first : Expr .expression) (inline : gap.hasFeed = false) (e : Expr .expression) :
    first.luaAfter gap e = first.lua ++ sourceText gap.tokens ++ e.lua ↔ (e.isChoice || gap.isEmpty && e.takesBack) = false := by
  cases e with
  | choice test yes no =>
    have level : closedIn (first.lua ++ sourceText gap.tokens).toList = 0 := by
      have blank : closedIn (sourceText gap.tokens).toList = 0 := closedIn_of_isBlank gap.blank_entries.isBlank_text
      rw [String.toList_append, closedIn_append, first.paired_lua.level, blank]
      rfl
    have nonempty : first.lua ++ sourceText gap.tokens ≠ "" := by
      have operand := first.isOperand_expression.text_ne_empty
      rw [first.text_written] at operand
      simp [operand]
    have paired := (first.isOperand_beside inline test).paired
    rw [text_writtenBeside] at paired
    simpa only [isChoice, luaAfter, lua, Bool.true_or, Bool.true_eq_false, iff_false] using
      choiceText_ne paired yes.paired_lua no.paired_lua level nonempty
  | plain e =>
    cases gap with
    | cons space gap => simp [luaAfter, luaBeside, isChoice, lua]
    | nil =>
      have nothing : sourceText (Gap.tokens []) = "" := rfl
      have whole : first.lua = Buffer.text first.beforeLast ++ Buffer.text first.lastOperand := by
        rw [← text_append, ← written_eq, text_written]
      rw [nothing, String.append_empty, whole]
      cases back : e.takesBack with
      | false => simp [luaAfter, luaBeside, isChoice, lua, takesBack, back, e.luaBehind_eq _ back rfl, String.append_assoc]
      | true =>
        have grown := e.luaBehind_ne back rfl first.isOperand_lastOperand_expression
        simpa [luaAfter, luaBeside, isChoice, lua, takesBack, back, String.append_assoc] using grown

end Expr

/-! ### Two sentences -/

namespace Sentence

/-- Is a sentence an expression that stands alone on the line of the sentence in front of it? -/
def sharesLine (s : Sentence) (gap : Gap) : Bool := s.lead.isAlone && !gap.hasFeed

/-- Does a sentence take text of the sentence in front of it? A conditional does so on the same line, and a form
written around its first operand does so where nothing stands between them. -/
def pulls (s : Sentence) (gap : Gap) : Bool := s.sharesLine gap && (s.body.isChoice || gap.isEmpty && s.body.takesBack)

/-- The translation of two sentences with white space between them. -/
def luaTogether (s₁ : Sentence) (gap : Gap) (s₂ : Sentence) : String :=
  if s₂.sharesLine gap then s₁.lead.lua ++ s₁.body.luaAfter gap s₂.body
  else s₁.lua ++ sourceText gap.tokens ++ s₂.lua

/-- The entries of such a translation. -/
def writtenTogether (s₁ : Sentence) (gap : Gap) (s₂ : Sentence) : Buffer :=
  if s₂.sharesLine gap then s₁.lead.written ++ s₁.body.writtenAfter gap s₂.body
  else s₁.written ++ gap.written ++ s₂.written

theorem text_writtenTogether (s₁ : Sentence) (gap : Gap) (s₂ : Sentence) :
    Buffer.text (s₁.writtenTogether gap s₂) = s₁.luaTogether gap s₂ := by
  unfold writtenTogether luaTogether
  split
  · rw [text_append, s₁.lead.text_written, Expr.text_writtenAfter]
  · rw [text_append, text_append, s₁.text_written, s₂.text_written]
    rfl

theorem statements_second (s₁ : Sentence) (gap : Gap) (s₂ : Sentence) {d : Nat} (enough : s₂.body.depth ≤ d)
    (before : List Token) (loops : LoopState) :
    Statements (Rules.within (d + 1))
      ⟨before, s₂.tokens ++ (ending true ++ [Token.eof]), s₁.written ++ gap.written, loops⟩
      ⟨(ending true).reverse ++ (s₂.tokens.reverse ++ before), [.eof], s₁.writtenTogether gap s₂, loops⟩ := by
  unfold writtenTogether
  cases shares : s₂.sharesLine gap with
  | false =>
    refine s₂.statements enough (.inl rfl) rfl fun alone => ?_
    have fed : gap.hasFeed = true := by simpa [sharesLine, alone] using shares
    exact ⟨(gap.ready fed s₁.written).1, fun _ => (gap.ready fed s₁.written).2⟩
  | true =>
    obtain ⟨lead, e⟩ := s₂
    cases lead with
    | assign | declare | giveBack => cases shares
    | alone =>
      have inline : gap.hasFeed = false := by simpa [sharesLine, Lead.isAlone] using shares
      have opens : s₁.lead.Opens [] := fun _ => ⟨.nil true, .nil false⟩
      have ready : Ready true s₁.lead.written ∧ Ready false s₁.lead.written := opens.ready
      have reads : Reads 0 e.depth e.tokens (ending true ++ [Token.eof]) (s₁.lead.written ++ (s₁.body.written ++ gap.written)) _ :=
        s₁.body.writtenOn_after inline e ready ▸ e.reads_whole (by decide) [.eof] _
      have taken := takes_alone e enough (.inl rfl) reads before loops
      refine statements_of_takes ⟨.alone, e⟩ ?_
      change Takes (Rules.within d).anyStatement _ () _
      simpa [tokens, Lead.tokens, written] using taken

theorem run_together (s₁ : Sentence) (gap : Gap) (s₂ : Sentence) {d : Nat} (enough₁ : s₁.body.depth ≤ d)
    (enough₂ : s₂.body.depth ≤ d) (loops : LoopState) :
    ∃ before, Statements (Rules.within (d + 1))
      ⟨[], s₁.tokens ++ (ending true ++ (gap.tokens ++ (s₂.tokens ++ (ending true ++ [Token.eof])))), [], loops⟩
      ⟨before, [.eof], s₁.writtenTogether gap s₂, loops⟩ := by
  have single : ((gap.tokens ++ (s₂.tokens ++ (ending true ++ [Token.eof]))).headD .eof).isPunct [","] = false := by
    cases spaces : gap.tokens with
    | nil =>
      obtain ⟨t, ts, shape, -, -, other, -⟩ := s₂.head_tokens
      simpa [shape] using other
    | cons t ts =>
      obtain ⟨kind, -⟩ := gap.blank_of_mem t (by simp [spaces])
      rcases kind with kind | kind <;> simp [isPunct, kind]
  have first : Statements (Rules.within (d + 1))
      ⟨[], s₁.tokens ++ (ending true ++ (gap.tokens ++ (s₂.tokens ++ (ending true ++ [Token.eof])))), [], loops⟩ _ :=
    s₁.statements enough₁ (.inl rfl) single fun _ => ⟨.nil true, fun _ => .nil false⟩
  have between : Statements (Rules.within (d + 1)) ⟨(ending true).reverse ++ (s₁.tokens.reverse ++ []),
      gap.tokens ++ (s₂.tokens ++ (ending true ++ [Token.eof])), [] ++ s₁.written, loops⟩ _ :=
    statements_blank (fun t ht => (gap.blank_of_mem t ht).1) _ _
  exact ⟨_, first.trans (between.trans (s₁.statements_second gap s₂ enough₂ _ loops))⟩

theorem legible_together (s₁ : Sentence) (gap : Gap) (s₂ : Sentence) :
    AlwaysLegible (s₁.tokens ++ ending true ++ gap.tokens ++ (s₂.tokens ++ ending true)) := by
  have solid : (s₂.tokens ++ ending true).head?.all (!·.isTrivia) = true := by
    obtain ⟨t, ts, shape, -, -, -, solid⟩ := s₂.head_tokens
    simp [shape, solid]
  have whole := s₁.legible.before_mark (Gap.legible (s₂.legible_ending true) solid gap) ";" rfl
  simpa [ending] using whole

/-- Two sentences are translated one by one, unless the second takes text of the first. -/
theorem luaTogether_eq_iff (s₁ : Sentence) (gap : Gap) (s₂ : Sentence) :
    s₁.luaTogether gap s₂ = s₁.lua ++ sourceText gap.tokens ++ s₂.lua ↔ s₂.pulls gap = false := by
  cases shares : s₂.sharesLine gap with
  | false => simp [luaTogether, pulls, shares]
  | true =>
    obtain ⟨lead, e⟩ := s₂
    cases lead with
    | assign | declare | giveBack => cases shares
    | alone =>
      have inline : gap.hasFeed = false := by simpa [sharesLine, Lead.isAlone] using shares
      have apart := s₁.body.luaAfter_eq_iff inline e
      simpa [luaTogether, pulls, shares, lua, Lead.lua, String.append_assoc] using apart

end Sentence

/-- Two sentences with white space between them. Each is translated as it is alone, and the white space stays,
exactly if the second one does not take text of the first; if it does, the text is that of the first with what is
taken in the operand or the condition of the second. There is nothing to report. -/
theorem convertTokens_neighbours (s₁ s₂ : Sentence) (gap : Gap) (ledger : Ledger) :
    ∃ code₁ code₂ code ledger₁ ledger₂ ledger',
      convertTokens (tokenize (sourceText (s₁.tokens ++ ending true))) ledger = (.ok code₁, ledger₁) ∧
      convertTokens (tokenize (sourceText (s₂.tokens ++ ending true))) ledger = (.ok code₂, ledger₂) ∧
      convertTokens (tokenize (sourceText (s₁.tokens ++ ending true ++ gap.tokens ++ (s₂.tokens ++ ending true)))) ledger =
        (.ok code, ledger') ∧
      ledger'.diagnostics = ledger.diagnostics ∧
      code = s₁.luaTogether gap s₂ ∧
      (code = code₁ ++ sourceText gap.tokens ++ code₂ ↔ s₂.pulls gap = false) := by
  obtain ⟨ledger₁, converted₁, -⟩ := (s₁.run true ledger.labels).convertTokens_readBack (.of_legible (s₁.legible_ending true))
  obtain ⟨ledger₂, converted₂, -⟩ := (s₂.run true ledger.labels).convertTokens_readBack (.of_legible (s₂.legible_ending true))
  rw [List.nil_append, s₁.text_written] at converted₁
  rw [List.nil_append, s₂.text_written] at converted₂
  obtain ⟨before, run⟩ : ∃ before, Statements
      (Rules.within (2 * textSize (s₁.tokens ++ ending true ++ gap.tokens ++ (s₂.tokens ++ ending true) ++ [.eof]) + 2))
      ⟨[], s₁.tokens ++ ending true ++ gap.tokens ++ (s₂.tokens ++ ending true) ++ [.eof], [], ledger.labels, []⟩
      ⟨before, [.eof], s₁.writtenTogether gap s₂, ledger.labels, []⟩ := by
    have enough₁ := s₁.depth_le
    have enough₂ := s₂.depth_le
    have whole := s₁.run_together gap s₂ (d := 2 * textSize (s₁.tokens ++ ending true ++ gap.tokens ++
      (s₂.tokens ++ ending true) ++ [.eof]) + 1) (by simp only [textSize_append]; omega)
      (by simp only [textSize_append]; omega) ⟨ledger.labels, []⟩
    simpa only [List.append_assoc] using whole
  obtain ⟨ledger', converted, reported, -⟩ := run.convertTokens_readBack (.of_legible (s₁.legible_together gap s₂))
  rw [s₁.text_writtenTogether] at converted
  exact ⟨s₁.lua, s₂.lua, s₁.luaTogether gap s₂, ledger₁, ledger₂, ledger', converted₁, converted₂, converted, reported,
    rfl, s₁.luaTogether_eq_iff gap s₂⟩

end NoteScript

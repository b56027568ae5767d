import NoteScript.Proofs.Pairing
import NoteScript.Proofs.Passage
import NoteScript.Proofs.Polishing
import NoteScript.Transpile

/-!
# Sentences on lines of their own

A script of one sentence on each line is transpiled line by line. Nothing is left of the semicolons, and in Lua a bracket at
the start of a line goes on with the line in front of it as a call. So the lines are still told apart exactly if no line but
the first one opens a bracket.

* `Sentence.opensBracket`: the sentences whose translation starts with a round bracket.
* `closesStatement`: a Lua text behind which a round bracket begins a statement.
* `transpile_lines`: what becomes of such a script, and when its lines are told apart.
-/

namespace NoteScript

open Buffer Text Token Polish

/-! ### Brackets pair -/

theorem Sentence.grouped_tokens (s : Sentence) : Grouped false s.tokens := by
  have front : Grouped false s.lead.tokens := by
    refine .flat fun t ht => ?_
    cases lead : s.lead <;> simp only [lead, Lead.tokens, List.mem_cons, List.not_mem_nil, or_false] at ht
    all_goals rcases ht with rfl | rfl | rfl | rfl | rfl | rfl <;> rfl
  exact front.append s.body.grouped_tokens

theorem Passage.grouped_tokens {atStart : Bool} : (p : Passage atStart) → Grouped false p.tokens
  | closing i => .trivia i.isTrivia_of_mem
  | more i s _ rest => (Grouped.trivia i.isTrivia_of_mem).append (s.grouped_tokens.append (.plain rfl rest.grouped_tokens))

/-! ### Lines -/

/-- A joined text as its first part and the rest, with the separator in front of each further part. -/
theorem intercalate_eq_join (sep first : String) (others : List String) :
    String.intercalate sep (first :: others) = first ++ String.join (others.map (sep ++ ·)) := by
  induction others generalizing first with
  | nil => simp
  | cons second others ih =>
    rw [String.intercalate_cons_cons, ih, List.map_cons, String.join_cons]
    simp only [String.append_assoc]

/-- The text of a sentence with its semicolon. -/
def Sentence.line (s : Sentence) : String := sourceText (s.tokens ++ ending true)

namespace Passage

/-- Sentences on further lines. -/
def further : List Sentence → Passage false
  | [] => closing (.gap [])
  | s :: others => more (.gap [.feed]) s (fun _ => by cases s.body.isChoice <;> rfl) (further others)

/-- Sentences on lines of their own, the first one at the start of a script. -/
def ofLines (first : Sentence) (others : List Sentence) : Passage true := more (.gap []) first (fun _ => rfl) (further others)

theorem sourceText_ofLines (first : Sentence) (others : List Sentence) :
    sourceText (ofLines first others).tokens = String.intercalate "\n" ((first :: others).map Sentence.line) := by
  have joined := sourceText_append
  have later : sourceText (further others).tokens = String.join ((others.map Sentence.line).map ("\n" ++ ·)) := by
    induction others with
    | nil => rfl
    | cons s others ih =>
      have shape : (further (s :: others)).tokens =
          [⟨.newline, "\n"⟩] ++ (s.tokens ++ ending true) ++ (further others).tokens := by
        simp [further, tokens, Interlude.tokens, Gap.tokens]
      have feed : sourceText [⟨.newline, "\n"⟩] = "\n" := rfl
      rw [shape, joined, joined, ih, feed, List.map_cons, List.map_cons, String.join_cons, Sentence.line]
  have shape : (ofLines first others).tokens = first.tokens ++ ending true ++ (further others).tokens := by
    simp [ofLines, tokens, Interlude.tokens, Gap.tokens]
  rw [shape, joined, later, List.map_cons, intercalate_eq_join, Sentence.line]

theorem lua_ofLines (first : Sentence) (others : List Sentence) :
    (ofLines first others).lua false = String.intercalate "\n" ((first :: others).map Sentence.lua) := by
  have later : (further others).lua true = String.join ((others.map Sentence.lua).map ("\n" ++ ·)) := by
    induction others with
    | nil => rfl
    | cons s others ih =>
      have feed : Interlude.lua true (.gap [.feed]) = "\n" := rfl
      rw [further, lua, ih, feed, List.map_cons, List.map_cons, String.join_cons]
  have nothing : Interlude.lua false (.gap []) = "" := rfl
  change Interlude.lua false (.gap []) ++ first.lua ++ (further others).lua true = _
  rw [later, nothing, String.empty_append, List.map_cons, intercalate_eq_join]

end Passage

/-! ### Translations as lines -/

theorem Lead.line_lua (lead : Lead) : '\n' ∉ lead.lua.toList ∧ (lead.lua = "" ∨ startsSolid lead.lua = true) := by
  cases lead with
  | alone | giveBack => decide
  | assign x =>
    have paired : Paired (x.text ++ " = ") := x.isWord.paired.append (.flat (by decide))
    exact ⟨paired.line, .inr (startsSolid_append (startsSolid_of_startsOperand x.isWord.starts) _)⟩
  | declare word known x =>
    have paired : Paired ("local " ++ x.text ++ " = ") := x.isWord.paired.enclosed (by decide)
    exact ⟨paired.line, .inr (startsSolid_append (startsSolid_append (by decide) _) _)⟩

theorem Sentence.isLine_lua (s : Sentence) : IsLine s.lua := by
  obtain ⟨line, starts⟩ := s.lead.line_lua
  refine ⟨s.smooth_lua, ?_, ?_, endsSolid_append _ (s.body.lua_ends rfl)⟩
  · rw [lua, String.toList_append, List.mem_append, not_or]
    exact ⟨line, s.body.paired_lua.line⟩
  · rcases starts with empty | starts
    · rw [lua, empty, String.empty_append]
      exact s.body.lua_starts rfl
    · exact startsSolid_append starts _

theorem transpile_of_convertTokens {source code : String} {ledger : Ledger} (nonempty : source ≠ "")
    (brackets : checkBrackets (tokenize source) = .ok ()) (converted : convertTokens (tokenize source) {} = (.ok code, ledger)) :
    transpile source = ⟨.ok (polish code), ledger.diagnostics⟩ := by
  have text : source.isEmpty = false := by simpa using nonempty
  simp only [transpile, text, Bool.false_eq_true, if_false, brackets, converted]

theorem Token.ReadBack.sourceText_ne_empty {ts : List Token} (read : ReadBack ts) (nonempty : ts ≠ []) : sourceText ts ≠ "" := by
  intro empty
  have cut := read.tokenize_eq
  have nothing : tokenize "" = [] ++ [eof] := by simp [tokenize, scan, scanFrom]
  rw [empty, nothing] at cut
  exact nonempty (List.append_cancel_right cut).symm

/-- What a run over the tokens of a text writes is polished, and there is nothing to report. -/
theorem Statements.transpile_eq {ts before : List Token} {out : Buffer} (read : ReadBack ts) (nonempty : ts ≠ [])
    (grouped : Grouped false ts) (run : Statements (Rules.within (2 * textSize (ts ++ [.eof]) + 2)) ⟨[], ts ++ [.eof], [], 0, []⟩
      ⟨before, [.eof], out, 0, []⟩) : transpile (sourceText ts) = ⟨.ok (polish (Buffer.text out)), []⟩ := by
  obtain ⟨ledger, converted, reported, -⟩ : ∃ ledger, convertTokens (tokenize (sourceText ts)) {} = (.ok (Buffer.text out), ledger) ∧
      ledger.diagnostics = [] ∧ ledger.labels = 0 := run.convertTokens_readBack read
  have brackets := grouped.checkBrackets_eq
  rw [← read.tokenize_eq] at brackets
  rw [transpile_of_convertTokens (read.sourceText_ne_empty nonempty) brackets converted, reported]

/-- Each line is transpiled as it is alone. -/
theorem transpile_ofLines (first : Sentence) (others : List Sentence) :
    transpile (String.intercalate "\n" ((first :: others).map Sentence.line)) =
      ⟨.ok (String.intercalate "\n" ((first :: others).map fun s => polish s.lua)), []⟩ := by
  have polished : polish (String.intercalate "\n" ((first :: others).map Sentence.lua)) =
      String.intercalate "\n" ((first :: others).map fun s => polish s.lua) := by
    have lines : ∀ line ∈ first.lua :: others.map Sentence.lua, IsLine line := by
      rw [← List.map_cons]
      exact List.forall_mem_map.mpr fun s _ => s.isLine_lua
    rw [List.map_cons, polish_lines lines, ← List.map_cons, List.map_map, Function.comp_def]
  have read := (Passage.ofLines first others).readBack.tokenize_eq
  have brackets := (Passage.ofLines first others).grouped_tokens.checkBrackets_eq
  obtain ⟨ledger, converted, reported⟩ := (Passage.ofLines first others).convertTokens_eq {}
  rw [← read, Passage.sourceText_ofLines] at brackets
  rw [Passage.sourceText_ofLines, Passage.lua_ofLines] at converted
  have nonempty : String.intercalate "\n" ((first :: others).map Sentence.line) ≠ "" := by
    have ends : sourceText (ending true) = ";" := rfl
    rw [List.map_cons, intercalate_eq_join, Sentence.line, sourceText_append, ends]
    simp
  rw [transpile_of_convertTokens nonempty brackets converted, polished, reported]

/-! ### How a line starts -/

theorem beginsWith_bracket (s : String) : beginsWith "(" s = (s.toList.head? == some '(') := by
  rw [beginsWith]
  cases s.toList with
  | nil => rfl
  | cons c cs => simp [List.isPrefixOf, eq_comm]

theorem beginsWith_append {s s' : String} (nonempty : s ≠ "") : beginsWith "(" (s ++ s') = beginsWith "(" s := by
  rw [beginsWith_bracket, beginsWith_bracket, String.toList_append,
    List.head?_append_of_ne_nil _ (mt String.toList_eq_nil_iff.mp nonempty)]

theorem IsWord.beginsWith_eq {s : String} (h : IsWord s) : beginsWith "(" s = false := by
  rw [beginsWith_bracket, beq_eq_false_iff_ne]
  exact fun head => h.ne_of_mem (List.mem_of_mem_head? head) (by decide) rfl

namespace Expr

/-- Does the translation of a tree start with a round bracket? A conditional is a function in brackets, and three methods
are comparisons in brackets. -/
def opensBracket {cat : Category} : Expr cat → Bool
  | choice _ _ _ | parens _ => true
  | plain e | value e => e.opensBracket
  | operand p | field p _ | index p _ | call p _ | link p _ _ => p.opensBracket
  | binary _ left _ => left.opensBracket
  | unaryCall _ m _ => m.callee.isEmpty
  | last a | more a _ => a.opensBracket
  | someArguments args => args.opensBracket
  | number _ | length _ | negation _ | name _ | toText _ | arrow _ _ | noArguments => false

theorem beginsWith_lua {cat : Category} (e : Expr cat) (present : cat.isPresent = true) :
    beginsWith "(" e.lua = e.opensBracket := by
  induction e with
  | noArguments | someArguments => cases present
  | plain e ih | operand p ih | value e ih | last a ih => exact ih rfl
  | number n => exact n.isWord.beginsWith_eq
  | name x => exact x.isWord.beginsWith_eq
  | choice test yes no =>
    change beginsWith "(" (choiceText test.lua yes.lua no.lua) = true
    delta choiceText
    simp only [String.append_assoc]
    exact (beginsWith_append (by decide)).trans (by decide)
  | length p =>
    change beginsWith "(" (lengthText p.lua) = false
    unfold lengthText
    split
    · exact (beginsWith_append (by decide)).trans (by decide)
    · rw [String.append_assoc]
      exact (beginsWith_append (by decide)).trans (by decide)
  | negation e | parens e | toText p | arrow params e =>
    simp only [lua, String.append_assoc]
    exact (beginsWith_append (by decide)).trans rfl
  | unaryCall p m e =>
    change beginsWith "(" (m.lua p.lua e.lua) = m.callee.isEmpty
    rw [m.lua_eq]
    simp only [String.append_assoc]
    cases m with
    | push | join => exact (beginsWith_append (by decide)).trans rfl
    | includes | startsWith | endsWith =>
      rw [UnaryMethod.callee, String.empty_append]
      exact (beginsWith_append (by decide)).trans rfl
  | field p f ih | index p e ih | call p args ih | link p m args ih =>
    simp only [lua, String.append_assoc]
    exact (beginsWith_append (p.lua_ne_empty rfl)).trans (ih rfl)
  | binary sign left right ih =>
    simp only [lua, String.append_assoc]
    exact (beginsWith_append (left.lua_ne_empty rfl)).trans (ih rfl)
  | more a rest ih =>
    simp only [lua, String.append_assoc]
    exact (beginsWith_append (a.lua_ne_empty rfl)).trans (ih rfl)

end Expr

namespace Sentence

/-- Does the translation of a sentence start with a round bracket? -/
def opensBracket (s : Sentence) : Bool := s.lead.isAlone && s.body.opensBracket

theorem beginsWith_polish (s : Sentence) : beginsWith "(" (polish s.lua) = s.opensBracket := by
  have same : beginsWith "(" (polish s.lua) = beginsWith "(" s.lua := by
    rw [beginsWith_bracket, beginsWith_bracket, s.isLine_lua.shifts_polish.head?]
  rw [same]
  obtain ⟨lead, e⟩ := s
  cases lead with
  | alone =>
    have shape : (Sentence.mk .alone e).lua = e.lua := String.empty_append
    rw [shape, e.beginsWith_lua rfl]
    rfl
  | assign x =>
    simp only [lua, Lead.lua, String.append_assoc]
    exact (beginsWith_append x.isWord.1).trans x.isWord.beginsWith_eq
  | declare word known x =>
    simp only [lua, Lead.lua, String.append_assoc]
    exact (beginsWith_append (by decide)).trans rfl
  | giveBack =>
    have spelled : Lead.giveBack.lua ≠ "" := by decide
    exact (beginsWith_append spelled).trans rfl

end Sentence

/-! ### How a line ends -/

/-- The name at the end of a text, if there is one. -/
def lastName (s : String) : String := String.ofList (s.toList.reverse.takeWhile continuesName).reverse

/-- The words of Lua that open or close a block. -/
def blockWords : List String := ["do", "then", "else", "repeat", "end"]

/-- Does a round bracket behind a Lua text begin a statement? It does at the start, behind a semicolon and behind a word
that opens or closes a block; behind anything else that a statement ends in it goes on with that statement. -/
def closesStatement (text : String) : Bool := let bare := stripEnd text
  bare.isEmpty || endsWith ";" bare || blockWords.contains (lastName bare)

/-- A character that ends neither a name nor a statement. -/
def isInner (c : Char) : Bool := !continuesName c && c != ';'

/-- A text that ends in a name, or in none, but not in a word of Lua or a semicolon. -/
def EndsOpen (cs : List Char) : Prop := ∃ front name, cs = front ++ name ∧ front.getLast?.all isInner = true ∧
    (∀ c ∈ name, continuesName c = true) ∧ String.ofList name ∉ luaWords

namespace EndsOpen

variable {cs : List Char}

theorem word {s : String} (h : IsWord s) (free : s ∉ luaWords) : EndsOpen s.toList :=
  ⟨[], s.toList, rfl, rfl, h.2, by rwa [String.ofList_toList]⟩

theorem append (h : EndsOpen cs) {front : List Char} (ends : front.getLast?.all isInner = true) : EndsOpen (front ++ cs) := by
  obtain ⟨middle, name, rfl, others, inside, free⟩ := h
  refine ⟨front ++ middle, name, by simp, ?_, inside, free⟩
  rw [List.getLast?_append]
  cases last : middle.getLast? with
  | none => exact ends
  | some c => simpa [last] using others

theorem all_isInner_append (s : String) {s' : String} (ends : s'.toList.getLast?.any isInner = true) :
    (s ++ s').toList.getLast?.all isInner = true := by
  rw [String.toList_append, List.getLast?_append]
  cases last : s'.toList.getLast? with
  | none => simp [last] at ends
  | some c => simpa [last] using ends

theorem closed (s : String) {s' : String} (ends : s'.toList.getLast?.any isInner = true) : EndsOpen (s ++ s').toList :=
  ⟨(s ++ s').toList, [], by simp, all_isInner_append s ends, by simp, by decide⟩

/-- Counting indices from one does not change how a text ends. -/
theorem shifts (h : EndsOpen cs) {out : List Char} (changed : Shifts none cs out) : EndsOpen out := by
  obtain ⟨front, name, rfl, others, inside, free⟩ := h
  have first := shifts_replaceHits front none
  have apart : (name.dropWhile isDecimal).head? ≠ some ']' := by
    intro closing
    have mem := (List.dropWhile_sublist isDecimal).subset (List.mem_of_mem_head? closing)
    exact absurd (inside _ mem) (by decide)
  have opening : '[' ∉ name := fun bracket => absurd (inside _ bracket) (by decide)
  rw [changed.eq (first.append (.refl opening) apart)]
  refine ⟨_, name, rfl, ?_, inside, free⟩
  rwa [first.getLast?]

theorem lastName_eq {s : String} {front name : List Char} (shape : s.toList = front ++ name)
    (others : front.getLast?.all isInner = true) (inside : ∀ c ∈ name, continuesName c = true) :
    lastName s = String.ofList name := by
  have stop : front.reverse.takeWhile continuesName = [] := by
    rw [← List.head?_reverse] at others
    cases reversed : front.reverse with
    | nil => rfl
    | cons c rest =>
      rw [reversed] at others
      have inner : continuesName c = false ∧ (c != ';') = true := by simpa [isInner] using others
      exact List.takeWhile_cons_of_neg (by simp [inner.1])
  rw [lastName, shape, List.reverse_append,
    List.takeWhile_append_of_pos (fun c mem => inside c (List.mem_reverse.mp mem)), stop, List.append_nil,
    List.reverse_reverse]

theorem getLast?_ne (h : EndsOpen cs) : cs.getLast? ≠ some ';' := by
  obtain ⟨front, name, rfl, others, inside, -⟩ := h
  intro last
  rw [List.getLast?_append] at last
  cases found : name.getLast? with
  | none =>
    rw [found, Option.none_or] at last
    rw [last] at others
    exact absurd others (by decide)
  | some c =>
    rw [found, Option.some_or, Option.some.injEq] at last
    have named := inside c (List.mem_of_getLast? found)
    rw [last] at named
    exact absurd named (by decide)

/-- Behind such a text a round bracket goes on with the statement. -/
theorem closesStatement_eq {s : String} (h : EndsOpen s.toList) (ends : endsSolid s = true) :
    closesStatement (s ++ "\n") = false := by
  have feed : isSpace '\n' = true := by decide
  have bare : stripEnd (s ++ "\n") = s := by
    obtain ⟨c, last, solid⟩ : ∃ c, s.toList.getLast? = some c ∧ isSpace c = false := by
      simpa [endsSolid, Option.any_eq_true] using ends
    obtain ⟨front, shape⟩ := List.getLast?_eq_some_iff.mp last
    have text : s.toList ++ "\n".toList = front ++ [c, '\n'] := by simp [shape]
    rw [stripEnd, String.toList_append, text, trimEnd, List.reverse_append]
    simp only [List.reverse_cons, List.reverse_nil, List.nil_append, List.cons_append]
    rw [List.dropWhile_cons_of_pos feed, List.dropWhile_cons_of_neg (by simp [solid]), List.reverse_cons,
      List.reverse_reverse, ← shape, String.ofList_toList]
  have nonempty : s.isEmpty = false := by
    rw [String.isEmpty_eq_false_iff]
    rintro rfl
    cases ends
  have semicolon : endsWith ";" s = false := by
    rw [endsWith, Bool.eq_false_iff]
    intro suffix
    obtain ⟨front, shape⟩ := List.isSuffixOf_iff_suffix.mp suffix
    apply h.getLast?_ne
    rw [← shape]
    simp
  obtain ⟨front, name, shape, others, inside, free⟩ := h
  have words : ∀ word ∈ blockWords, word ∈ luaWords := by decide
  have word : blockWords.contains (String.ofList name) = false := by
    rw [Bool.eq_false_iff]
    intro mem
    exact free (words _ (List.contains_iff_mem.mp mem))
  rw [closesStatement, bare, nonempty, semicolon, lastName_eq shape others inside, word]
  rfl

end EndsOpen

theorem Numeral.text_notMem (n : Numeral) : n.text ∉ luaWords := by
  have letters : ∀ word ∈ luaWords, word.toList.all Char.isDigit = false := by decide
  intro mem
  have digits := letters _ mem
  simp [List.all_eq_true.mpr n.digits] at digits

theorem Identifier.text_notMem (x : Identifier) : x.text ∉ luaWords := by
  intro mem
  exact x.free (by simp [mem])

/-- The categories whose trees can stand at the end of a sentence. -/
def Category.isBody : Category → Bool
  | expression | simple | chain _ => true
  | _ => false

open EndsOpen in
/-- A translation ends in a name, a number or a closing bracket. -/
theorem Expr.endsOpen_lua {cat : Category} (e : Expr cat) (body : cat.isBody = true) : EndsOpen e.lua.toList := by
  have behind {s s' : String} (h : EndsOpen s'.toList) (ends : s.toList.getLast?.all isInner = true) :
      EndsOpen (s ++ s').toList := by
    rw [String.toList_append]
    exact h.append ends
  induction e with
  | plain e ih | operand p ih => exact ih rfl
  | number n => exact .word n.isWord n.text_notMem
  | name x => exact .word x.isWord x.text_notMem
  | choice test yes no =>
    change EndsOpen (choiceText test.lua yes.lua no.lua).toList
    delta choiceText
    exact closed _ (by decide)
  | length p ih =>
    change EndsOpen (lengthText p.lua).toList
    unfold lengthText
    split
    · exact behind (ih rfl) (by decide)
    · exact closed _ (by decide)
  | negation e ih => exact behind (ih rfl) (by decide)
  | binary sign left right _ ih =>
    rw [lua]
    exact behind (ih rfl) (all_isInner_append _ (by decide))
  | field p f =>
    rw [lua]
    exact behind (.word f.isWord f.toIdentifier.text_notMem) (all_isInner_append _ (by decide))
  | parens | index | call | link | toText =>
    rw [lua]
    exact closed _ (by decide)
  | unaryCall p m e =>
    change EndsOpen (m.lua p.lua e.lua).toList
    rw [m.lua_eq]
    exact closed _ (by decide)
  | _ => cases body

open EndsOpen in
theorem Sentence.endsOpen_polish (s : Sentence) : EndsOpen (polish s.lua).toList := by
  refine EndsOpen.shifts ?_ s.isLine_lua.shifts_polish
  rw [lua, String.toList_append]
  refine (s.body.endsOpen_lua rfl).append ?_
  cases s.lead with
  | alone => rfl
  | giveBack => decide
  | assign x | declare word known x => exact all_isInner_append _ (by decide)

/-! ### Lines that are told apart -/

/-- The Lua text in front of a line, given the sentences of the lines before it. -/
def Sentence.textBefore (earlier : List Sentence) : String := String.join (earlier.map fun s => polish s.lua ++ "\n")

theorem Sentence.textBefore_concat (earlier : List Sentence) (s : Sentence) :
    textBefore (earlier ++ [s]) = textBefore earlier ++ polish s.lua ++ "\n" := by
  simp [textBefore, String.join_append, String.append_assoc]

theorem Sentence.closesStatement_textBefore (earlier : List Sentence) (s : Sentence) :
    closesStatement (textBefore (earlier ++ [s])) = false := by
  rw [textBefore_concat]
  apply EndsOpen.closesStatement_eq
  · rw [String.toList_append]
    apply s.endsOpen_polish.append
    rcases List.eq_nil_or_concat earlier with rfl | ⟨others, last, rfl⟩
    · rfl
    · rw [List.concat_eq_append, textBefore_concat]
      exact EndsOpen.all_isInner_append _ (by decide)
  · apply endsSolid_append
    rw [endsSolid, s.isLine_lua.shifts_polish.getLast?]
    exact s.isLine_lua.ends

/-- Wherever a line starts with a round bracket, the text in front of it closes a statement. -/
def ToldApart (sentences : List Sentence) : Prop :=
  ∀ earlier s later, sentences = earlier ++ s :: later → beginsWith "(" (polish s.lua) = true →
    closesStatement (Sentence.textBefore earlier) = true

theorem toldApart_iff (first : Sentence) (others : List Sentence) :
    ToldApart (first :: others) ↔ ∀ s ∈ others, s.opensBracket = false := by
  constructor
  · intro apart s mem
    obtain ⟨earlier, later, rfl⟩ := List.append_of_mem mem
    rw [Bool.eq_false_iff]
    intro opens
    obtain ⟨front, last, shape⟩ := List.eq_nil_or_concat (first :: earlier) |>.resolve_left (List.cons_ne_nil _ _)
    have closed := apart (first :: earlier) s later rfl (s.beginsWith_polish.trans opens)
    simp [shape, List.concat_eq_append, Sentence.closesStatement_textBefore] at closed
  · intro flat earlier s later shape opens
    cases earlier with
    | nil => rfl
    | cons _ earlier =>
      obtain ⟨-, rfl⟩ := List.cons.inj shape
      simp [s.beginsWith_polish, flat s (by simp)] at opens

/-- A script of sentences on lines of their own is transpiled line by line, and nothing is left of the semicolons. So the
lines are told apart exactly if the first one is the only one that may open a bracket. -/
theorem transpile_lines (first : Sentence) (others : List Sentence) :
    transpile (String.intercalate "\n" ((first :: others).map Sentence.line)) =
      ⟨.ok (String.intercalate "\n" ((first :: others).map fun s => polish s.lua)), []⟩ ∧
    (∀ s ∈ first :: others, beginsWith "(" (polish s.lua) = s.opensBracket) ∧
    (ToldApart (first :: others) ↔ ∀ s ∈ others, s.opensBracket = false) :=
  ⟨transpile_ofLines first others, fun s _ => s.beginsWith_polish, toldApart_iff first others⟩

/-- A conditional behind an assignment becomes the arguments of a call of the value. -/
theorem transpile_fused_lines :
    (transpile "a = b;\nc ? d : e;").outcome = .ok "a = b\n(function() if c then return d else return e end end)()" ∧
    closesStatement "a = b\n" = false := by
  decide +kernel

end NoteScript

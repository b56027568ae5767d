import NoteScript.Proofs.Rewriting

/-!
# Sentences

An expression is left alone, assigned, declared or returned. The rule for statements writes what stands in
front of the expression and takes the expression as it would anywhere.

* `Lead`, `Sentence`: sentences as trees, `Sentence.tokens` and `Sentence.lua`: their spelling and translation.
* `Sentence.takes_statement`: what the rule for statements does on the tokens of a sentence.
* `convertTokens_sentence`: a script of one sentence is translated as a tree.
-/

namespace NoteScript

open Edit Buffer Token

theorem Rules.isName_declarationWords : ∀ word ∈ declarationWords, isNameText word = true := by decide

/-- What stands in front of the expression of a sentence. -/
inductive Lead where
  | alone
  /-- `x = ` -/
  | assign (x : Identifier)
  /-- `const x = ` -/
  | declare (word : String) (known : word ∈ Rules.declarationWords) (x : Identifier)
  /-- `return ` -/
  | giveBack

namespace Lead

def isAlone : Lead → Bool
  | alone => true
  | _ => false

def tokens : Lead → List Token
  | alone => []
  | assign x => [.word x.text, .blank, .sign "=", .blank]
  | declare word _ x => [.word word, .blank, .word x.text, .blank, .sign "=", .blank]
  | giveBack => [.word "return", .blank]

/-- The entries written for a lead. -/
def written : Lead → Buffer
  | alone => []
  | assign x => [x.text, " ", "=", " "]
  | declare _ _ x => ["local " ++ x.text ++ " = "]
  | giveBack => ["return", " "]

/-- The translation of a lead. -/
def lua : Lead → String
  | alone => ""
  | assign x => x.text ++ " = "
  | declare _ _ x => "local " ++ x.text ++ " = "
  | giveBack => "return "

theorem text_written (lead : Lead) : lead.written.text = lead.lua := by
  cases lead <;> simp [written, lua, Buffer.text, String.join, String.append_assoc]

theorem legible (lead : Lead) {rest : List Token} (h : AlwaysLegible rest) (solid : rest.head?.all (!·.isTrivia) = true) :
    AlwaysLegible (lead.tokens ++ rest) := by
  have equals := (h.blank solid).equals
  cases lead with
  | alone => exact h
  | assign x => exact equals.word x.text x.isName rfl
  | declare word known x =>
    exact ((equals.word x.text x.isName rfl).blank rfl).word word (Rules.isName_declarationWords word known) rfl
  | giveBack => exact (h.blank solid).word "return" rfl rfl

/-- Behind the sign of an assignment an operand begins. -/
theorem isBoundary_assigned (operatorsEnd : Bool) {front : String} (starts : Text.startsSolid front = true) :
    isBoundary operatorsEnd (front ++ " = ") = true := by
  have bare : Text.strip (front ++ " = ") = front ++ " =" := by
    have shape : front ++ " = " = "" ++ (front ++ " =") ++ " " := by
      have closing : " = " = " =" ++ " " := rfl
      simp only [closing, String.append_assoc, String.empty_append]
    rw [shape]
    exact Text.strip_between (by decide) (Text.startsSolid_append starts _) (Text.endsSolid_append _ (by decide)) (by decide)
  have assigns : endsAssignment (front ++ " =").toList = true := by
    have back : (front ++ " =").toList.reverse = " =".toList.reverse ++ front.toList.reverse := by simp
    rw [endsAssignment, back]
    rfl
  have nonempty : (front ++ " =").isEmpty = false := by simp
  simp only [isBoundary, bare, nonempty, assigns, Bool.or_true, Bool.true_or, Bool.false_eq_true, if_false, if_true, ite_self]

theorem isBoundary_declared (operatorsEnd : Bool) (x : String) : isBoundary operatorsEnd ("local " ++ x ++ " = ") = true :=
  isBoundary_assigned operatorsEnd (Text.startsSolid_append (by decide) x)

/-- Behind a lead an expression begins; where there is none, the text in front has to end one. -/
def Opens (lead : Lead) (out : Buffer) : Prop := lead = alone → Ready true out ∧ Ready false out

theorem Opens.ready {lead : Lead} {out : Buffer} (opens : lead.Opens out) :
    Ready true (out ++ lead.written) ∧ Ready false (out ++ lead.written) := by
  have behind : ∀ (out : Buffer) (entry : String), isBoundary true entry = true → isBoundary false entry = true →
      Ready true (out ++ [entry, " "]) ∧ Ready false (out ++ [entry, " "]) := by
    intro out entry _ ends
    have shape : out ++ [entry, " "] = out ++ [entry] ++ [" "] := by simp
    rw [shape]
    exact ⟨.blank _, .behind_blank (.stop out (.inl ends))⟩
  cases lead with
  | alone =>
    rw [written, List.append_nil]
    exact opens rfl
  | assign x =>
    have shape : out ++ (assign x).written = out ++ [x.text, " "] ++ ["=", " "] := by simp [written]
    rw [shape]
    exact behind _ "=" (by decide) (by decide)
  | declare word known x =>
    exact ⟨.stop out (.inl (isBoundary_declared true x.text)), .stop out (.inl (isBoundary_declared false x.text))⟩
  | giveBack => exact behind _ "return" (by decide) (by decide)

end Lead

/-- No expression starts with white space, or makes something new. -/
theorem Expr.Begins.not_new {t : Token} (begins : Expr.Begins t) : t.isWord "new" = false ∧ t.isTrivia = false := by
  cases begins with
  | name x =>
    have reserved : "new" ∈ reservedWords ++ luaWords ++ knownNames := by decide
    have free : x.text ≠ "new" := fun same => x.free (same ▸ reserved)
    exact ⟨by simpa [isWord, isIdentifier] using free, rfl⟩
  | number | bracket | negation => exact ⟨rfl, rfl⟩

def Expr.isChoice : Expr .expression → Bool
  | choice _ _ _ => true
  | plain _ => false

/-- A lead and an expression. -/
structure Sentence where
  lead : Lead
  body : Expr .expression

namespace Sentence

def tokens (s : Sentence) : List Token := s.lead.tokens ++ s.body.tokens

/-- The entries written for a sentence. -/
def written (s : Sentence) : Buffer := s.lead.written ++ s.body.written

/-- The translation of a sentence. -/
def lua (s : Sentence) : String := s.lead.lua ++ s.body.lua

theorem text_written (s : Sentence) : s.written.text = s.lua := by
  rw [written, text_append, s.lead.text_written, s.body.text_written, lua]

theorem legible (s : Sentence) : AlwaysLegible s.tokens := by
  obtain ⟨t, ts, shape, begins⟩ := s.body.head_tokens rfl
  refine s.lead.legible s.body.legible ?_
  rw [shape]
  cases begins <;> rfl

end Sentence

/-- A semicolon, or none. -/
def ending (closed : Bool) : List Token := if closed then [.mark ";"] else []

/-- An expression statement with its semicolon, or without one at the end of the tokens. -/
theorem Reads.takes_ending {depth d : Nat} {ts rest : List Token} {out out' : Buffer} {closed : Bool}
    (reads : Reads 0 depth ts (ending closed ++ rest) out out') (enough : depth ≤ d) (ended : closed = true ∨ rest = [.eof])
    (atComma : Bool) (before : List Token) (loops : LoopState) :
    Takes ((Rules.within d).expressionStatement atComma) ⟨before, ts ++ (ending closed ++ rest), out, loops⟩ ()
      ⟨(ending closed).reverse ++ (ts.reverse ++ before), rest, out', loops⟩ := by
  have walk : Walk (Rules.within d) (Rules.endsStatement atComma) 0 ⟨before, ts ++ (ending closed ++ rest), out, loops⟩ 0 _ :=
    reads.walk enough (calm_endsStatement atComma)
  cases closed with
  | true => exact (walk.takes_units (.inr rfl)).bind (.skipPunct_pos rfl)
  | false =>
    obtain rfl : rest = [.eof] := by simpa using ended
    exact (walk.takes_units (.inl rfl)).bind (.skipPunct_neg rfl)

namespace Rules

variable {before before' rest : List Token} {out out' : Buffer} {loops : LoopState}
variable {r : Rules} {x : String} {t : Token} {ts : List Token}

/-- The value of a declared name, unless it makes a map. -/
theorem takes_declareValue {separator : String} {s' : Spot} (other : t.isWord "new" = false)
    (value : Takes (r.expressionStatement true) ⟨before, t :: ts, out ++ [separator ++ "local " ++ x ++ " = "], loops⟩ () s') :
    Takes (r.declareValue separator x) ⟨before, t :: ts, out, loops⟩ () s' := by
  have noMap : makesMap (Spot.mk before (t :: ts) out loops).cursor = false := by
    rw [makesMap, Cursor.atWord, Spot.current_mk, other, Bool.false_and]
  refine Takes.cursor.bind ?_
  rw [noMap]
  exact (Takes.emit _).bind value

theorem keyword?_declaration (r : Rules) {word : String} (known : word ∈ declarationWords) :
    r.keyword? word = some r.declaration := by
  simp only [declarationWords, List.mem_cons, List.not_mem_nil, or_false] at known
  rcases known with rfl | rfl | rfl <;> rfl

/-- What is done behind the value of a declared name. -/
def declareBehind (r : Rules) (limit : Nat) : Edit Unit := do
  let behind ← cursor
  if behind.atPunct [","] then
    if (behind.ahead 1).1.isIdentifier then
      skip (behind.ahead 1).2
      r.declareUpTo limit "; " []
    else endDeclaration "; " []

theorem takes_declareBehind {limit : Nat} (single : (rest.headD .eof).isPunct [","] = false) :
    Takes (r.declareBehind limit) ⟨before, rest, out, loops⟩ () ⟨before, rest, out, loops⟩ :=
  Takes.cursor.bind (.ite_neg (Bool.eq_false_iff.mp single) (.pure ()))

/-- A name with a value, given what is done with the names in front of it, with the value and behind it. -/
theorem takes_valued {limit : Nat} {separator : String} {names : List String} {s s' : Spot} (solid : t.isTrivia = false)
    (bare : Takes (declareBare separator names) ⟨.blank :: .word x :: before, .sign "=" :: .blank :: t :: ts, out, loops⟩ ()
      ⟨.blank :: .word x :: before, .sign "=" :: .blank :: t :: ts, out', loops⟩)
    (value : Takes (r.declareValue (if names.isEmpty then separator else "; ") x)
      ⟨.blank :: .sign "=" :: .blank :: .word x :: before, t :: ts, out', loops⟩ () s)
    (behind : Takes (r.declareBehind limit) s () s') :
    Takes (r.declareUpTo (limit + 1) separator names)
      ⟨before, .word x :: .blank :: .sign "=" :: .blank :: t :: ts, out, loops⟩ () s' := by
  refine (Takes.next _).bind ((Takes.skipSpace [.blank] rfl rfl).bind (Takes.cursor.bind (.ite_pos rfl ?_)))
  refine bare.bind ((Takes.skip_one _).bind ((Takes.skipTrivia [.blank] ?_ rfl).bind (value.bind behind)))
  exact congrArg (!·) solid

/-- The declaration of one name, given what is done with its value. -/
theorem takes_declaration {word : String} (known : word ∈ declarationWords)
    (solid : t.isTrivia = false) (single : (rest.headD .eof).isPunct [","] = false)
    (value : Takes (r.declareValue "" x)
      ⟨.blank :: .sign "=" :: .blank :: .word x :: .blank :: .word word :: before, t :: ts, out, loops⟩ ()
      ⟨before', rest, out', loops⟩) :
    Takes r.anyStatement ⟨before, .word word :: .blank :: .word x :: .blank :: .sign "=" :: .blank :: t :: ts, out, loops⟩ ()
      ⟨before', rest, out', loops⟩ := by
  refine takes_keyword (r.keyword?_declaration known) ((Takes.skip_one _).bind ?_)
  refine (Takes.skipTrivia [.blank] rfl rfl).bind (Takes.cursor.bind ?_)
  exact takes_valued solid (.pure ()) value (takes_declareBehind single)

end Rules

namespace Sentence

variable {before rest : List Token} {out : Buffer} {loops : LoopState}
variable {d : Nat} {closed : Bool} {out' : Buffer}

/-- The expression of a sentence, with what ends it. Only a conditional looks further back than to the last blank. -/
theorem reads_body (e : Expr .expression) (ended : closed = true ∨ rest = [.eof]) (ready : Ready true out)
    (ready' : e.isChoice = true → Ready false out) :
    Reads 0 e.depth e.tokens (ending closed ++ rest) out (out ++ e.written) := by
  obtain ⟨t, ts, shape, terminal⟩ : ∃ t ts, ending closed ++ rest = t :: ts ∧ Terminal t := by
    cases closed with
    | true => exact ⟨_, _, rfl, by decide⟩
    | false => exact ⟨.eof, [], by simpa [ending] using ended, by decide⟩
  rw [shape]
  cases e with
  | choice test yes no => exact ExpressionRuns.reads (Expr.choice test yes no).runs ready (ready' rfl) terminal ts
  | plain e =>
    obtain ⟨noArrow, noCall⟩ := following_of_terminal terminal (.inl rfl) ts
    exact e.runs (t :: ts) out ready noArrow (.inr noCall)

/-- An expression left alone, given what is written for it. -/
theorem takes_alone (e : Expr .expression) (enough : e.depth ≤ d) (ended : closed = true ∨ rest = [.eof])
    (reads : Reads 0 e.depth e.tokens (ending closed ++ rest) out out') (before : List Token) (loops : LoopState) :
    Takes (Rules.within d).anyStatement ⟨before, e.tokens ++ (ending closed ++ rest), out, loops⟩ ()
      ⟨(ending closed).reverse ++ (e.tokens.reverse ++ before), rest, out', loops⟩ := by
  obtain ⟨t, ts, shape, begins⟩ := e.head_tokens rfl
  have taken := reads.takes_ending enough ended false before loops
  rw [shape] at taken ⊢
  exact begins.takes_anyStatement taken

theorem takes_giveBack (e : Expr .expression) (enough : e.depth ≤ d) (ended : closed = true ∨ rest = [.eof]) :
    Takes (Rules.within d).anyStatement
      ⟨before, .word "return" :: .blank :: (e.tokens ++ (ending closed ++ rest)), out, loops⟩ ()
      ⟨(ending closed).reverse ++ (e.tokens.reverse ++ Token.blank :: .word "return" :: before), rest,
        out ++ ["return"] ++ [" "] ++ e.written, loops⟩ := by
  obtain ⟨t, ts, shape, begins⟩ := e.head_tokens rfl
  have body := reads_body e ended (.blank _) fun _ => .behind_blank (.stop (e := "return") out (.inl (by decide)))
  have value := body.takes_ending enough ended false (.blank :: .word "return" :: before) loops
  refine Rules.takes_keyword rfl ((Takes.skip_one _).bind ((Takes.emit "return").bind ?_))
  rw [shape] at value ⊢
  refine (Takes.skipSpace [.blank] ?_ rfl).bind (Takes.cursor.bind ?_)
  · cases begins <;> rfl
  · cases begins <;> exact (Takes.emit " ").bind value

theorem takes_declare {word : String} (known : word ∈ Rules.declarationWords) (x : Identifier) (e : Expr .expression)
    (enough : e.depth ≤ d) (ended : closed = true ∨ rest = [.eof])
    (single : (rest.headD .eof).isPunct [","] = false) :
    Takes (Rules.within d).anyStatement
      ⟨before, .word word :: .blank :: .word x.text :: .blank :: .sign "=" :: .blank :: (e.tokens ++ (ending closed ++ rest)),
        out, loops⟩ ()
      ⟨(ending closed).reverse ++ (e.tokens.reverse ++ Token.blank :: .sign "=" :: .blank :: .word x.text :: .blank ::
        .word word :: before), rest, out ++ ["local " ++ x.text ++ " = "] ++ e.written, loops⟩ := by
  have ready (operatorsEnd : Bool) : Ready operatorsEnd (out ++ ["local " ++ x.text ++ " = "]) :=
    .stop out (.inl (Lead.isBoundary_declared operatorsEnd x.text))
  have value := (reads_body e ended (ready true) fun _ => ready false).takes_ending enough ended true
    (.blank :: .sign "=" :: .blank :: .word x.text :: .blank :: .word word :: before) loops
  obtain ⟨t, ts, shape, begins⟩ := e.head_tokens rfl
  obtain ⟨other, solid⟩ := begins.not_new
  rw [shape] at value ⊢
  exact Rules.takes_declaration known solid single (Rules.takes_declareValue other value)

/-- An assignment to a name, given what is written for its sign and behind it. -/
theorem takes_assigned (x : Identifier) {ts : List Token} (ended : closed = true ∨ rest = [.eof])
    (reads : Reads 0 (d + 1) ([.blank, .sign "=", .blank] ++ ts) (ending closed ++ rest) (out ++ [x.text]) out')
    (before : List Token) (loops : LoopState) :
    Takes (Rules.within (d + 1)).anyStatement
      ⟨before, .word x.text :: .blank :: .sign "=" :: .blank :: (ts ++ (ending closed ++ rest)), out, loops⟩ ()
      ⟨(ending closed).reverse ++ (ts.reverse ++ Token.blank :: .sign "=" :: .blank :: .word x.text :: before), rest, out', loops⟩ := by
  have name : Reads 0 1 [.word x.text] ([.blank, .sign "=", .blank] ++ ts ++ (ending closed ++ rest)) out (out ++ [x.text]) :=
    .unit (fun _ _ _ _ => x.takes_unit rfl) rfl rfl
  have taken := ((name.mono (Nat.le_add_left 1 d)).append reads).takes_ending (Nat.le_refl _) ended false before loops
  exact (Expr.Begins.name x).takes_anyStatement (by simpa using taken)

/-- Such an assignment with its semicolon as a whole run. -/
theorem statements_assigned (x : Identifier) {ts : List Token}
    (reads : Reads 0 (d + 1) ([.blank, .sign "=", .blank] ++ ts) (ending true ++ [Token.eof]) [x.text] out') (loops : LoopState) :
    ∃ before, Statements (Rules.within (d + 2)) ⟨[], (Lead.assign x).tokens ++ (ts ++ ending true) ++ [Token.eof], [], loops⟩
      ⟨before, [Token.eof], out', loops⟩ := by
  rw [← List.nil_append [x.text]] at reads
  have taken : Takes (Rules.within (d + 2)).statement _ () _ := takes_assigned x (.inl rfl) reads [] loops
  have whole : (Lead.assign x).tokens ++ (ts ++ ending true) ++ [Token.eof] = Token.word x.text :: .blank :: .sign "=" :: .blank ::
      (ts ++ (ending true ++ [Token.eof])) := by simp [Lead.tokens]
  rw [whole]
  exact ⟨_, .step ((Lead.assign x).tokens ++ (ts ++ ending true)) rfl rfl taken (by simp [Lead.tokens])
    (by simp [Lead.tokens, ending]) (by simp [Lead.tokens]) .done⟩

theorem takes_assign (x : Identifier) (e : Expr .expression) (enough : e.depth ≤ d) (ended : closed = true ∨ rest = [.eof]) :
    Takes (Rules.within d).anyStatement
      ⟨before, .word x.text :: .blank :: .sign "=" :: .blank :: (e.tokens ++ (ending closed ++ rest)), out, loops⟩ ()
      ⟨(ending closed).reverse ++ (e.tokens.reverse ++ Token.blank :: .sign "=" :: .blank :: .word x.text :: before), rest,
        out ++ [x.text] ++ [" "] ++ ["="] ++ [" "] ++ e.written, loops⟩ := by
  obtain ⟨d, rfl⟩ := e.exists_succ enough
  have value := reads_body e ended (.blank _) fun _ => .behind_blank (.stop (e := "=") (out ++ [x.text] ++ [" "]) (.inl (by decide)))
  exact takes_assigned x ended ((Reads.equals.mono (Nat.le_add_left 1 d)).append (value.mono enough)) before loops

/-- The text in front of a sentence lets it begin: an expression that is left alone must not take from it. -/
def Opens (s : Sentence) (out : Buffer) : Prop :=
  s.lead.isAlone = true → Ready true out ∧ (s.body.isChoice = true → Ready false out)

/-- The rule for statements takes the tokens of a sentence and writes its entries. -/
theorem takes_statement (s : Sentence) (enough : s.body.depth ≤ d)
    (ended : closed = true ∨ rest = [.eof]) (single : (rest.headD .eof).isPunct [","] = false) (opens : s.Opens out) :
    Takes (Rules.within (d + 1)).statement ⟨before, s.tokens ++ (ending closed ++ rest), out, loops⟩ ()
      ⟨(ending closed).reverse ++ (s.tokens.reverse ++ before), rest, out ++ s.written, loops⟩ := by
  change Takes (Rules.within d).anyStatement _ () _
  obtain ⟨lead, e⟩ := s
  cases lead with
  | alone =>
    simpa [tokens, written, Lead.tokens, Lead.written] using
      takes_alone e enough ended (reads_body e ended (opens rfl).1 (opens rfl).2) before loops
  | assign x => simpa [tokens, written, Lead.tokens, Lead.written] using takes_assign x e enough ended
  | declare word known x => simpa [tokens, written, Lead.tokens, Lead.written] using takes_declare known x e enough ended single
  | giveBack => simpa [tokens, written, Lead.tokens, Lead.written] using takes_giveBack e enough ended

end Sentence

namespace Sentence

variable {before rest : List Token} {out : Buffer} {loops : LoopState}

/-- A sentence starts with a word, a number, a bracket or a negation. -/
theorem head_tokens (s : Sentence) : ∃ t ts, s.tokens = t :: ts ∧ t.isEof = false ∧ t.isPunct ["\x7d"] = false ∧
    t.isPunct [","] = false ∧ t.isTrivia = false := by
  obtain ⟨lead, e⟩ := s
  cases lead with
  | alone =>
    obtain ⟨t, ts, shape, begins⟩ := e.head_tokens rfl
    exact ⟨t, ts, shape, by cases begins <;> exact ⟨rfl, rfl, rfl, rfl⟩⟩
  | assign | declare | giveBack => exact ⟨_, _, rfl, rfl, rfl, rfl, rfl⟩

/-- A sentence as a step of a run, given what is written for it. -/
theorem statements_of_takes (s : Sentence) {d : Nat} {closed : Bool} {out' : Buffer}
    (taken : Takes (Rules.within (d + 1)).statement ⟨before, s.tokens ++ (ending closed ++ rest), out, loops⟩ ()
      ⟨(ending closed).reverse ++ (s.tokens.reverse ++ before), rest, out', loops⟩) :
    Statements (Rules.within (d + 1)) ⟨before, s.tokens ++ (ending closed ++ rest), out, loops⟩
      ⟨(ending closed).reverse ++ (s.tokens.reverse ++ before), rest, out', loops⟩ := by
  obtain ⟨t, ts, shape, inside, other, -, -⟩ := s.head_tokens
  refine .step (s.tokens ++ ending closed) ?_ ?_ taken (by simp) (by simp) ?_ .done
  · rw [shape]
    exact inside
  · rw [shape]
    exact other
  · simp [shape]

theorem statements (s : Sentence) {d : Nat} (enough : s.body.depth ≤ d) {closed : Bool}
    (ended : closed = true ∨ rest = [.eof]) (single : (rest.headD .eof).isPunct [","] = false) (opens : s.Opens out) :
    Statements (Rules.within (d + 1)) ⟨before, s.tokens ++ (ending closed ++ rest), out, loops⟩
      ⟨(ending closed).reverse ++ (s.tokens.reverse ++ before), rest, out ++ s.written, loops⟩ :=
  s.statements_of_takes (s.takes_statement enough ended single opens)

end Sentence

/-! ### Whole scripts -/

theorem Expr.depth_le {cat : Category} (e : Expr cat) : e.depth ≤ e.tokens.length + 1 := by
  induction e <;> simp only [Expr.depth, Expr.tokens, List.length_append, List.length_cons] <;> omega

theorem Sentence.depth_le (s : Sentence) : s.body.depth ≤ textSize s.tokens + 1 := by
  have depth := s.body.depth_le
  have size := length_le_textSize (s.legible false)
  simp only [Sentence.tokens, List.length_append] at size ⊢
  omega

theorem Sentence.run (s : Sentence) (closed : Bool) (labels : Nat) :
    Statements (Rules.within (2 * textSize (s.tokens ++ ending closed ++ [Token.eof]) + 2))
      ⟨[], s.tokens ++ ending closed ++ [Token.eof], [], labels, []⟩
      ⟨(ending closed).reverse ++ (s.tokens.reverse ++ []), [.eof], [] ++ s.written, labels, []⟩ := by
  have enough : s.body.depth ≤ 2 * textSize (s.tokens ++ (ending closed ++ [Token.eof])) + 1 := by
    have := s.depth_le
    rw [textSize_append]
    omega
  rw [List.append_assoc]
  exact s.statements enough (.inr rfl) rfl fun _ => ⟨.nil true, fun _ => .nil false⟩

theorem Sentence.legible_ending (s : Sentence) (closed : Bool) : AlwaysLegible (s.tokens ++ ending closed) := by
  cases closed with
  | true => exact s.legible.before_mark alwaysLegible_nil ";" rfl
  | false => simpa [ending] using s.legible

/-- What a run over the tokens of a text writes is the text that it is converted to. -/
theorem Statements.convertTokens_readBack {ts before : List Token} {out : Buffer} {ledger : Ledger}
    (read : ReadBack ts) (run : Statements (Rules.within (2 * textSize (ts ++ [Token.eof]) + 2))
      ⟨[], ts ++ [Token.eof], [], ledger.labels, []⟩ ⟨before, [.eof], out, ledger.labels, []⟩) :
    ∃ ledger', convertTokens (tokenize (sourceText ts)) ledger = (.ok (Buffer.text out), ledger') ∧
      ledger'.diagnostics = ledger.diagnostics ∧ ledger'.labels = ledger.labels := by
  obtain ⟨journal, converted⟩ := run.convertTokens_eq rfl
  rw [read.tokenize_eq, converted]
  exact ⟨_, rfl, rfl, rfl⟩

/-- A script of one sentence is translated as a tree, with its semicolon or without one: the text is the
translation of the sentence, no label is handed out, and there is nothing to report. -/
theorem convertTokens_sentence (s : Sentence) (closed : Bool) (ledger : Ledger) :
    ∃ ledger', convertTokens (tokenize (sourceText (s.tokens ++ ending closed))) ledger = (.ok s.lua, ledger') ∧
      ledger'.diagnostics = ledger.diagnostics ∧ ledger'.labels = ledger.labels := by
  have converted := (s.run closed ledger.labels).convertTokens_readBack (.of_legible (s.legible_ending closed))
  rwa [List.nil_append, s.text_written] at converted

end NoteScript

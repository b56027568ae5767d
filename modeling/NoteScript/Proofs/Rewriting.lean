import NoteScript.Proofs.Entries
import NoteScript.Proofs.Suffixes
import NoteScript.Proofs.Translation

/-!
# Expressions are rewritten as trees

There is no syntax tree: units are taken one after the other, operands are taken back from the text, and
the branches of a conditional and the bodies of arrow functions end where brackets say. On the tokens of an
expression this comes to its translation as a tree.

* `Expr.writtenOn`: what is written for a tree behind any text, part of which its first operand may take to itself;
  `Expr.walks`: the rules write that, form by form.
* `OperandRuns`, `ExpressionRuns`, `ListRuns`: what the rules do on the tokens of a tree where an operand or an
  expression may begin; `Expr.runs`: they write its translation.
-/

namespace NoteScript

open Edit Buffer Token

variable {stops : Cursor → Bool} {cat : Category} {d : Nat} {r : Rules} {before rest ts : List Token} {out es : Buffer}
  {loops : LoopState} {k : Int} {t : Token}

/-! ### Where a walk may stop -/

/-- A token at which no walk stops. -/
def Token.isQuiet (t : Token) : Bool := !t.isEof && !t.isCloser && !t.isPunct [":", ",", ";"] && !t.isNewline

/-- A walk that stops at closing brackets, colons, commas, semicolons and line ends at most. -/
def Calm (stops : Cursor → Bool) : Prop := ∀ before t rest, t.isQuiet = true → stops ⟨before, t :: rest, 0⟩ = false

theorem calm_of_mem (h : stops ∈ [Rules.endsThenBranch, Rules.endsElseBranch, Rules.endsOperand, Rules.endsStatement false,
      Rules.endsStatement true]) :
    Calm stops := by
  intro before t rest quiet
  simp only [isQuiet, Bool.and_eq_true, Bool.not_eq_true'] at quiet
  simp only [List.mem_cons, List.not_mem_nil, or_false] at h
  rcases h with rfl | rfl | rfl | rfl | rfl
  · simp_all [Rules.endsThenBranch, Cursor.atPunct, Cursor.current, isPunct]
  · simp_all [Rules.endsElseBranch, Cursor.atPunct, Cursor.atLineEnd, Cursor.current, isPunct]
  · simp_all [Rules.endsOperand, Cursor.atPunct, Cursor.atLineEnd, Cursor.current, isPunct]
  · simp_all [Rules.endsStatement, Cursor.atPunct, Cursor.atLineEnd, Cursor.current, isPunct]
  · simp_all [Rules.endsStatement, Cursor.atPunct, Cursor.atLineEnd, Cursor.current, isPunct]

theorem calm_endsStatement (atComma : Bool) : Calm (Rules.endsStatement atComma) := by
  cases atComma <;> exact calm_of_mem (by simp)

/-- A token behind which no expression goes on. -/
abbrev Terminal (t : Token) : Prop := t ∈ [.eof, .mark ")", .mark "]", .mark ":", .mark ",", .mark ";"]

/-! ### What a run does -/

namespace Expr

/-- The depth of the rules that a tree needs. -/
def depth {cat : Category} : Expr cat → Nat
  | number _ | name _ | noArguments => 1
  | plain e | negation e | parens e | value e => e.depth
  | operand p | length p | field p _ | toText p => p.depth
  | last a => a.depth
  | someArguments args => args.depth
  | binary _ left right => max left.depth right.depth
  | index p e => max p.depth e.depth
  | call p args | link p _ args => max p.depth args.depth
  | more a rest => max a.depth rest.depth
  | choice test yes no => max test.depth (max yes.depth no.depth + 1)
  | arrow _ e => e.depth + 1
  | unaryCall p _ e => max p.depth (e.depth + 2)

end Expr

/-- With `level` brackets open or more, rules of a depth take the tokens `ts` in front of `rest` and leave the text `out'` for
`out`. -/
def Reads (level : Int) (depth : Nat) (ts rest : List Token) (out out' : Buffer) : Prop :=
  ∀ (d : Nat) (stops : Cursor → Bool) (k : Int) (before : List Token) (loops : LoopState), depth ≤ d → Calm stops → level ≤ k →
    Walk (Rules.within d) stops k ⟨before, ts ++ rest, out, loops⟩ k ⟨ts.reverse ++ before, rest, out', loops⟩

/-- Where an operand may begin, the rules take its tokens and write its entries, whatever follows. Round
brackets may follow only what is callable. -/
def OperandRuns (callable : Bool) (depth : Nat) (ts : List Token) (es : Buffer) : Prop :=
  ∀ (rest : List Token) (out : Buffer), Ready true out → (following rest).isOperator ["=>"] = false →
    (callable = true ∨ (following rest).isPunct ["("] = false) → Reads 0 depth ts rest out (out ++ es)

/-- Where an expression may begin, the rules take its tokens and write its entries, if it ends there. A blank
behind it is taken too, and written or dropped. -/
def ExpressionRuns (depth : Nat) (ts : List Token) (es : Buffer) : Prop :=
  ∀ (trail : List Token) (t : Token) (rest : List Token) (out : Buffer), Ready true out → Ready false out → Terminal t →
    (trail = [] ∨ trail = [.blank]) → ∃ blanks : Buffer, (blanks = [] ∨ blanks = trail.map (·.text)) ∧
      Reads 0 depth (ts ++ trail) (t :: rest) out (out ++ es ++ blanks)

/-- The same for what stands inside the brackets of a call. -/
def ListRuns (depth : Nat) (ts : List Token) (es : Buffer) : Prop :=
  ∀ (t : Token) (rest : List Token) (out : Buffer), Ready true out → Ready false out → t ∈ [.mark ",", .mark ")"] →
    Reads 1 depth ts (t :: rest) out (out ++ es)

/-- What the rules do on the tokens of a tree, by its category. -/
def Expr.Runs : {cat : Category} → Expr cat → Prop
  | .chain callable, p => OperandRuns callable p.depth p.tokens p.written
  | .simple, e => OperandRuns false e.depth e.tokens e.written
  | .expression, e => ExpressionRuns e.depth e.tokens e.written
  | .argument, e | .list, e | .arguments, e => ListRuns e.depth e.tokens e.written

theorem Expr.depth_pos (e : Expr cat) : 1 ≤ e.depth := by
  induction e <;> simp only [Expr.depth] <;> omega

/-- No tree is taken without rules. -/
theorem Expr.exists_succ (e : Expr cat) (enough : e.depth ≤ d) : ∃ d', d = d' + 1 := ⟨d - 1, by have := e.depth_pos; omega⟩

namespace Reads

variable {level : Int} {depth depth' : Nat} {us : List Token} {out' out'' : Buffer}

theorem nil : Reads level depth [] rest out out := fun _ _ _ _ _ _ _ _ => .done

theorem walk (h : Reads 0 depth ts rest out out') (enough : depth ≤ d) (calm : Calm stops) :
    Walk (Rules.within d) stops 0 ⟨before, ts ++ rest, out, loops⟩ 0 ⟨ts.reverse ++ before, rest, out', loops⟩ :=
  h d stops 0 before loops enough calm (Int.le_refl 0)

theorem mono (h : Reads level depth ts rest out out') (deeper : depth ≤ depth') : Reads level depth' ts rest out out' :=
  fun d stops k before loops enough => h d stops k before loops (Nat.le_trans deeper enough)

theorem inside (h : Reads 0 depth ts rest out out') : Reads 1 depth ts rest out out' :=
  fun d stops k before loops enough calm level => h d stops k before loops enough calm (by omega)

theorem append (h : Reads level depth ts (us ++ rest) out out') (h' : Reads level depth us rest out' out'') :
    Reads level depth (ts ++ us) rest out out'' := by
  intro d stops k before loops enough calm level
  have walk := (h d stops k before loops enough calm level).trans (h' d stops k _ loops enough calm level)
  simpa using walk

/-- The same where each of the two needs a depth of its own. -/
theorem seq (h : Reads level depth ts (us ++ rest) out out') (h' : Reads level depth' us rest out' out'') :
    Reads level (max depth depth') (ts ++ us) rest out out'' :=
  (h.mono (Nat.le_max_left _ _)).append (h'.mono (Nat.le_max_right _ _))

theorem unit (taken : ∀ d before loops, depth ≤ d → Takes (Rules.within d).unit ⟨before, t :: ts ++ rest, out, loops⟩ ()
      ⟨(t :: ts).reverse ++ before, rest, out', loops⟩)
    (quiet : t.isQuiet = true) (flat : bracketDepth (t :: ts) = 0) : Reads level (depth + 1) (t :: ts) rest out out' := by
  intro d stops k before loops enough calm _
  obtain ⟨d, rfl⟩ : ∃ d', d = d' + 1 := ⟨d - 1, by omega⟩
  have inside : t.isEof = false := by simp_all [isQuiet]
  exact .unit (t :: ts) (taken d before loops (by omega)) rfl (List.cons_ne_nil _ _) inside (fun _ => calm _ _ _ quiet)
    (by rw [flat, Int.add_zero])

theorem blank : Reads level 1 [.blank] rest out (out ++ [" "]) := .unit (fun _ _ _ _ => Rules.takes_trivia rfl) rfl rfl

theorem mark (taken : ∀ (r : Rules) before loops, Takes r.unit ⟨before, t :: rest, out, loops⟩ () ⟨t :: before, rest, out', loops⟩)
    (inside : t.isEof = false) (flat : bracketDepth [t] = 0) : Reads 1 1 [t] rest out out' := by
  intro d stops k before loops enough _ level
  obtain ⟨d, rfl⟩ : ∃ d', d = d' + 1 := ⟨d - 1, by omega⟩
  exact .unit [t] (taken _ before loops) rfl (by simp) inside (by omega) (by rw [flat, Int.add_zero])

theorem comma : Reads 1 1 [.mark ","] rest out (out ++ [","]) :=
  .mark (fun _ _ _ => Rules.takes_mark (by decide) (Rules.arrow?_mark (by decide))) rfl rfl

theorem sign {text lua : String} (binary : text ∉ Rules.specialOperators)
    (spelled : (if text == "+" then Rules.plusSign (out ++ [" "]).lastWritten (following (.blank :: rest))
      else Rules.luaOperator text) = lua) :
    Reads level 1 [.blank, .sign text, .blank] rest out (out ++ [" "] ++ [lua] ++ [" "]) := by
  intro d stops k before loops enough calm high
  obtain ⟨d, rfl⟩ : ∃ d', d = d' + 1 := ⟨d - 1, by omega⟩
  have blank {before rest out} : Walk (Rules.within (d + 1)) stops k ⟨before, .blank :: rest, out, loops⟩ k _ :=
    Reads.blank (d + 1) stops k before loops enough calm high
  have operator : Walk (Rules.within (d + 1)) stops k ⟨.blank :: before, .sign text :: .blank :: rest, out ++ [" "], loops⟩ k _ :=
    .single (Rules.takes_binary binary spelled fun _ => ⟨rfl, rfl⟩) rfl rfl (calm _ _ _ rfl)
  exact blank.trans (operator.trans blank)

theorem equals : Reads level 1 [.blank, .sign "=", .blank] rest out (out ++ [" "] ++ ["="] ++ [" "]) := .sign (by decide) rfl

end Reads

/-! ### What is written behind any text -/

/-- The operand written last, with a form written around it. -/
def Buffer.wrapOperand (out : Buffer) (operatorsEnd : Bool) (form : String → String) : Buffer :=
  (out.takeOperand operatorsEnd).2 ++ [form (out.takeOperand operatorsEnd).1]

/-- A chain that round brackets may follow. -/
def Category.isCallable : Category → Bool
  | chain callable => callable
  | _ => false

namespace Expr

/-- What an operator becomes behind an entry: a plus sign joins behind a quote. -/
def signBehind (last : String) : Sign → String
  | .plus => Rules.plusSign last .eof
  | sign => sign.lua

/-- What has been written once a tree is written behind any text at all, part of which its first operand may take to
itself. -/
def writtenOn (out : Buffer) {cat : Category} : Expr cat → Buffer
  | choice test yes no => wrapOperand (test.writtenOn out ++ [" "]) false (choiceText · yes.lua no.lua)
  | plain e => e.writtenOn out
  | operand p => p.writtenOn out
  | length p => wrapOperand (p.writtenOn out) true lengthText
  | binary sign left right =>
    left.writtenOn out ++ [" "] ++ [signBehind (left.writtenOn out ++ [" "]).lastWritten sign] ++ [" "] ++ right.written
  | field p f => p.writtenOn out ++ ["." ++ f.text]
  | index p e => p.writtenOn out ++ (["["] ++ e.written ++ ["]"])
  | call p args => p.writtenOn out ++ (["("] ++ args.written ++ [")"])
  | link p m args => p.writtenOn out ++ [":" ++ m.lua] ++ (["("] ++ args.written ++ [")"])
  | unaryCall p m e => wrapOperand (p.writtenOn out) true (m.lua · e.lua)
  | toText p => wrapOperand (p.writtenOn out) true ("tostring(" ++ · ++ ")")
  | e => out ++ e.written

/-- The rules take the tokens of an operand wherever they stand, and write it on the text in front. -/
def WalksOn {cat : Category} (e : Expr cat) : Prop :=
  ∀ (rest : List Token) (out : Buffer), (following rest).isOperator ["=>"] = false →
    (cat.isCallable = true ∨ (following rest).isPunct ["("] = false) → Reads 0 e.depth e.tokens rest out (e.writtenOn out)

/-- What the rules do on the tokens of a tree, by its category. Arguments stand where an expression may begin. -/
def Walks : {cat : Category} → Expr cat → Prop
  | .chain _, e | .simple, e => e.WalksOn
  | .expression, e =>
    ∀ (trail : List Token) (t : Token) (rest : List Token) (out : Buffer), Terminal t → (trail = [] ∨ trail = [.blank]) →
      ∃ blanks : Buffer, (blanks = [] ∨ blanks = trail.map (·.text)) ∧
        Reads 0 e.depth (e.tokens ++ trail) (t :: rest) out (e.writtenOn out ++ blanks)
  | .argument, e | .list, e | .arguments, e => e.Runs

end Expr

/-! ### Chains -/

/-- A name that is not reserved and that no rule knows is written as it is. -/
theorem Rules.takes_unknownName {text : String} (reserved : text ∉ reservedWords) (known : text ∉ knownNames)
    (noArrow : (following rest).isOperator ["=>"] = false) :
    Takes r.unit ⟨before, .word text :: rest, out, loops⟩ () ⟨.word text :: before, rest, out ++ [text], loops⟩ := by
  simp only [reservedWords, List.mem_cons, not_or] at reserved
  simp only [knownNames, List.mem_cons, not_or] at known
  have noConstant : Rules.constant? text = none := by
    unfold Rules.constant?
    split <;> simp_all
  have plain : text ∉ Rules.prefixNames := by
    simp_all [Rules.prefixNames]
  have noGlobal : ∀ member, r.global? text member = none := by
    intro member
    have noCounterpart : Rules.plainGlobal? text member = none := by
      unfold Rules.plainGlobal?
      split <;> simp_all
    unfold Rules.global?
    split <;> simp_all
  have asItIs : Rules.plainName text ((following rest).isPunct ["("]) = text := by
    unfold Rules.plainName
    split <;> simp_all
  have taken : Takes r.unit ⟨before, .word text :: rest, out, loops⟩ () _ :=
    Rules.takes_plainName noConstant plain noArrow (.inl noGlobal)
  rwa [asItIs] at taken

theorem Identifier.takes_unit (x : Identifier) (noArrow : (following rest).isOperator ["=>"] = false) :
    Takes r.unit ⟨before, .word x.text :: rest, out, loops⟩ () ⟨.word x.text :: before, rest, out ++ [x.text], loops⟩ := by
  have free := x.free
  simp only [List.mem_append, not_or] at free
  exact Rules.takes_unknownName free.1.1 free.2 noArrow

/-- A group in brackets: the opening one, what is inside, and the closing one. -/
theorem Walk.group {opening closing : String} (pair : (opening, closing) ∈ [("(", ")"), ("[", "]"), ("\x7b", "\x7d")])
    (calm : Calm stops) (level : 0 ≤ k)
    (opens : Takes r.unit ⟨before, .mark opening :: (ts ++ Token.mark closing :: rest), out, loops⟩ ()
      ⟨.mark opening :: before, ts ++ Token.mark closing :: rest, out ++ [opening], loops⟩)
    (inside : Walk r.next stops (k + 1) ⟨.mark opening :: before, ts ++ Token.mark closing :: rest, out ++ [opening], loops⟩
      (k + 1) ⟨ts.reverse ++ Token.mark opening :: before, .mark closing :: rest, out ++ [opening] ++ es, loops⟩) :
    Walk r.next stops k ⟨before, .mark opening :: (ts ++ Token.mark closing :: rest), out, loops⟩ k
      ⟨.mark closing :: (ts.reverse ++ Token.mark opening :: before), rest, out ++ ([opening] ++ es ++ [closing]), loops⟩ := by
  have pairs : ∀ pair ∈ [("(", ")"), ("[", "]"), ("\x7b", "\x7d")], (Token.mark pair.1).isQuiet = true ∧
      bracketDepth [.mark pair.1] = 1 ∧ bracketDepth [.mark pair.2] = -1 ∧ pair.2 ∈ Rules.plainMarks ∧ pair.2 ≠ "(" := by
    decide
  obtain ⟨quiet, up, down, plain, other⟩ := pairs _ pair
  have first : Walk r.next stops k ⟨before, .mark opening :: (ts ++ Token.mark closing :: rest), out, loops⟩ (k + 1) _ :=
    .unit [.mark opening] opens rfl (by simp) rfl (fun _ => calm _ _ _ quiet) (by rw [up])
  have last : Walk r.next stops (k + 1) ⟨ts.reverse ++ Token.mark opening :: before, .mark closing :: rest,
      out ++ [opening] ++ es, loops⟩ k _ :=
    .unit [.mark closing] (Rules.takes_mark plain (Rules.arrow?_mark other)) rfl (by simp) rfl (by omega)
      (by rw [down]; omega)
  have all := first.trans (inside.trans last)
  simpa using all

/-- The same where the opening bracket is taken anywhere. -/
theorem Reads.group {opening closing : String} (pair : (opening, closing) ∈ [("(", ")"), ("[", "]"), ("\x7b", "\x7d")])
    {depth : Nat} (positive : 1 ≤ depth)
    (opens : ∀ (r : Rules) before loops, Takes r.unit ⟨before, .mark opening :: (ts ++ Token.mark closing :: rest), out, loops⟩ ()
      ⟨.mark opening :: before, ts ++ Token.mark closing :: rest, out ++ [opening], loops⟩)
    (inside : Reads 1 depth ts (.mark closing :: rest) (out ++ [opening]) (out ++ [opening] ++ es)) :
    Reads 0 depth (.mark opening :: ts ++ [.mark closing]) rest out (out ++ ([opening] ++ es ++ [closing])) := by
  intro d stops k before loops enough calm level
  obtain ⟨d, rfl⟩ : ∃ d', d = d' + 1 := ⟨d - 1, by omega⟩
  have walk : Walk (Rules.within (d + 1)) stops k ⟨before, .mark opening :: (ts ++ Token.mark closing :: rest), out, loops⟩ k _ :=
    .group pair calm level (opens _ before loops) (inside (d + 1) stops (k + 1) _ loops enough calm (by omega))
  simpa using walk

/-- An index, which is taken as such by what stands in front of it. -/
theorem Reads.index {depth depth' : Nat} {us : List Token} {out' : Buffer}
    (head : Reads 0 depth ts (.mark "[" :: us ++ [.mark "]"] ++ rest) out out')
    (behind : ∀ before, Cursor.operandIn false (ts.reverse ++ before) = true) (positive : 1 ≤ depth')
    (inside : Reads 1 depth' us (.mark "]" :: rest) (out' ++ ["["]) (out' ++ ["["] ++ es)) :
    Reads 0 (max depth depth') (ts ++ (.mark "[" :: us ++ [.mark "]"])) rest out (out' ++ (["["] ++ es ++ ["]"])) := by
  intro d stops k before loops enough calm level
  obtain ⟨enough, enough'⟩ := Nat.max_le.mp enough
  obtain ⟨d, rfl⟩ : ∃ d', d = d' + 1 := ⟨d - 1, by omega⟩
  have group : Walk (Rules.within (d + 1)) stops k
      ⟨ts.reverse ++ before, .mark "[" :: (us ++ Token.mark "]" :: rest), out', loops⟩ k _ :=
    .group (by decide) calm level (Rules.takes_index (behind before))
      (inside (d + 1) stops (k + 1) _ loops enough' calm (by omega))
  have walk := head (d + 1) stops k before loops enough calm level
  simp only [List.append_assoc, List.cons_append, List.nil_append] at walk
  simpa using walk.trans group

/-- What ends an expression is neither an arrow nor a call of it. -/
theorem following_of_terminal (terminal : Terminal t) {trail : List Token}
    (blank : trail = [] ∨ trail = [.blank]) (rest : List Token) :
    (following (trail ++ t :: rest)).isOperator ["=>"] = false ∧ (following (trail ++ t :: rest)).isPunct ["("] = false := by
  have ends : ∀ t, Terminal t → t.isTrivia = false ∧ t.isOperator ["=>"] = false ∧ t.isPunct ["("] = false := by decide
  obtain ⟨solid, others⟩ := ends t terminal
  have next : following (trail ++ t :: rest) = t := by
    rcases blank with rfl | rfl <;> exact following_cons rest solid
  rwa [next]

theorem ExpressionRuns.reads {depth : Nat} (h : ExpressionRuns depth ts es) (ready : Ready true out) (ready' : Ready false out)
    (terminal : Terminal t) (rest : List Token) : Reads 0 depth ts (t :: rest) out (out ++ es) := by
  obtain ⟨blanks, nothing, reads⟩ := h [] t rest out ready ready' terminal (.inl rfl)
  have empty : blanks = [] := by rcases nothing with rfl | rfl <;> rfl
  rwa [empty, List.append_nil, List.append_nil] at reads

theorem ready_open (operatorsEnd : Bool) (out : Buffer) (opening : String) (h : opening ∈ ["(", "["]) :
    Ready operatorsEnd (out ++ [opening]) := by
  have opens : ∀ opening ∈ ["(", "["], closedIn opening.toList < 0 := by decide
  exact .stop out (.inr (opens opening h))

/-! The suffixes of a chain, behind whatever was written for the chain. Those that take it back are told what
they get. -/

theorem reads_parens {e : Expr .expression} (runs : e.Runs) (noArrow : (following rest).isOperator ["=>"] = false) :
    Reads 0 e.depth (.mark "(" :: e.tokens ++ [.mark ")"]) rest out (out ++ (["("] ++ e.written ++ [")"])) :=
  .group (by decide) e.depth_pos (fun _ _ _ => Rules.takes_open e.closed_tokens noArrow)
    (ExpressionRuns.reads runs (ready_open true out "(" (by decide)) (ready_open false out "(" (by decide)) (by decide) _).inside

theorem reads_field {callable : Bool} (f : Field callable) (noCall : callable = true ∨ (following rest).isPunct ["("] = false) :
    Reads 0 1 [.sign ".", .word f.text] rest out (out ++ ["." ++ f.text]) := by
  have plain : Method.ofName? f.text = none ∨ (following rest).isPunct ["("] = false := by
    rcases noCall with callable | noCall
    · exact .inl (by simpa [callable] using f.noMethod)
    · exact .inr noCall
  exact .unit (fun _ _ _ _ => Rules.takes_field f.notSize plain) rfl rfl

theorem reads_inIndex {e : Expr .expression} (runs : e.Runs) :
    Reads 1 e.depth e.tokens (.mark "]" :: rest) (out ++ ["["]) (out ++ ["["] ++ e.written) :=
  (ExpressionRuns.reads runs (ready_open true out "[" (by decide)) (ready_open false out "[" (by decide)) (by decide) _).inside

theorem reads_arguments {args : Expr .arguments} (runs : args.Runs) (noArrow : (following rest).isOperator ["=>"] = false) :
    Reads 0 args.depth (.mark "(" :: args.tokens ++ [.mark ")"]) rest out (out ++ (["("] ++ args.written ++ [")"])) :=
  .group (by decide) args.depth_pos (fun _ _ _ => Rules.takes_open args.closed_tokens noArrow)
    (runs _ _ _ (ready_open true out "(" (by decide)) (ready_open false out "(" (by decide)) (by decide))

theorem reads_link (m : Link) {args : Expr .arguments} (runs : args.Runs) (noArrow : (following rest).isOperator ["=>"] = false) :
    Reads 0 args.depth ([.sign ".", .word m.name] ++ (.mark "(" :: args.tokens ++ [.mark ")"])) rest out
      (out ++ [":" ++ m.lua] ++ (["("] ++ args.written ++ [")"])) := by
  have member : Reads 0 1 [.sign ".", .word m.name] (.mark "(" :: args.tokens ++ [.mark ")"] ++ rest) out
      (out ++ [":" ++ m.lua]) := .unit (fun _ _ _ _ => Rules.takes_link m) rfl rfl
  exact (member.mono args.depth_pos).append (reads_arguments runs noArrow)

section TakesBack

variable {operand : String} {left : Buffer} (taken : out.takeOperand true = (operand, left))

include taken

theorem reads_toText : Reads 0 1 [.sign ".", .word "toString", .mark "(", .mark ")"] rest out
    (left ++ ["tostring(" ++ operand ++ ")"]) := .unit (fun _ _ _ _ => Rules.takes_toText taken) rfl rfl

theorem reads_length : Reads 0 1 [.sign ".", .word "length"] rest out (left ++ [Expr.lengthText operand]) :=
  .unit (fun _ _ _ _ => Rules.takes_length taken) rfl rfl

end TakesBack

/-- Behind a tree stands an operand. -/
theorem Expr.operandIn_tokens {callable : Bool} (p : Expr (.chain callable)) (before : List Token) :
    Cursor.operandIn false (p.tokens.reverse ++ before) = true := by
  obtain ⟨ts, t, shape, ends⟩ := p.last_tokens rfl
  have solid : t.isTrivia = false := by cases ends <;> rfl
  simp [shape, Cursor.operandIn, solid, ends.endsTarget]

/-- An operand written last is taken back. -/
theorem Expr.takeOperand_chain {callable : Bool} (p : Expr (.chain callable)) (ready : Ready true out) :
    takeOperand (out ++ p.written) true = (p.lua, out) := by
  have nothing : ∀ entry ∈ ([] : Buffer), Text.isBlank entry = true := by simp
  simpa using p.takeOperand_written rfl ready nothing

/-! ### Values -/

theorem Identifier.keyword?_eq_none (x : Identifier) (r : Rules) : r.keyword? x.text = none := by
  have free := x.free
  simp only [List.mem_append, not_or] at free
  have reserved := free.1.1
  unfold Rules.keyword?
  split <;> simp_all [reservedWords]

/-- No keyword starts an expression. -/
theorem Expr.Begins.takes_anyStatement (begins : Expr.Begins t) {s' : Spot}
    (taken : Takes (r.expressionStatement false) ⟨before, t :: rest, out, loops⟩ () s') :
    Takes r.anyStatement ⟨before, t :: rest, out, loops⟩ () s' := by
  refine Takes.cursor.bind ?_
  have plain : Takes r.plainStatement ⟨before, t :: rest, out, loops⟩ () s' := Takes.markStatement.bind taken
  cases begins with
  | name x =>
    simp only [Spot.current_mk, x.keyword?_eq_none, Option.getD_none]
    exact plain
  | number | bracket | negation => exact plain

/-- The value of tokens that begin as an expression does is what a walk over them writes. -/
theorem Walk.takes_value (begins : ∃ t ts', ts = t :: ts' ∧ Expr.Begins t)
    (walk : Walk (Rules.within d) (Rules.endsStatement false) 0 ⟨[], ts ++ [Token.eof], [], loops⟩ 0
      ⟨ts.reverse ++ [], [.eof], es, loops⟩) :
    Takes ((Rules.within (d + 1)).value ts) ⟨before, rest, out, loops⟩ (Text.strip es.text) ⟨before, rest, out, loops⟩ := by
  obtain ⟨t, ts', rfl, begins⟩ := begins
  have taken : Takes ((Rules.within d).expressionStatement false) ⟨[], t :: ts' ++ [Token.eof], [], loops⟩ ()
      ⟨(t :: ts').reverse ++ [], [.eof], es, loops⟩ := (walk.takes_units (.inl rfl)).bind (.skipPunct_neg rfl)
  have first : t.isEof = false ∧ t.isPunct ["\x7d"] = false := by cases begins <;> exact ⟨rfl, rfl⟩
  have run : Statements (Rules.within (d + 1)) ⟨[], t :: ts' ++ [Token.eof], [], loops⟩
      ⟨(t :: ts').reverse ++ [], [.eof], es, loops⟩ :=
    .step (t :: ts') first.1 first.2 (begins.takes_anyStatement taken) rfl rfl (by simp) .done
  exact run.takes_value rfl

/-- The value of the tokens of an expression is its translation. -/
theorem takes_value {e : Expr .expression} (runs : e.Runs) (enough : e.depth ≤ d) :
    Takes ((Rules.within (d + 1)).value e.tokens) ⟨before, rest, out, loops⟩ e.lua ⟨before, rest, out, loops⟩ := by
  have walk := ExpressionRuns.reads runs (.nil true) (.nil false) (by decide : Terminal .eof) [] d (Rules.endsStatement false) 0 []
    loops enough (calm_of_mem (by simp)) (Int.le_refl 0)
  have value : Takes ((Rules.within (d + 1)).value e.tokens) ⟨before, rest, out, loops⟩ _ ⟨before, rest, out, loops⟩ :=
    walk.takes_value (e.head_tokens rfl)
  rwa [List.nil_append, e.text_written, e.strip_lua rfl] at value

theorem reads_unaryCall (m : UnaryMethod) {e : Expr .expression} (runs : e.Runs) {left : Buffer} {operand : String}
    (taken : out.takeOperand true = (operand, left)) :
    Reads 0 (e.depth + 2) (.sign "." :: .word m.name :: .mark "(" :: e.tokens ++ [.mark ")"]) rest out
      (left ++ [m.lua operand e.lua]) := by
  have nonempty : e.lua ≠ "" := by
    intro empty
    have starts := e.lua_starts rfl
    rw [empty] at starts
    cases starts
  refine .unit (fun d before loops enough => ?_) rfl ?_
  · obtain ⟨d, rfl⟩ : ∃ d', d = d' + 1 := ⟨d - 1, by omega⟩
    have call : Takes (Rules.within (d + 1)).unit
        ⟨before, .sign "." :: .word m.name :: .mark "(" :: (e.tokens ++ Token.mark ")" :: rest), out, loops⟩ () _ :=
      Rules.takes_unaryCall m e.closed_tokens e.grouped_tokens.splitOn_eq (e.hasContent_tokens rfl)
        (fun _ _ _ => takes_value runs (by omega)) nonempty taken
    simpa using call
  · exact (Grouped.plain rfl (.plain rfl (.group (by decide) e.grouped_tokens.inside .nil)) : Grouped false _).bracketDepth_eq

/-! ### Operators -/

/-- A plus sign adds behind an entry that ends in no quote. -/
theorem plusSign_of_last {last : String} (ends : Text.endsSolid last = true) (plain : '"' ∉ last.toList) {t : Token}
    (solid : t.isStringLike = false) : Rules.plusSign (out ++ [last] ++ [" "]).lastWritten t = "+" := by
  have newest : (out ++ [last] ++ [" "]).lastWritten = Text.strip last := by
    have blank : Text.isBlank " " = true := by decide
    simp [Buffer.lastWritten, blank, not_isBlank_of_endsSolid ends]
  have noQuote : Text.endsWith "\"" (Text.strip last) = false := by
    rw [Bool.eq_false_iff]
    intro quoted
    have quote : '"' ∈ (Text.strip last).toList := (List.isSuffixOf_iff_suffix.mp quoted).subset (by decide)
    exact plain (Text.mem_of_mem_strip quote)
  rw [newest, Rules.plusSign, noQuote, solid]
  rfl

/-- What was written ends in no quote, so a plus sign behind it adds. -/
theorem plusSign_eq (ends : es.getLast?.any Text.endsSolid = true) (paired : Paired (text es)) {t : Token}
    (solid : t.isStringLike = false) : Rules.plusSign (out ++ es ++ [" "]).lastWritten t = "+" := by
  obtain ⟨front, last, rfl⟩ : ∃ front last, es = front ++ [last] := by
    rcases List.eq_nil_or_concat es with rfl | ⟨front, last, rfl⟩
    · cases ends
    · exact ⟨front, last, List.concat_eq_append⟩
  rw [← List.append_assoc out]
  exact plusSign_of_last (by simpa using ends) (paired.quote_notMem last (by simp)) solid

/-- Behind an operand every sign is the one of the table. -/
theorem Expr.signBehind_operand (operand : IsOperand false es) (sign : Sign) :
    signBehind (out ++ es ++ [" "]).lastWritten sign = sign.lua := by
  cases sign with
  | plus => exact plusSign_eq operand.ends operand.paired rfl
  | _ => rfl

section Operator

variable {depth : Nat} (runs : OperandRuns false depth ts es) (positive : 1 ≤ depth)
  (noArrow : (following rest).isOperator ["=>"] = false) (noCall : (following rest).isPunct ["("] = false)

include runs positive noArrow noCall

theorem OperandRuns.negation : Reads 0 depth (.sign "!" :: ts) rest out (out ++ ["not "] ++ es) := by
  have sign : Reads 0 1 [.sign "!"] (ts ++ rest) out (out ++ ["not "]) :=
    .unit (fun _ _ _ _ => Rules.takes_binary (by decide) rfl fun spaces => absurd spaces (by decide)) rfl rfl
  exact (sign.mono positive).append (runs rest _ (.stop out (.inl (by decide))) noArrow (.inr noCall))

/-- An operator and its right operand, behind whatever was written for the left one, given what the operator becomes
there. -/
theorem OperandRuns.spelled (sign : Sign) {lua : String}
    (spelled : (if sign.text == "+" then Rules.plusSign (out ++ [" "]).lastWritten (following (.blank :: (ts ++ rest)))
      else Rules.luaOperator sign.text) = lua) :
    Reads 0 depth (.blank :: .sign sign.text :: .blank :: ts) rest out (out ++ [" "] ++ [lua] ++ [" "] ++ es) := by
  have spaced : Reads 0 1 [.blank, .sign sign.text, .blank] (ts ++ rest) out _ := .sign (by cases sign <;> decide) spelled
  exact (spaced.mono positive).append (runs rest _ (.blank _) noArrow (.inr noCall))

theorem OperandRuns.operator (sign : Sign)
    (adds : Rules.plusSign (out ++ [" "]).lastWritten (following (.blank :: (ts ++ rest))) = "+") :
    Reads 0 depth (.blank :: .sign sign.text :: .blank :: ts) rest out (out ++ [" "] ++ [sign.lua] ++ [" "] ++ es) := by
  refine runs.spelled positive noArrow noCall sign ?_
  cases sign with
  | plus => exact (if_pos (beq_self_eq_true "+")).trans adds
  | _ => rfl

end Operator

/-- Where an operand may begin, a tree takes nothing of the text in front. -/
theorem Expr.writtenOn_ready (e : Expr cat) (simple : cat.isOperand false = true)
    (ready : Ready true out) : e.writtenOn out = out ++ e.written := by
  induction e with
  | operand p ih => exact ih rfl
  | number | name | parens | negation => rfl
  | length p ih | toText p ih | unaryCall p m e ih =>
    rw [writtenOn, ih rfl, wrapOperand, p.takeOperand_chain ready]
    rfl
  | field p f ih | index p e ih | call p args ih | link p m args ih => simp [writtenOn, written, ih rfl]
  | binary sign left right ih =>
    rw [writtenOn, ih rfl, signBehind_operand (left.isOperand_written rfl)]
    simp [written]
  | _ => cases simple

theorem Expr.writtenOn_begin (e : Expr .expression) (ready : Ready true out) (ready' : Ready false out) :
    e.writtenOn out = out ++ e.written := by
  cases e with
  | plain e => exact e.writtenOn_ready rfl ready
  | choice test yes no =>
    have taken : takeOperand (out ++ test.written ++ [" "]) false = (test.lua, out) :=
      test.takeOperand_written rfl ready' (List.forall_mem_singleton.mpr (by decide))
    rw [writtenOn, test.writtenOn_ready rfl ready, wrapOperand, taken]
    rfl

theorem Expr.Walks.runs {e : Expr cat} (h : e.Walks) : e.Runs := by
  cases cat with
  | chain | simple =>
    intro rest out ready noArrow noCall
    rw [← e.writtenOn_ready rfl ready]
    exact h rest out noArrow noCall
  | expression =>
    intro trail t rest out ready ready' terminal blank
    rw [← e.writtenOn_begin ready ready']
    exact h trail t rest out terminal blank
  | argument | list | arguments => exact h

/-! ### Conditionals -/

/-- A branch of a conditional behind its mark and a blank, captured up to a token behind it. -/
theorem reads_branch {e : Expr .expression} (runs : e.Runs) {trail : List Token} (terminal : Terminal t)
    (blank : trail = [] ∨ trail = [.blank]) (rest : List Token) :
    ∃ written, Text.strip (Buffer.text written) = e.lua ∧
      Reads 0 e.depth (.blank :: (e.tokens ++ trail)) (t :: rest) [] written := by
  obtain ⟨blanks, written, reads⟩ := runs trail t rest [" "] (.blank []) (.behind_blank (.nil false)) terminal blank
  refine ⟨[" "] ++ e.written ++ blanks, ?_, (Reads.blank.mono e.depth_pos).append reads⟩
  have spaces : Text.isBlank (Buffer.text blanks) = true := by
    rcases written with rfl | rfl
    · decide
    · rcases blank with rfl | rfl <;> decide
  rw [text_append, text_append, text_singleton, e.text_written]
  exact Text.strip_between (by decide) (e.lua_starts rfl) (e.lua_ends rfl) spaces

/-- What ends an expression ends the body of an arrow function, but for a colon, and the second branch of a conditional. -/
theorem ends_of_terminal (terminal : Terminal t) (before rest : List Token) :
    ((Cursor.mk before (t :: rest) 0).atEnd = true ∨ Rules.endsElseBranch ⟨before, t :: rest, 0⟩ = true) ∧
      (t ≠ .mark ":" → (Cursor.mk before (t :: rest) 0).atEnd = true ∨ Rules.endsOperand ⟨before, t :: rest, 0⟩ = true) := by
  have ends : ∀ t, Terminal t → (t.isEof = true ∨ (t.isCloser || t.isPunct [":", ",", ";"]) = true) ∧
      (t ≠ .mark ":" → t.isEof = true ∨ (t.isCloser || t.isPunct [",", ";"]) = true) := by decide
  obtain ⟨either, other⟩ := ends t terminal
  exact ⟨either.imp id fun ended => Bool.or_eq_true_iff.mpr (.inl ended),
    fun apart => (other apart).imp id fun ended => Bool.or_eq_true_iff.mpr (.inl ended)⟩

/-- A conditional behind its condition, given what is taken back as the condition. -/
theorem reads_choice {yes no : Expr .expression} (runs : yes.Runs) (runs' : no.Runs) {trail : List Token} {left : Buffer}
    {condition : String} (terminal : Terminal t) (blank : trail = [] ∨ trail = [.blank])
    (taken : takeOperand (out ++ [" "]) false = (condition, left)) (rest : List Token) :
    Reads 0 (max yes.depth no.depth + 1) (.blank :: .mark "?" :: .blank :: (yes.tokens ++ Token.blank :: .mark ":" :: .blank ::
        (no.tokens ++ trail))) (t :: rest) out (left ++ [Expr.choiceText condition yes.lua no.lua]) := by
  obtain ⟨first, firstText, firstReads⟩ := reads_branch runs (by decide : Terminal (.mark ":")) (.inr rfl)
    (.blank :: (no.tokens ++ trail) ++ t :: rest)
  obtain ⟨second, secondText, secondReads⟩ := reads_branch runs' terminal blank rest
  have choice : Reads 0 (max yes.depth no.depth + 1) (.mark "?" :: .blank :: (yes.tokens ++ ([Token.blank] ++ Token.mark ":" ::
      .blank :: (no.tokens ++ trail)))) (t :: rest) (out ++ [" "]) (left ++ [Expr.choiceText condition yes.lua no.lua]) := by
    refine .unit (fun d before loops enough => ?_) rfl ?_
    · have yesWalk := firstReads d Rules.endsThenBranch 0 (.mark "?" :: before) loops (by omega) (calm_of_mem (by simp))
        (Int.le_refl 0)
      have noWalk := secondReads d Rules.endsElseBranch 0
        (.mark ":" :: ((.blank :: (yes.tokens ++ [Token.blank])).reverse ++ Token.mark "?" :: before)) loops (by omega)
        (calm_of_mem (by simp)) (Int.le_refl 0)
      have conditional := Rules.takes_conditional taken rfl yesWalk noWalk (ends_of_terminal terminal _ _).1
      rw [firstText, secondText] at conditional
      simpa using conditional
    · rcases blank with rfl | rfl <;> simp [bracketDepth, bracketDepth_append, yes.grouped_tokens.bracketDepth_eq,
        no.grouped_tokens.bracketDepth_eq, isOpener, isCloser, isPunct, openers, closers]
  exact (Reads.blank.mono (Nat.le_add_left 1 _)).append choice

/-! ### Arguments -/

theorem runs_value {e : Expr .expression} (runs : e.Runs) : (Expr.value e).Runs := by
  intro t rest out ready ready' ends
  have terminal : ∀ t ∈ [Token.mark ",", .mark ")"], Terminal t := by decide
  exact (ExpressionRuns.reads runs ready ready' (terminal t ends) rest).inside

/-- Behind the head of an arrow function an operand begins. -/
theorem isBoundary_arrowHead (operatorsEnd : Bool) {params : String} (paired : Paired params) :
    isBoundary operatorsEnd ("function(" ++ params ++ ") return ") = true := by
  have bare : Text.strip ("function(" ++ params ++ ") return ") = "function(" ++ params ++ ") return" := by
    have shape : "function(" ++ params ++ ") return " = "" ++ ("function(" ++ params ++ ") return") ++ " " := by
      have closing : ") return " = ") return" ++ " " := rfl
      simp only [closing, String.append_assoc, String.empty_append]
    rw [shape]
    exact Text.strip_between (by decide) (Text.startsSolid_append (Text.startsSolid_append (by decide) _) _)
      (Text.endsSolid_append _ (by decide)) (by decide)
  have opens : opensBody ("function(" ++ params ++ ") return").toList = true := by
    have back : ("function(" ++ params ++ ") return").toList.reverse =
        ") return".toList.reverse ++ (params.toList.reverse ++ "function(".toList.reverse) := by simp
    rw [opensBody, back]
    rfl
  have plain : Text.contains "\n" ("function(" ++ params ++ ") return ") = false :=
    contains_newline (paired.enclosed (by decide : encloses "function(" ") return " = true)).line
  have nonempty : ("function(" ++ params ++ ") return").isEmpty = false := by simp
  simp only [isBoundary, bare, plain, nonempty, opens, Bool.or_true, Bool.false_eq_true, if_false, if_true]

theorem reads_arrow {level : Int} (params : Parameters) {e : Expr .expression} (runs : e.Runs) (terminal : Terminal t)
    (other : t ≠ .mark ":") : Reads level (e.depth + 1) (Expr.arrow params e).tokens (t :: rest) out
      (out ++ (Expr.arrow params e).written) := by
  have begun : ∀ operatorsEnd, Ready operatorsEnd (out ++ ["function(" ++ params.lua ++ ") return "]) :=
    fun operatorsEnd => .stop out (.inl (isBoundary_arrowHead operatorsEnd params.paired_lua))
  obtain ⟨u, us, shape, begins⟩ := e.head_tokens rfl
  have first : u.isTrivia = false ∧ u.isPunct ["\x7b"] = false := by cases begins <;> exact ⟨rfl, rfl⟩
  have function : ∀ d before loops, e.depth ≤ d → Takes (Rules.within d).unit
      ⟨before, params.tokens ++ Token.blank :: .sign "=>" :: .blank :: (e.tokens ++ t :: rest), out, loops⟩ ()
      ⟨e.tokens.reverse ++ Token.blank :: .sign "=>" :: .blank :: (params.tokens.reverse ++ before), t :: rest,
        out ++ ["function(" ++ params.lua ++ ") return "] ++ e.written ++ [" end"], loops⟩ := by
    intro d before loops enough
    have inside := ExpressionRuns.reads runs (begun true) (begun false) terminal rest d Rules.endsOperand 0
      (.blank :: .sign "=>" :: .blank :: (params.tokens.reverse ++ before)) loops enough (calm_of_mem (by simp)) (Int.le_refl 0)
    have body := inside.takes_units ((ends_of_terminal terminal _ _).2 other)
    rw [shape] at body ⊢
    exact Rules.takes_arrow params first.1 first.2 body
  have flat : bracketDepth (Expr.arrow params e).tokens = 0 := (Expr.grouped_tokens _).bracketDepth_eq
  obtain ⟨v, vs, spelled, quiet⟩ : ∃ v vs, (Expr.arrow params e).tokens = v :: vs ∧ v.isQuiet = true := by
    cases params <;> exact ⟨_, _, rfl, rfl⟩
  rw [spelled] at flat ⊢
  refine .unit (fun d before loops enough => ?_) quiet flat
  rw [← spelled]
  simpa [Expr.tokens, Expr.written] using function d before loops enough

theorem runs_arrow (params : Parameters) {e : Expr .expression} (runs : e.Runs) : (Expr.arrow params e).Runs := by
  intro t rest out _ _ ends
  have ending : ∀ t ∈ [Token.mark ",", .mark ")"], Terminal t ∧ t ≠ .mark ":" := by decide
  obtain ⟨terminal, other⟩ := ending t ends
  exact reads_arrow params runs terminal other

theorem runs_more {a : Expr .argument} {args : Expr .list} (runs : a.Runs) (runs' : args.Runs) : (Expr.more a args).Runs := by
  intro t rest out ready ready' ends
  have spaced : Reads 1 args.depth [.mark ",", .blank] (args.tokens ++ t :: rest) (out ++ a.written) _ :=
    (Reads.comma.append Reads.blank).mono args.depth_pos
  have others := spaced.append
    (runs' t rest _ (.blank _) (.behind_blank (.stop _ (.inl (by decide)))) ends)
  have first := runs (.mark ",") (.blank :: (args.tokens ++ t :: rest)) out ready ready' (by decide)
  simpa [Expr.tokens, Expr.written, Expr.depth] using first.seq others

/-! ### All forms -/

namespace Expr

theorem walks_binary (sign : Sign) {left right : Expr .simple} (walks : left.Walks) (runs : right.Runs) :
    (binary sign left right).Walks := by
  intro rest out noArrow noCall
  have first := walks (.blank :: .sign sign.text :: .blank :: (right.tokens ++ rest)) out (by cases sign <;> rfl) (.inr rfl)
  obtain ⟨t, ts, shape, begins⟩ := right.head_tokens rfl
  have next : (following (.blank :: (right.tokens ++ rest))).isStringLike = false := by
    rw [shape]
    cases begins <;> rfl
  have spelled : (if sign.text == "+" then
      Rules.plusSign (left.writtenOn out ++ [" "]).lastWritten (following (.blank :: (right.tokens ++ rest)))
      else Rules.luaOperator sign.text) = signBehind (left.writtenOn out ++ [" "]).lastWritten sign := by
    cases sign with
    | plus =>
      rw [signBehind, Rules.plusSign, Rules.plusSign, next]
      rfl
    | _ => rfl
  exact first.seq (OperandRuns.spelled runs right.depth_pos noArrow (noCall.resolve_left (by simp [Category.isCallable])) sign
    spelled)

theorem walks_plain {e : Expr .simple} (walks : e.Walks) : (plain e).Walks := by
  intro trail t rest out terminal blank
  obtain ⟨noArrow, noCall⟩ := following_of_terminal terminal blank rest
  have operand := walks (trail ++ t :: rest) out noArrow (.inr noCall)
  refine ⟨trail.map (·.text), .inr rfl, operand.append ?_⟩
  rcases blank with rfl | rfl
  · simpa [writtenOn] using Reads.nil
  · exact Reads.blank.mono e.depth_pos

theorem walks_choice {test : Expr .simple} {yes no : Expr .expression} (walks : test.Walks) (runs : yes.Runs)
    (runs' : no.Runs) : (choice test yes no).Walks := by
  intro trail t rest out terminal blank
  have condition := walks (.blank :: .mark "?" :: .blank :: (yes.tokens ++ Token.blank :: .mark ":" :: .blank ::
    (no.tokens ++ trail)) ++ t :: rest) out rfl (.inr rfl)
  have taken : takeOperand (test.writtenOn out ++ [" "]) false = ((takeOperand (test.writtenOn out ++ [" "]) false).1,
    (takeOperand (test.writtenOn out ++ [" "]) false).2) := rfl
  refine ⟨[], .inl rfl, ?_⟩
  simpa [tokens, writtenOn, wrapOperand, depth] using condition.seq (reads_choice runs runs' terminal blank taken rest)

/-- The rules take the tokens of every tree, wherever they stand, and write it on the text in front. -/
theorem walks {cat : Category} (e : Expr cat) : e.Walks := by
  have taken : ∀ {es : Buffer}, es.takeOperand true = ((es.takeOperand true).1, (es.takeOperand true).2) := rfl
  induction e with
  | choice test yes no h h' h'' => exact walks_choice h h'.runs h''.runs
  | plain e ih => exact walks_plain ih
  | binary sign left right h h' => exact walks_binary sign h h'.runs
  | operand p ih =>
    intro rest out noArrow noCall
    exact ih rest out noArrow (.inr (noCall.resolve_left (by simp [Category.isCallable])))
  | number n => exact fun _ _ _ _ => .unit (fun _ _ _ _ => Rules.takes_number) rfl rfl
  | name x => exact fun _ _ noArrow _ => .unit (fun _ _ _ _ => x.takes_unit noArrow) rfl rfl
  | parens e ih => exact fun _ _ noArrow _ => reads_parens ih.runs noArrow
  | negation e ih =>
    intro rest out noArrow noCall
    simpa [tokens, writtenOn, written, depth] using
      OperandRuns.negation ih.runs e.depth_pos noArrow (noCall.resolve_left (by simp [Category.isCallable]))
  | length p ih => exact fun rest out _ _ => (ih _ out rfl (.inr rfl)).append ((reads_length taken).mono p.depth_pos)
  | toText p ih => exact fun rest out _ _ => (ih _ out rfl (.inr rfl)).append ((reads_toText taken).mono p.depth_pos)
  | unaryCall p m e h h' =>
    intro rest out _ _
    rw [tokens, List.append_assoc]
    exact (h _ out rfl (.inr rfl)).seq (reads_unaryCall m h'.runs taken)
  | field p f ih => exact fun rest out _ noCall => (ih _ out rfl (.inr rfl)).append ((reads_field f noCall).mono p.depth_pos)
  | index p e h h' =>
    intro rest out _ _
    rw [tokens, List.append_assoc]
    exact (h _ out rfl (.inr rfl)).index p.operandIn_tokens e.depth_pos (reads_inIndex h'.runs)
  | call p args h h' =>
    intro rest out noArrow _
    rw [tokens, List.append_assoc]
    exact (h _ out rfl (.inl rfl)).seq (reads_arguments h' noArrow)
  | link p m args h h' =>
    intro rest out noArrow _
    rw [tokens, List.append_assoc]
    exact (h _ out rfl (.inr rfl)).seq (reads_link m h' noArrow)
  | value e ih => exact runs_value ih.runs
  | arrow params e ih => exact runs_arrow params ih.runs
  | more a rest h h' => exact runs_more h h'
  | noArguments => exact fun _ _ _ _ _ _ => by simpa [tokens, written] using Reads.nil
  | last a ih | someArguments args ih => exact ih

/-- The rules write the translation of every tree, wherever it may stand. -/
theorem runs {cat : Category} (e : Expr cat) : e.Runs := e.walks.runs

/-- A whole expression on any text, up to a token that ends it. -/
theorem reads_whole (e : Expr .expression) (terminal : Terminal t) (rest : List Token) (out : Buffer) :
    Reads 0 e.depth e.tokens (t :: rest) out (e.writtenOn out) := by
  obtain ⟨blanks, nothing, reads⟩ := e.walks [] t rest out terminal (.inl rfl)
  have empty : blanks = [] := by rcases nothing with rfl | rfl <;> rfl
  rwa [empty, List.append_nil, List.append_nil] at reads

end Expr

end NoteScript

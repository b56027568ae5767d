import NoteScript.Proofs.Sentence

/-!
# Sorted tables of keys

The keys of a table are sorted by `.sort()` behind `.keys()` itself or behind `Array.from(…)` around it. In the first case the
rule for `.keys()` sees the call and writes the sorted table at once. In the second the table has been written unsorted by then,
and the receiver is read back from that text.

* `keysArgument?_keys`: the receiver is read back as it was, whatever brackets it has.
* `SortCall`: a call `.sort()` with any trivia in front of its tokens, and `takes_takePlainSort`: the rules see it.
* `convertTokens_sortedKeys`: both ways come to the same.
-/

namespace NoteScript

open Edit Buffer Token

namespace Idiom

theorem between?_append (start inside finish : List Char) : between? start finish (start ++ (inside ++ finish)) = some inside := by
  have size : (start ++ (inside ++ finish)).length - start.length - finish.length = inside.length := by
    simp only [List.length_append]
    omega
  rw [between?, size, List.drop_left]
  simp

theorem toList_keys (e : String) : (keys e false).toList = "(function() local _k = \x7b\x7d; for k in pairs(".toList ++
    (e.toList ++ (") do _k[#_k+1] = k end;".toList ++ " return _k end)()".toList)) := by
  unfold keys
  generalize "(function() local _k = \x7b\x7d; for k in pairs(" = start
  generalize ") do _k[#_k+1] = k end;" = body
  generalize " return _k end)()" = result
  simp

theorem keysArgument?_keys (e : String) : keysArgument? (keys e false) = some e := by
  have finish : ") do _k[#_k+1] = k end; return _k end)()".toList =
      ") do _k[#_k+1] = k end;".toList ++ " return _k end)()".toList := by decide +kernel
  rw [keysArgument?, finish, toList_keys, between?_append, Option.map_some, String.ofList_toList]

theorem strip_keys (e : String) : Text.strip (keys e false) = keys e false := by
  unfold keys
  refine Text.strip_of_solid ?_ (Text.endsSolid_append _ (by decide))
  iterate 4 refine Text.startsSolid_append ?_ _
  decide

end Idiom

/-! ### The call that sorts -/

/-- `.sort()` with trivia in front of each of its tokens. -/
structure SortCall where
  beforePoint : List Token
  beforeName : List Token
  beforeOpening : List Token
  beforeClosing : List Token
  trivia : ∀ t ∈ beforePoint ++ beforeName ++ beforeOpening ++ beforeClosing, t.isTrivia = true

/-- The first token behind some others and behind trivia. -/
theorem Cursor.ahead_behind {c : Cursor} (front : List Token) {gap rest : List Token} {t : Token} {offset : Nat}
    (shape : c.rest = front ++ (gap ++ t :: rest)) (size : offset = front.length) (inside : ∀ u ∈ gap, u.isTrivia = true)
    (solid : t.isTrivia = false) : c.ahead offset = (t, offset + gap.length) := by
  subst size
  have ends : (t :: rest).head?.all (!·.isTrivia) = true := by simp [solid]
  rw [ahead, shape, List.drop_left, takeWhile_exact inside ends, List.dropWhile_append_of_pos inside]
  simp [solid]

namespace SortCall

variable (s : SortCall)

def tokens : List Token := s.beforePoint ++ .sign "." :: (s.beforeName ++ .word "sort" :: (s.beforeOpening ++ .mark "(" ::
    (s.beforeClosing ++ [.mark ")"])))

theorem plainSort?_tokens (before rest : List Token) :
    (Cursor.mk before (s.tokens ++ rest) 0).plainSort? = some s.tokens.length := by
  have trivia := s.trivia
  simp only [List.forall_mem_append] at trivia
  obtain ⟨⟨⟨first, second⟩, third⟩, fourth⟩ := trivia
  generalize all : s.tokens ++ rest = ts
  have shape : ts = s.beforePoint ++ .sign "." :: (s.beforeName ++ .word "sort" :: (s.beforeOpening ++ .mark "(" ::
      (s.beforeClosing ++ .mark ")" :: rest))) := by simp [← all, tokens]
  have point : (Cursor.mk before ts 0).ahead 0 = (.sign ".", 0 + s.beforePoint.length) :=
    Cursor.ahead_behind [] shape rfl first rfl
  have name : (Cursor.mk before ts 0).ahead (0 + s.beforePoint.length + 1) =
      (.word "sort", 0 + s.beforePoint.length + 1 + s.beforeName.length) :=
    Cursor.ahead_behind (s.beforePoint ++ [.sign "."]) (by rw [shape, List.append_assoc]; rfl) (by simp) second rfl
  have opening : (Cursor.mk before ts 0).ahead (0 + s.beforePoint.length + 1 + s.beforeName.length + 1) =
      (.mark "(", 0 + s.beforePoint.length + 1 + s.beforeName.length + 1 + s.beforeOpening.length) :=
    Cursor.ahead_behind (s.beforePoint ++ .sign "." :: (s.beforeName ++ [.word "sort"])) (by simp [shape]; rfl) (by simp; omega) third rfl
  have closing : (Cursor.mk before ts 0).ahead (0 + s.beforePoint.length + 1 + s.beforeName.length + 1 + s.beforeOpening.length + 1) =
      (.mark ")", 0 + s.beforePoint.length + 1 + s.beforeName.length + 1 + s.beforeOpening.length + 1 + s.beforeClosing.length) :=
    Cursor.ahead_behind (s.beforePoint ++ .sign "." :: (s.beforeName ++ .word "sort" :: (s.beforeOpening ++ [.mark "("])))
      (by simp [shape]; rfl) (by simp; omega) fourth rfl
  have found : ((Token.sign ".").isOperator ["."] && (Token.word "sort").isWord "sort" && (Token.mark "(").isPunct ["("] &&
      (Token.mark ")").isPunct [")"]) = true := by decide
  have size : s.tokens.length = 0 + s.beforePoint.length + 1 + s.beforeName.length + 1 + s.beforeOpening.length + 1 +
      s.beforeClosing.length + 1 := by
    simp only [tokens, List.length_append, List.length_cons, List.length_nil]
    omega
  simp only [Cursor.plainSort?, point, name, opening, closing, found, if_true, size]

theorem grouped_tokens : Grouped false s.tokens := by
  have trivia := s.trivia
  simp only [List.forall_mem_append] at trivia
  obtain ⟨⟨⟨first, second⟩, third⟩, fourth⟩ := trivia
  exact (Grouped.trivia first).append (.plain rfl ((Grouped.trivia second).append (.plain rfl ((Grouped.trivia third).append
    (.group (by decide) (.trivia fourth) .nil)))))

end SortCall

/-- The call is seen behind whatever it sorts, and passed. -/
theorem Rules.takes_takePlainSort (s : SortCall) {before rest : List Token} {out : Buffer} {loops : LoopState} :
    Takes takePlainSort ⟨before, s.tokens ++ rest, out, loops⟩ true ⟨s.tokens.reverse ++ before, rest, out, loops⟩ := by
  refine Takes.cursor.bind ?_
  simp only [Spot.cursor, s.plainSort?_tokens]
  exact (Takes.skip s.tokens).bind (.pure true)

/-! ### Tables of keys -/

/-- `.keys()` -/
def keysTokens : List Token := [.sign ".", .word "keys", .mark "(", .mark ")"]

/-- `Array.from(p.keys())` -/
def Expr.fromTokens {callable : Bool} (p : Expr (.chain callable)) : List Token :=
  [.word "Array", .sign ".", .word "from", .mark "("] ++ (p.tokens ++ keysTokens) ++ [.mark ")"]

section Keys

variable {callable : Bool} (p : Expr (.chain callable)) {d : Nat} {before rest : List Token} {out : Buffer} {loops : LoopState}

/-- The table of the keys of an operand, with what the rules make of the tokens behind it. -/
theorem reads_keys (ready : Ready true out) {tail : List Token} {sorted : Bool} (flat : bracketDepth tail = 0)
    (seen : ∀ before loops, Takes Rules.takePlainSort ⟨before, tail ++ rest, out, loops⟩ sorted
      ⟨tail.reverse ++ before, rest, out, loops⟩) :
    Reads 0 p.depth (p.tokens ++ keysTokens ++ tail) rest out (out ++ [Idiom.keys p.lua sorted]) := by
  have call : Reads 0 1 (keysTokens ++ tail) rest (out ++ p.written) (out ++ [Idiom.keys p.lua sorted]) := by
    refine .unit (fun d before loops _ => ?_) rfl ?_
    · have nothing : Cursor.Closed "(" ")" [] := .flat (by simp)
      have unit : Takes (Rules.within d).unit ⟨before, keysTokens ++ (tail ++ rest), out ++ p.written, loops⟩ ()
          ⟨tail.reverse ++ (keysTokens.reverse ++ before), rest, out ++ [Idiom.keys p.lua sorted], loops⟩ := by
        refine Rules.takes_method .keys (by decide) (by decide) ?_
        exact (Takes.arguments nothing).bind ((Takes.takeOperand (p.takeOperand_chain ready)).bind ((seen _ loops).bind (.emit _)))
      simpa [keysTokens] using unit
    · have whole : bracketDepth (keysTokens ++ tail) = 0 := by rw [bracketDepth_append, flat]; rfl
      exact whole
  rw [List.append_assoc]
  exact (p.runs _ out ready rfl (.inr rfl)).append (call.mono p.depth_pos)

theorem takes_keysValue (enough : p.depth ≤ d + 1) :
    Takes ((Rules.within (d + 2)).value (p.tokens ++ keysTokens)) ⟨before, rest, out, loops⟩ (Idiom.keys p.lua false)
      ⟨before, rest, out, loops⟩ := by
  have reads : Reads 0 p.depth (p.tokens ++ keysTokens ++ []) [Token.eof] [] _ :=
    reads_keys p (.nil true) rfl fun _ _ => Takes.cursor.bind (.pure false)
  rw [List.append_nil] at reads
  obtain ⟨t, ts, shape, begins⟩ := p.head_tokens rfl
  have value : Takes ((Rules.within (d + 2)).value (p.tokens ++ keysTokens)) ⟨before, rest, out, loops⟩ _ ⟨before, rest, out, loops⟩ :=
    (reads.walk enough (calm_endsStatement false)).takes_value ⟨t, ts ++ keysTokens, by rw [shape]; rfl, begins⟩
  rwa [List.nil_append, text_singleton, Idiom.strip_keys] at value

/-- A sorted table of keys behind `Array.from`: the receiver is read back from the unsorted one. -/
theorem reads_arrayFrom (s : SortCall) :
    Reads 0 (p.depth + 2) (p.fromTokens ++ s.tokens) rest out (out ++ [Idiom.keys p.lua true]) := by
  have inside : Grouped false (p.tokens ++ keysTokens) :=
    p.grouped_tokens.append (.plain rfl (.plain rfl (.group (by decide) .nil .nil)))
  refine .unit (fun d before loops enough => ?_) rfl ?_
  · obtain ⟨d, rfl⟩ : ∃ d', d = d' + 2 := ⟨d - 2, by have := p.depth_pos; omega⟩
    have rule : Takes (Rules.within (d + 2)).arrayFrom ⟨.word "from" :: .sign "." :: .word "Array" :: before,
        .mark "(" :: (p.tokens ++ keysTokens ++ Token.mark ")" :: (s.tokens ++ rest)), out, loops⟩ ()
        ⟨s.tokens.reverse ++ (.mark ")" :: ((p.tokens ++ keysTokens).reverse ++ Token.mark "(" :: .word "from" :: .sign "." ::
          .word "Array" :: before)), rest, out ++ [Idiom.keys p.lua true], loops⟩ := by
      refine ((Takes.skipTrivia [] rfl rfl).bind ((Takes.arguments (inside.closed (by decide))).bind (takes_keysValue p (by omega)))).bind ?_
      simp only [Idiom.keysArgument?_keys]
      exact (Rules.takes_takePlainSort s).bind (.emit _)
    have split : p.fromTokens ++ s.tokens ++ rest = [Token.word "Array", .sign ".", .word "from"] ++
        .mark "(" :: (p.tokens ++ keysTokens ++ Token.mark ")" :: (s.tokens ++ rest)) := by simp [Expr.fromTokens]
    have passed : (p.fromTokens ++ s.tokens).reverse ++ before = s.tokens.reverse ++ (Token.mark ")" ::
        ((p.tokens ++ keysTokens).reverse ++ Token.mark "(" :: .word "from" :: .sign "." :: .word "Array" :: before)) := by
      simp [Expr.fromTokens]
    change Takes _ ⟨before, p.fromTokens ++ s.tokens ++ rest, out, loops⟩ () ⟨(p.fromTokens ++ s.tokens).reverse ++ before, _, _, _⟩
    rw [split, passed]
    exact Rules.takes_name_of_unit rfl (Takes.cursor.bind ((Takes.skip [.word "Array", .sign ".", .word "from"]).bind rule))
  · have call : Grouped false p.fromTokens := .plain rfl (.plain rfl (.plain rfl (.group (by decide) inside.inside .nil)))
    exact (call.append s.grouped_tokens).bracketDepth_eq

end Keys

/-! ### Whole scripts -/

/-- A script is converted to a text, whatever was converted before it, and there is nothing to report. -/
def ConvertsTo (tokens : List Token) (text : String) : Prop :=
  ∀ ledger, ∃ ledger', convertTokens tokens ledger = (.ok text, ledger') ∧ ledger'.diagnostics = ledger.diagnostics

namespace Identifier

variable (y : Identifier) {callable : Bool} (p : Expr (.chain callable))

/-- The script that assigns a value to a name. -/
def assigned (value : List Token) : List Token := (Lead.assign y).tokens ++ (value ++ ending true) ++ [.eof]

theorem convertsTo_assigned {depth : Nat} {value : List Token} {es : Buffer}
    (reads : Reads 0 depth value (ending true ++ [Token.eof]) ([y.text] ++ [" "] ++ ["="] ++ [" "])
      ([y.text] ++ [" "] ++ ["="] ++ [" "] ++ es))
    (enough : depth ≤ 2 * textSize (y.assigned value) + 1) : ConvertsTo (y.assigned value) (y.text ++ " = " ++ es.text) := by
  intro ledger
  obtain ⟨before, run⟩ := Sentence.statements_assigned y ((Reads.equals.mono (by omega)).append (reads.mono enough))
    ⟨ledger.labels, []⟩
  obtain ⟨journal, converted⟩ := run.convertTokens_eq rfl
  have text : Buffer.text ([y.text] ++ [" "] ++ ["="] ++ [" "] ++ es) = y.text ++ " = " ++ es.text := by
    simp only [text_append, text_singleton, String.append_assoc]
    rfl
  rw [text] at converted
  exact ⟨_, converted, rfl⟩

/-- The rules reach deeper than a part of the value needs. -/
theorem depth_le_assigned {value : List Token} (part : textSize p.tokens ≤ textSize value) :
    p.depth + 2 ≤ 2 * textSize (y.assigned value) + 1 := by
  have depth := p.depth_le
  have size := length_le_textSize (p.legible false)
  have closing : textSize (ending true) = 1 := rfl
  simp only [assigned, textSize_append, closing]
  omega

end Identifier

/-- The keys of an operand are sorted alike behind `.keys()` and behind `Array.from`, with any trivia in front of the tokens of
the call that sorts: the table is that of the operand's translation. The receiver is read back from an unsorted table as it was. -/
theorem convertTokens_sortedKeys (y : Identifier) {callable : Bool} (p : Expr (.chain callable)) (s : SortCall) :
    ConvertsTo (y.assigned p.tokens) (y.text ++ " = " ++ p.lua) ∧
    ConvertsTo (y.assigned (p.tokens ++ keysTokens ++ s.tokens)) (y.text ++ " = " ++ Idiom.keys p.lua true) ∧
    ConvertsTo (y.assigned (p.fromTokens ++ s.tokens)) (y.text ++ " = " ++ Idiom.keys p.lua true) ∧
    ∀ e, Idiom.keysArgument? (Idiom.keys e false) = some e := by
  have ready : Ready true ([y.text] ++ [" "] ++ ["="] ++ [" "]) := .blank _
  have table := text_singleton (Idiom.keys p.lua true)
  refine ⟨?_, ?_, ?_, Idiom.keysArgument?_keys⟩
  · have enough := y.depth_le_assigned p (Nat.le_refl _)
    rw [← p.text_written]
    exact y.convertsTo_assigned (p.runs _ _ ready rfl (.inr rfl)) (by omega)
  · have enough : p.depth + 2 ≤ 2 * textSize (y.assigned (p.tokens ++ keysTokens ++ s.tokens)) + 1 :=
      y.depth_le_assigned p (by simp only [textSize_append]; omega)
    rw [← table]
    exact y.convertsTo_assigned (reads_keys p ready s.grouped_tokens.bracketDepth_eq fun _ _ => Rules.takes_takePlainSort s) (by omega)
  · have enough : p.depth + 2 ≤ 2 * textSize (y.assigned (p.fromTokens ++ s.tokens)) + 1 :=
      y.depth_le_assigned p (by simp only [Expr.fromTokens, textSize_append]; omega)
    rw [← table]
    exact y.convertsTo_assigned (reads_arrayFrom p s) enough

end NoteScript

import NoteScript.Proofs.Neighbours

/-!
# Passages

A passage is a list of sentences, each closed by a semicolon, with white space and comments between them. A sentence
that is left alone may take back text in front of it, so it needs white space there, and a conditional needs a line of
its own. With that, what is written for a passage is written piece by piece.

* `Comment`, `Interlude`, `Passage`: passages as trees, `Passage.tokens`: their spelling.
* `Passage.lua`: the text of a passage, with its comments.
* `Passage.convertTokens_eq`: a passage is converted to that text.
-/

namespace NoteScript

open Edit Buffer Text Token

/-! ### Comments and white space -/

namespace Literal

/-- A comment of one line in Lua. Where it would open brackets, a blank stands in front. -/
theorem comment_line (body : String) : comment ("//" ++ body) = "--" ++ ((if beginsWith "[" body then " " else "") ++ body) := by
  have starts : beginsWith "//" ("//" ++ body) = true := by simp [beginsWith]
  have inside : String.ofList (("//" ++ body).toList.drop 2) = body := by simp
  simp only [comment, starts, if_true, inside]
  have opening : "-- " = "--" ++ " " := rfl
  split
  · rw [opening, String.append_assoc]
  · rw [String.empty_append]

theorem comment_block (body : String) : comment ("/*" ++ body ++ "*/") = "--[[" ++ inBlockComment body ++ "]]" := by
  have starts : beginsWith "//" ("/*" ++ body ++ "*/") = false := by simp [beginsWith, List.isPrefixOf]
  have ends : endsWith "*/" ("/*" ++ body ++ "*/") = true := by
    rw [endsWith, String.toList_append, List.isSuffixOf_iff_suffix]
    exact List.suffix_append _ _
  have long : 4 ≤ ("/*" ++ body ++ "*/").length := by
    rw [← String.length_toList]
    simp
  have inside : String.ofList (("/*" ++ body ++ "*/").toList.drop 2) = body ++ "*/" := by simp
  have bare : String.ofList ((body ++ "*/").toList.take ((body ++ "*/").length - 2)) = body := by
    have size : (body ++ "*/").length - 2 = body.toList.length := by
      rw [← String.length_toList]
      simp
    rw [size, String.toList_append, List.take_left, String.ofList_toList]
  simp only [comment, starts, ends, long, inside, bare, Bool.true_and, decide_true, if_true, Bool.false_eq_true, if_false]

end Literal

/-- A comment whose text ends neither the comment nor the Lua comment that is written for it. A Lua comment of one line
ends at a carriage return too, and one in brackets at two closing brackets. -/
inductive Comment where
  /-- `// body`, with the end of its line -/
  | line (body : String) (inside : ∀ c ∈ body.toList, c ≠ '\n')
      (returns : ∀ c ∈ body.toList.dropWhile (· != '\r'), isSpace c = true)
  /-- `/* body */` -/
  | block (body : String) (inside : contains "*/" body = false) (tidy : contains "]]]" body = false ∧ endsWith "]" body = false)

namespace Comment

def token : Comment → Token
  | line body _ _ => ⟨.comment, "//" ++ body⟩
  | block body _ _ => ⟨.comment, "/*" ++ body ++ "*/"⟩

/-- The end of the line, which belongs to a comment of one line. -/
def feeds : Comment → Gap
  | line _ _ _ => [.feed]
  | block _ _ _ => []

theorem isTrivia_token (c : Comment) : c.token.isTrivia = true := by cases c <;> rfl

theorem kind_token (c : Comment) : (c.token.kind == .comment) = true := by cases c <;> rfl

/-- Behind a comment stands text, unless the line ends with it. -/
theorem endsWithText_written (c : Comment) (out : Buffer) :
    (out ++ [Literal.comment c.token.text] ++ c.feeds.written).getLast?.any endsWithText = c.feeds.isEmpty := by
  cases c with
  | line body =>
    have last : (out ++ [Literal.comment ("//" ++ body)] ++ ["\n"]).getLast? = some "\n" := by simp
    change (out ++ [Literal.comment ("//" ++ body)] ++ ["\n"]).getLast?.any endsWithText = false
    rw [last]
    decide
  | block body =>
    have closed : [Literal.comment ("/*" ++ body ++ "*/")].getLast?.any endsSolid = true := by
      rw [Literal.comment_block, List.getLast?_singleton, Option.any_some]
      exact endsSolid_append _ (by decide)
    have written : (block body ‹_› ‹_›).feeds.written = [] := rfl
    rw [written, List.append_nil]
    exact getLast?_any_append out closed

end Comment

theorem Gap.foldl_tokens (g : Gap) (out : Buffer) : g.tokens.foldl addTrivia out = out ++ g.written :=
  foldl_addTrivia (fun t ht => (g.blank_of_mem t ht).1) out

theorem Gap.endsWithText_written (g : Gap) (out : Buffer) :
    (out ++ g.written).getLast?.any endsWithText = (out.getLast?.any endsWithText && g.isEmpty) := by
  cases g with
  | nil => simp [Gap.written, Gap.tokens]
  | cons space g =>
    rw [List.isEmpty_cons, Bool.and_false]
    rcases List.eq_nil_or_concat (Gap.written (space :: g)) with none | ⟨front, last, shape⟩
    · exact absurd none (Gap.written_ne_nil (by simp))
    · rw [List.concat_eq_append] at shape
      have blank : isBlank last = true := Gap.blank_written (space :: g) last (by simp [shape])
      rw [shape, ← List.append_assoc, List.getLast?_concat, Option.any_some, Bool.eq_false_iff]
      intro solid
      simp [not_isBlank_of_endsSolid solid] at blank

/-- White space with comments in it. -/
inductive Interlude where
  | gap (g : Gap)
  | remark (g : Gap) (c : Comment) (rest : Interlude)

namespace Interlude

def tokens : Interlude → List Token
  | gap g => g.tokens
  | remark g c rest => g.tokens ++ c.token :: (c.feeds.tokens ++ rest.tokens)

def isPlain : Interlude → Bool
  | gap _ => true
  | remark _ _ _ => false

/-- The white space behind the last comment, where `fed` is what stands in front. -/
def trail (fed : Gap) : Interlude → Gap
  | gap g => fed ++ g
  | remark _ c rest => rest.trail c.feeds

/-- May an expression that is left alone follow? It needs white space in front of it, and a conditional a new line; at the
start of a script there is nothing to be taken back. -/
def clears (atStart isChoice : Bool) (i : Interlude) : Bool :=
  atStart && i.isPlain || if isChoice then (i.trail []).hasFeed else !(i.trail []).isEmpty

/-- The text of an interlude, where `glued` says whether it follows text. A comment is kept apart from text. -/
def lua (glued : Bool) : Interlude → String
  | gap g => sourceText g.tokens
  | remark g c rest =>
    sourceText g.tokens ++ (if glued && g.isEmpty then " " else "") ++ Literal.comment c.token.text ++
      sourceText c.feeds.tokens ++ rest.lua c.feeds.isEmpty

theorem isTrivia_of_mem : (i : Interlude) → ∀ t ∈ i.tokens, t.isTrivia = true
  | gap g => g.isTrivia_of_mem
  | remark g c rest => by
    intro t ht
    simp only [tokens, List.mem_append, List.mem_cons] at ht
    rcases ht with ht | rfl | ht | ht
    · exact g.isTrivia_of_mem t ht
    · exact c.isTrivia_token
    · exact c.feeds.isTrivia_of_mem t ht
    · exact rest.isTrivia_of_mem t ht

/-- An interlude ends with the tokens of the white space behind its last comment. -/
theorem exists_trail : (i : Interlude) → (fed : Gap) →
    (∀ g, Gap.tokens (fed ++ g) = fed.tokens ++ Gap.tokens g) → ∃ front, fed.tokens ++ i.tokens = front ++ (i.trail fed).tokens
  | gap g, fed, split => ⟨[], by simp [tokens, trail, split]⟩
  | remark g c rest, fed, _ => by
    obtain ⟨front, shape⟩ := rest.exists_trail c.feeds fun g => by cases c <;> rfl
    exact ⟨fed.tokens ++ g.tokens ++ c.token :: front, by simp [tokens, trail, shape]⟩

/-- Behind an interlude that clears the way for it an expression begins. -/
theorem ready {i : Interlude} {atStart isChoice : Bool} (clear : i.clears atStart isChoice = true) {out : Buffer}
    (start : atStart = true → out = []) :
    Ready true (i.tokens.foldl addTrivia out) ∧ (isChoice = true → Ready false (i.tokens.foldl addTrivia out)) := by
  rw [clears, Bool.or_eq_true, Bool.and_eq_true] at clear
  rcases clear with ⟨first, noComment⟩ | clear
  · obtain rfl := start first
    cases i with
    | remark => cases noComment
    | gap g =>
      rw [tokens, g.foldl_tokens]
      refine ⟨?_, fun _ => Ready.behind_blanks (.nil false) g.blank_written⟩
      cases g with
      | nil => exact .nil true
      | cons => exact .blanks (Gap.blank_written _) (Gap.written_ne_nil (by simp)) []
  · obtain ⟨front, shape⟩ := i.exists_trail [] fun _ => rfl
    have split : i.tokens = front ++ (i.trail []).tokens := shape
    rw [split, List.foldl_append, Gap.foldl_tokens]
    cases isChoice with
    | true => exact ⟨((i.trail []).ready clear _).1, fun _ => ((i.trail []).ready clear _).2⟩
    | false =>
      have nonempty : i.trail [] ≠ [] := by simpa using clear
      exact ⟨.blanks (Gap.blank_written _) (Gap.written_ne_nil nonempty) _, fun other => by cases other⟩

theorem text_foldl : (i : Interlude) → (out : Buffer) →
    Buffer.text (i.tokens.foldl addTrivia out) = Buffer.text out ++ i.lua (out.getLast?.any endsWithText)
  | gap g, out => by
    rw [tokens, g.foldl_tokens, text_append]
    rfl
  | remark g c rest, out => by
    rw [tokens, List.foldl_append, List.foldl_cons, List.foldl_append, Gap.foldl_tokens, Gap.foldl_tokens, text_foldl rest, addTrivia,
      c.kind_token, if_pos rfl, c.endsWithText_written, g.endsWithText_written, lua]
    cases out.getLast?.any endsWithText && g.isEmpty <;>
      simp only [text_append, text_singleton, Gap.text_written, String.append_assoc, String.empty_append, if_true,
        Bool.false_eq_true, if_false]

end Interlude

/-! ### Reading back -/

theorem Token.sourceText_append (ts ts' : List Token) : sourceText (ts ++ ts') = sourceText ts ++ sourceText ts' := by
  simp [sourceText, String.join_append]

/-- White space is cut back in front of what does not go on with it. -/
theorem Gap.readBack (g : Gap) {rest : List Token} (h : ReadBack rest)
    (solid : (rest.flatMap fun t => t.text.toList).head?.all (!isInlineSpace ·) = true) : ReadBack (g.tokens ++ rest) := by
  have legible : AlwaysLegible g.tokens := by simpa using Gap.legible alwaysLegible_nil rfl g
  refine h.append legible fun t last => ?_
  rcases (g.blank_of_mem t (List.mem_of_mem_getLast? last)).1 with kind | kind
  · simpa [endsAt, kind] using solid
  · simp [endsAt, kind]

theorem Comment.readBack (c : Comment) {rest : List Token} (h : ReadBack rest) :
    ReadBack (c.token :: (c.feeds.tokens ++ rest)) := by
  cases c with
  | line body inside =>
    have fed : ReadBack ([⟨.newline, "\n"⟩] ++ rest) := by
      refine h.append (fun divides => ⟨rfl, by simp, trivial⟩) fun t last => ?_
      cases last
      rfl
    exact .lineComment inside fed rfl
  | block body inside => exact .blockComment inside h

theorem Interlude.readBack : (i : Interlude) → {rest : List Token} → ReadBack rest →
    (rest.flatMap fun t => t.text.toList).head?.all (!isInlineSpace ·) = true → ReadBack (i.tokens ++ rest)
  | .gap g, _, h, solid => g.readBack h solid
  | .remark g c others, rest, h, solid => by
    have comment := c.readBack (others.readBack h solid)
    have slash : ((c.token :: (c.feeds.tokens ++ (others.tokens ++ rest))).flatMap fun t => t.text.toList).head?.all
        (!isInlineSpace ·) = true := by
      cases c <;> simp [Comment.token, isInlineSpace]
    simpa [Interlude.tokens] using g.readBack comment slash

/-! ### Sentences in a row -/

/-- Sentences with interludes, where `atStart` says whether it is a whole script. -/
inductive Passage : Bool → Type where
  | closing {atStart : Bool} (i : Interlude) : Passage atStart
  | more {atStart : Bool} (i : Interlude) (s : Sentence)
      (clear : s.lead.isAlone = true → i.clears atStart s.body.isChoice = true) (rest : Passage false) : Passage atStart

namespace Passage

variable {atStart : Bool}

def tokens {atStart : Bool} : Passage atStart → List Token
  | closing i => i.tokens
  | more i s _ rest => i.tokens ++ (s.tokens ++ (ending true ++ rest.tokens))

/-- The text of a passage, where `glued` says whether it follows text. -/
def lua {atStart : Bool} (glued : Bool) : Passage atStart → String
  | closing i => i.lua glued
  | more i s _ rest => i.lua glued ++ s.lua ++ rest.lua true

/-- What is written for a passage behind some text. -/
def written {atStart : Bool} (out : Buffer) : Passage atStart → Buffer
  | closing i => i.tokens.foldl addTrivia out
  | more i s _ rest => rest.written (i.tokens.foldl addTrivia out ++ s.written)

/-- The rules inside each other that a passage needs. -/
def depth {atStart : Bool} : Passage atStart → Nat
  | closing _ => 0
  | more _ s _ rest => max s.body.depth rest.depth

theorem text_written {atStart : Bool} : (p : Passage atStart) → (out : Buffer) →
    Buffer.text (p.written out) = Buffer.text out ++ p.lua (out.getLast?.any endsWithText)
  | closing i, out => i.text_foldl out
  | more i s _ rest, out => by
    have ends : (i.tokens.foldl addTrivia out ++ s.written).getLast?.any endsWithText = true := by
      rw [Sentence.written, ← List.append_assoc]
      exact getLast?_any_append _ (s.body.written_ends rfl)
    rw [written, text_written rest, ends, text_append, s.text_written, i.text_foldl, lua]
    simp only [String.append_assoc]

/-- A passage does not start with a comma. -/
theorem head_tokens (p : Passage atStart) : ((p.tokens ++ [Token.eof]).headD .eof).isPunct [","] = false := by
  have behind : ∀ (i : Interlude) (rest : List Token), (rest.headD .eof).isPunct [","] = false →
      ((i.tokens ++ rest).headD .eof).isPunct [","] = false := by
    intro i rest single
    cases trivia : i.tokens with
    | nil => exact single
    | cons t ts =>
      have first := i.isTrivia_of_mem t (by simp [trivia])
      rcases kind_of_isTrivia first with kind | kind | kind <;> simp [isPunct, kind]
  cases p with
  | closing i => exact behind i [.eof] rfl
  | more i s _ rest =>
    rw [tokens, List.append_assoc]
    refine behind i _ ?_
    obtain ⟨t, ts, shape, -, -, other, -⟩ := s.head_tokens
    simpa [shape] using other

theorem statements {atStart : Bool} : (p : Passage atStart) → {d : Nat} → p.depth ≤ d → (before : List Token) → (out : Buffer) →
    (atStart = true → out = []) → (loops : LoopState) →
    ∃ before', Statements (Rules.within (d + 1)) ⟨before, p.tokens ++ [.eof], out, loops⟩
      ⟨before', [.eof], p.written out, loops⟩
  | closing i, d, _, before, out, _, loops => ⟨_, statements_trivia i.isTrivia_of_mem before out⟩
  | more i s clear rest, d, enough, before, out, start, loops => by
    obtain ⟨enough, further⟩ := Nat.max_le.mp enough
    have between : Statements (Rules.within (d + 1))
        ⟨before, i.tokens ++ (s.tokens ++ (ending true ++ (rest.tokens ++ [.eof]))), out, loops⟩ _ :=
      statements_trivia i.isTrivia_of_mem before out
    have sentence : Statements (Rules.within (d + 1)) ⟨i.tokens.reverse ++ before,
        s.tokens ++ (ending true ++ (rest.tokens ++ [.eof])), i.tokens.foldl addTrivia out, loops⟩ _ :=
      s.statements enough (.inl rfl) rest.head_tokens fun alone => Interlude.ready (clear alone) start
    obtain ⟨before', others⟩ := rest.statements further _ (i.tokens.foldl addTrivia out ++ s.written)
      (fun other => by cases other) loops
    refine ⟨before', ?_⟩
    simpa [tokens, written] using between.trans (sentence.trans others)

theorem readBack {atStart : Bool} : (p : Passage atStart) → ReadBack p.tokens
  | closing i => by simpa [tokens] using i.readBack .nil rfl
  | more i s _ rest => by
    have closed : ReadBack ((s.tokens ++ ending true) ++ rest.tokens) := by
      refine rest.readBack.append (s.legible_ending true) fun t last => ?_
      obtain rfl : Token.mark ";" = t := by simpa [ending] using last
      rfl
    rw [List.append_assoc] at closed
    refine i.readBack closed ?_
    obtain ⟨t, ts, shape, -, -, -, solid⟩ := s.head_tokens
    have readable : Readable false t = true := by
      have legible := s.legible false
      rw [shape] at legible
      exact legible.1
    have notSpace : t.kind ≠ .space := fun kind => by simp [isTrivia, kind] at solid
    have starts : Token.blank.endsAt t.text.toList.head? = true := endsAt_of_apart (apart_space notSpace) readable
    obtain ⟨c, head, -⟩ := starts_of_readable readable
    rw [shape, List.cons_append, List.flatMap_cons, List.head?_append, head, Option.some_or, ← head]
    exact starts

theorem depth_le {atStart : Bool} : (p : Passage atStart) → p.depth ≤ textSize p.tokens + 1
  | closing _ => Nat.zero_le _
  | more i s _ rest => by
    have single := s.depth_le
    have others := rest.depth_le
    simp only [depth, tokens, textSize_append]
    omega

/-- A passage is converted to its text, and there is nothing to report. -/
theorem convertTokens_eq (p : Passage true) (ledger : Ledger) :
    ∃ ledger', convertTokens (tokenize (sourceText p.tokens)) ledger = (.ok (p.lua false), ledger') ∧
      ledger'.diagnostics = ledger.diagnostics := by
  have enough : p.depth ≤ 2 * textSize (p.tokens ++ [.eof]) + 1 := by
    have := p.depth_le
    rw [textSize_append]
    omega
  obtain ⟨before, run⟩ := p.statements enough [] [] (fun _ => rfl) ⟨ledger.labels, []⟩
  obtain ⟨ledger', converted, reported, -⟩ := run.convertTokens_readBack p.readBack
  rw [p.text_written] at converted
  exact ⟨ledger', by simpa [Buffer.text] using converted, reported⟩

end Passage

end NoteScript

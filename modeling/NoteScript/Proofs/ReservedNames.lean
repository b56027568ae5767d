import NoteScript.Proofs.Phrases

/-!
# Names that Lua reserves

A word that only Lua reserves is a name in a script. Where does it surface as a name in the Lua code, which Lua then
does not read? The names of keys are put in brackets as strings. Nothing is done about variables and members.

* `Use.read?`: the name that Lua reads from what is written for one; `Use.read?_lua`: when it is the same name.
* `Deed`: statements with phrases in them; `Deed.tokens`, `Deed.written`: their spelling and the entries for them.
* `Deed.runs`: the rules write these entries.
* `convertTokens_deeds`: whole scripts, and which of their names Lua reads.
-/

namespace NoteScript

open Edit Buffer Token

/-! ### What Lua reads -/

namespace Lua

/-- A character that a name in Lua may have behind its first one. -/
def continuesName (c : Char) : Bool := c.isAlphanum || c == '_'

/-- A text with the characters of a name in Lua. -/
def isWord (s : String) : Bool := !s.toList.head?.any Char.isDigit && s != "" && s.toList.all continuesName

/-- The name that a word is, unless it is reserved. -/
def name? (s : String) : Option String := if isWord s ∧ s ∉ luaWords then some s else none

/-- The text of a string without escapes, given what stands behind its first quote, if it ends a key in brackets. -/
def quoted? (cs : List Char) : Option String := let inside := cs.takeWhile fun c => c != '"' && c != '\\'
  if cs.drop inside.length = ['"', ']'] then some (String.ofList inside) else none

end Lua

/-- The name that Lua reads where one is used. -/
def Use.read? : Use → String → Option String
  | var, s => Lua.name? s
  | member, s => if s.toList.head? = some '.' then Lua.name? (String.ofList s.toList.tail) else none
  | key, s => if s.toList.take 2 = ['[', '"'] then Lua.quoted? (s.toList.drop 2) else Lua.name? s

/-- Lua reads a name as it was, if it has the characters of one and is not reserved. Only keys may be reserved. -/
theorem Use.read?_lua (use : Use) (x : Word) :
    use.read? (use.lua x.text) = some x.text ↔ Lua.isWord x.text = true ∧ (use = .key ∨ x.text ∉ luaWords) := by
  have plain : Lua.name? x.text = some x.text ↔ Lua.isWord x.text = true ∧ x.text ∉ luaWords := by
    rw [Lua.name?]
    split <;> simp_all
  cases use with
  | var => simpa [read?, lua] using plain
  | member =>
    have tail : String.ofList ("." ++ x.text).toList.tail = x.text := by simp
    have point : ("." ++ x.text).toList.head? = some '.' := by simp
    rw [lua, read?, if_pos point, tail]
    simpa using plain
  | key =>
    rw [lua]
    split
    · rename_i reserved
      have words : ∀ word ∈ luaWords, Lua.isWord word = true ∧
          Use.key.read? ("[\"" ++ word ++ "\"]") = some word := by decide +kernel
      simp [words x.text reserved]
    · rename_i free
      have bare : x.text.toList.take 2 ≠ ['[', '"'] := by
        intro opens
        have bracket : '[' ∈ x.text.toList := List.mem_of_mem_take (by rw [opens]; simp)
        exact x.isWord.ne_of_mem bracket (by decide) rfl
      rw [read?, if_neg bare]
      simpa [free] using plain

-- These words are reserved in Lua alone, so scripts may have them as names.
example : ∀ text ∈ ["and", "elseif", "end", "goto", "local", "nil", "not", "or", "repeat", "then", "until"],
    text ∈ luaWords ∧ isNameText text = true ∧ text ∉ reservedWords ∧ text ∉ knownNames := by decide

/-! ### Statements -/

/-- A statement, or several of them. -/
inductive Deed : Bool → Type where
  /-- `p;` -/
  | run {callable : Bool} (p : Phrase (.chain callable)) : Deed false
  /-- `p = v;` -/
  | assign {callable : Bool} (p : Phrase (.chain callable)) (v : Phrase .value) : Deed false
  /-- `const x = v;` -/
  | declare (word : String) (known : word ∈ Rules.declarationWords) (x : Word) (v : Phrase .value) : Deed false
  /-- `return v;` -/
  | giveBack (v : Phrase .value) : Deed false
  /-- `if (e) {…}` -/
  | branch (test : Phrase .simple) (body : Deed true) : Deed false
  /-- `if (e) {…} else {…}` -/
  | choose (test : Phrase .simple) (body other : Deed true) : Deed false
  /-- `while (e) {…}` -/
  | loopWhile (test : Phrase .simple) (body : Deed true) : Deed false
  /-- `for (const x of e) {…}` over the values or `for (const x in e) {…}` over the keys -/
  | loopOver (values : Bool) (x : Word) (e : Phrase .simple) (body : Deed true) : Deed false
  /-- `function f(x, y) {…}` -/
  | define (f : Word) (params : List Word) (body : Deed true) : Deed false
  | none : Deed true
  | more (first : Deed false) (rest : Deed true) : Deed true

/-- The tokens inside the round brackets of a loop over a collection. -/
def Phrase.loopHead (values : Bool) (x : Word) (e : Phrase .simple) : List Token :=
  [.word "const", .blank, .word x.text, .blank, .word (if values then "of" else "in"), .blank] ++ e.tokens

/-- Tokens in round brackets behind a blank. -/
def Token.bracketed (ts : List Token) : List Token := .blank :: .mark "(" :: ts ++ [.mark ")"]

/-- Tokens in braces, with blanks around the braces. -/
def Token.braced (ts : List Token) : List Token := .blank :: .mark "\x7b" :: ts ++ [.blank, .mark "\x7d"]

namespace Piece

/-- Names with commas between them, as they are written. -/
def names : List Word → List Piece
  | [] => []
  | [x] => [.name .var x]
  | x :: rest => .name .var x :: .text ", " :: names rest

/-- The entry with the condition of a statement. -/
def testHead (front : String) (e : Phrase .simple) (back : String) : List Piece :=
  .text front :: e.written.flatten ++ [.text back]

/-- The entry that a loop over a collection starts with. -/
def eachHead (values : Bool) (x : Word) (e : Phrase .simple) : List Piece :=
  [.text (if values then "for _, " else "for "), .name .var x, .text (if values then " in ipairs(" else " in pairs(")] ++
    e.written.flatten ++ [.text ") do"]

/-- The entry that a function starts with. -/
def functionHead (f : Word) (params : List Word) : List Piece :=
  [.text "local function ", .name .var f, .text "("] ++ names params ++ [.text ")"]

/-- A statement with its head and its end. -/
def closed (head : List Piece) (body : List (List Piece)) : List (List Piece) := [head] ++ body ++ verbatim [" end"]

end Piece

namespace Deed

/-- The tokens of a statement. In front of each of several statements is a blank. -/
@[simp]
def tokens {several : Bool} : Deed several → List Token
  | run p => p.tokens ++ [.mark ";"]
  | assign p v => p.tokens ++ .blank :: .sign "=" :: .blank :: v.tokens ++ [.mark ";"]
  | declare word _ x v => .word word :: .blank :: .word x.text :: .blank :: .sign "=" :: .blank :: v.tokens ++ [.mark ";"]
  | giveBack v => .word "return" :: .blank :: v.tokens ++ [.mark ";"]
  | branch test body => .word "if" :: bracketed test.tokens ++ braced body.tokens
  | choose test body other =>
    .word "if" :: bracketed test.tokens ++ braced body.tokens ++ .blank :: .word "else" :: braced other.tokens
  | loopWhile test body => .word "while" :: bracketed test.tokens ++ braced body.tokens
  | loopOver values x e body => .word "for" :: bracketed (Phrase.loopHead values x e) ++ braced body.tokens
  | define f params body =>
    .word "function" :: .blank :: .word f.text :: .mark "(" :: names (params.map (·.text)) ++ .mark ")" :: braced body.tokens
  | none => []
  | more first rest => .blank :: first.tokens ++ rest.tokens

open Piece in
/-- The entries for a statement, with their names. -/
@[simp]
def written {several : Bool} : Deed several → List (List Piece)
  | run p => p.written
  | assign p v => p.written ++ verbatim [" ", "=", " "] ++ v.written
  | declare _ _ x v => [[.text "local ", .name .var x, .text " = "]] ++ v.written
  | giveBack v => verbatim ["return", " "] ++ v.written
  | branch test body => closed (testHead "if " test " then") body.written
  | choose test body other => closed (testHead "if " test " then") (body.written ++ verbatim [" else"] ++ other.written)
  | loopWhile test body => closed (testHead "while " test " do") body.written
  | loopOver values x e body => closed (eachHead values x e) body.written
  | define f params body => closed (functionHead f params) body.written
  | none => []
  | more first rest => verbatim [" "] ++ first.written ++ rest.written

/-- The entries for a statement. -/
abbrev entries {several : Bool} (s : Deed several) : Buffer := Piece.buffer s.written

/-- The depth of the rules that a statement needs. -/
@[simp]
def depth {several : Bool} : Deed several → Nat
  | run p => p.depth + 1
  | assign p v => max p.depth v.depth + 1
  | declare _ _ _ v | giveBack v => v.depth + 1
  | branch test body | loopWhile test body => max (test.depth + 1) body.depth + 1
  | choose test body other => max (test.depth + 1) (max body.depth other.depth) + 1
  | loopOver _ _ e body => max (e.depth + 1) body.depth + 1
  | define _ _ body => body.depth + 1
  | none => 1
  | more first rest => max first.depth rest.depth

/-- The loops of a statement. -/
@[simp]
def loops {several : Bool} : Deed several → Nat
  | run _ | assign .. | declare .. | giveBack _ | none => 0
  | branch _ body | define _ _ body => body.loops
  | choose _ body other => body.loops + other.loops
  | loopWhile _ body | loopOver _ _ _ body => body.loops + 1
  | more first rest => first.loops + rest.loops

theorem depth_pos {several : Bool} (s : Deed several) : 1 ≤ s.depth := by
  induction s with
  | more first rest h => exact Nat.le_trans h (Nat.le_max_left _ _)
  | _ =>
    simp only [depth]
    omega

/-- No statement is taken without rules. -/
theorem exists_succ {several : Bool} (s : Deed several) {d : Nat} (enough : s.depth ≤ d) : ∃ d', d = d' + 1 :=
  ⟨d - 1, by have := s.depth_pos; omega⟩

theorem depth_le {several : Bool} (s : Deed several) : s.depth ≤ s.tokens.length + 2 := by
  induction s with simp only [depth, tokens, bracketed, braced, Phrase.loopHead, List.length_append, List.length_cons]
  | run p =>
    have := p.depth_le
    omega
  | assign p v =>
    have := p.depth_le
    have := v.depth_le
    omega
  | declare _ _ _ v | giveBack v =>
    have := v.depth_le
    omega
  | branch e body | loopWhile e body | loopOver _ _ e body | choose e body =>
    have := e.depth_le
    omega
  | define f params body | more first rest h h' =>
    omega
  | none => simp

/-! ### Spelling -/

theorem head_tokens (s : Deed false) : ∃ t ts, s.tokens = t :: ts ∧ t.isTrivia = false ∧ t.isEof = false ∧
    t.isPunct ["\x7d"] = false ∧ t.isWord "else" = false := by
  have phrase : ∀ {callable : Bool} (p : Phrase (.chain callable)) (rest : List Token), ∃ t ts, p.tokens ++ rest = t :: ts ∧
      t.isTrivia = false ∧ t.isEof = false ∧ t.isPunct ["\x7d"] = false ∧ t.isWord "else" = false := by
    intro callable p rest
    obtain ⟨t, ts, shape, begins⟩ := p.head_tokens rfl
    obtain ⟨solid, inside, -, -, other⟩ := begins.solid
    exact ⟨t, ts ++ rest, by rw [shape, List.cons_append], solid, inside, other, begins.isWord_eq_false (by decide)⟩
  cases s with
  | run p => exact phrase p _
  | assign p v =>
    rw [tokens, List.append_assoc]
    exact phrase p _
  | declare word known x v =>
    have other : ∀ word ∈ Rules.declarationWords, (Token.word word).isWord "else" = false := by decide
    exact ⟨_, _, rfl, rfl, rfl, rfl, other word known⟩
  | giveBack | branch | choose | loopWhile | loopOver | define => exact ⟨_, _, rfl, rfl, rfl, rfl, rfl⟩

theorem legible_bracketed {ts rest : List Token} (h : AlwaysLegible ts) (h' : AlwaysLegible rest) :
    AlwaysLegible (bracketed ts ++ rest) := by
  have inside := ((h.before_mark h' ")" rfl).mark "(" rfl).blank rfl
  simpa [bracketed] using inside

theorem legible_braced {ts : List Token} (h : ∀ {rest}, AlwaysLegible rest → AlwaysLegible (ts ++ rest)) {rest : List Token}
    (h' : AlwaysLegible rest) : AlwaysLegible (braced ts ++ rest) := by
  have inside := ((h ((h'.mark "\x7d" rfl).blank rfl)).mark "\x7b" rfl).blank rfl
  simpa [braced] using inside

/-- The tokens of a statement are cut back from its text, whatever follows. -/
theorem legible {several : Bool} (s : Deed several) :
    ∀ {rest : List Token}, AlwaysLegible rest → AlwaysLegible (s.tokens ++ rest) := by
  have ended : ∀ (v : Phrase .value) {rest : List Token}, AlwaysLegible rest →
      AlwaysLegible (.blank :: (v.tokens ++ Token.mark ";" :: rest)) :=
    fun v rest h => v.legible_blank rfl (v.legible.before_mark h ";" rfl)
  have loopHead : ∀ (values : Bool) (x : Word) (e : Phrase .simple), AlwaysLegible (Phrase.loopHead values x e) := by
    intro values x e
    have collection : AlwaysLegible (.blank :: (e.tokens ++ [])) := e.legible_blank rfl (by simpa using e.legible)
    rw [List.append_nil] at collection
    have sign : isNameText (if values then "of" else "in") = true := by cases values <;> decide
    exact ((((collection.word _ sign rfl).blank rfl).word x.text x.isName rfl).blank rfl).word "const" rfl rfl
  induction s with intro rest h
  | run p =>
    rw [tokens, List.append_assoc]
    exact p.legible.before_mark h ";" rfl
  | assign p v =>
    have all : AlwaysLegible (p.tokens ++ Token.blank :: .sign "=" :: .blank :: (v.tokens ++ Token.mark ";" :: rest)) := by
      refine p.legible_append rfl p.legible ((ended v h).equals true) ?_
      rintro t ends u ⟨⟩
      exact ends.apart_blank
    simpa using all
  | declare text known x v =>
    simpa using (((ended v h).equals.word x.text x.isName rfl).blank rfl).word text (Rules.isName_declarationWords text known) rfl
  | giveBack v =>
    simpa using (ended v h).word "return" rfl rfl
  | branch test body ih =>
    simpa using (legible_bracketed test.legible (legible_braced ih h)).word "if" rfl rfl
  | choose test body other ih ih' =>
    have further := ((legible_braced ih' h).word "else" rfl rfl).blank rfl
    simpa using (legible_bracketed test.legible (legible_braced ih further)).word "if" rfl rfl
  | loopWhile test body ih =>
    simpa using (legible_bracketed test.legible (legible_braced ih h)).word "while" rfl rfl
  | loopOver values x e body ih =>
    simpa using (legible_bracketed (loopHead values x e) (legible_braced ih h)).word "for" rfl rfl
  | define f params body ih =>
    have params : AlwaysLegible (names (params.map (·.text))) := by
      refine legible_names fun text mem => ?_
      obtain ⟨x, -, rfl⟩ := List.mem_map.mp mem
      exact x.isName
    have head := (((params.before_mark (legible_braced ih h) ")" rfl).mark "(" rfl).word f.text f.isName rfl).blank rfl
    simpa using head.word "function" rfl rfl
  | none => exact h
  | more first others ih ih' =>
    obtain ⟨t, ts, shape, solid, -⟩ := first.head_tokens
    have all : AlwaysLegible (.blank :: (first.tokens ++ (others.tokens ++ rest))) := by
      refine (ih (ih' h)).blank ?_
      rw [shape]
      exact congrArg (!·) solid
    simpa using all

end Deed

/-! ### Texts -/

namespace Piece

theorem line_names (xs : List Word) : line (names xs) = String.intercalate ", " (xs.map (·.text)) := by
  induction xs with
  | nil => rfl
  | cons x xs ih =>
    cases xs with
    | nil => simp [names, Use.lua]
    | cons y ys =>
      have step : names (x :: y :: ys) = [Piece.name .var x] ++ [Piece.text ", "] ++ names (y :: ys) := rfl
      rw [step, line_append, line_append, line_name, line_text, ih, Use.lua]
      simp only [List.map_cons, String.intercalate_cons_cons]

theorem line_testHead (front : String) (e : Phrase .simple) (back : String) :
    line (testHead front e back) = front ++ line e.written.flatten ++ back := by
  have shape : testHead front e back = [Piece.text front] ++ e.written.flatten ++ [Piece.text back] := rfl
  rw [shape, line_append, line_append, line_text, line_text]

theorem line_eachHead (values : Bool) (x : Word) (e : Phrase .simple) (tokens : List Token) :
    line (eachHead values x e) = Rules.ForEach.text ⟨x.text, values, tokens⟩ (line e.written.flatten) := by
  cases values <;> simp [eachHead, Rules.ForEach.text, line, lua, Use.lua, String.append_assoc]

theorem line_functionHead (f : Word) (params : List Word) : line (functionHead f params) =
    "local function " ++ f.text ++ "(" ++ String.intercalate ", " (params.map (·.text)) ++ ")" := by
  rw [functionHead, line_append, line_append, line_names, line_text]
  simp [line, lua, Use.lua, String.append_assoc]

theorem line_declared (x : Word) : line [.text "local ", .name .var x, .text " = "] = "local " ++ x.text ++ " = " := by
  simp [line, lua, Use.lua, String.append_assoc]

theorem buffer_closed (head : List Piece) (body : List (List Piece)) :
    buffer (closed head body) = [line head] ++ buffer body ++ [" end"] := by
  rw [closed, buffer_append, buffer_append, buffer_singleton, buffer_verbatim]

/-- What a statement with a body starts with: text on one line. -/
structure IsHead (head : List Piece) : Prop where
  even : Even (line head)
  ends : Text.endsSolid (line head) = true

theorem even_value (e : Phrase .simple) : Even (line e.written.flatten) := by
  rw [← text_buffer]
  exact e.even_entries

theorem isHead_testHead {front : String} (e : Phrase .simple) {back : String} (even : Even front) (even' : Even back)
    (ends : Text.endsSolid back = true) : IsHead (testHead front e back) := by
  refine ⟨?_, ?_⟩ <;> rw [line_testHead]
  · exact (even_value e).around _ _ even even'
  · exact Text.endsSolid_append _ ends

theorem isHead_if (e : Phrase .simple) : IsHead (testHead "if " e " then") := isHead_testHead e (.flat (by decide)) (.flat (by decide)) (by decide)

theorem isHead_while (e : Phrase .simple) : IsHead (testHead "while " e " do") := isHead_testHead e (.flat (by decide)) (.flat (by decide)) (by decide)

theorem isHead_eachHead (values : Bool) (x : Word) (e : Phrase .simple) : IsHead (eachHead values x e) := by
  refine ⟨?_, ?_⟩ <;> rw [line_eachHead values x e []]
  · cases values <;>
      exact (((Even.append (.flat (by decide)) (.word x.isWord)).append (.flat (by decide))).append (even_value e)).append (.flat (by decide))
  · cases values <;> exact Text.endsSolid_append _ (by decide)

theorem isHead_functionHead (f : Word) (params : List Word) : IsHead (functionHead f params) := by
  have names : Even (String.intercalate ", " (params.map (·.text))) := by
    refine .names fun text mem => ?_
    obtain ⟨x, -, rfl⟩ := List.mem_map.mp mem
    exact x.isWord
  refine ⟨?_, ?_⟩ <;> rw [line_functionHead]
  · exact (((Even.append (.flat (by decide)) (.word f.isWord)).append (.flat (by decide))).append names).append (.flat (by decide))
  · exact Text.endsSolid_append _ (by decide)

end Piece

namespace Deed

/-- A statement is written on one line. -/
theorem even_entries {several : Bool} (s : Deed several) : Even (Buffer.text s.entries) := by
  have closed : ∀ {head : List Piece} {body : List (List Piece)}, Piece.IsHead head → Even (Buffer.text (Piece.buffer body)) →
      Even (Buffer.text (Piece.buffer (Piece.closed head body))) := by
    intro head body isHead h
    rw [Piece.buffer_closed]
    exact (isHead.even.entry.entries h).entries (.flat (by decide))
  induction s with simp only [entries, written, Piece.buffer_append, Piece.buffer_verbatim]
  | run p => exact p.even_entries
  | assign p v => exact (p.even_entries.entries (.flat (by decide))).entries v.even_entries
  | declare word known x v =>
    rw [Piece.buffer_singleton, Piece.line_declared]
    exact ((Even.word x.isWord).around _ _ (.flat (by decide)) (.flat (by decide))).entry.entries v.even_entries
  | giveBack v => exact Even.entries (.flat (by decide)) v.even_entries
  | branch test body ih => exact closed (Piece.isHead_if test) ih
  | choose test body other ih ih' =>
    refine closed (Piece.isHead_if test) ?_
    rw [Piece.buffer_append, Piece.buffer_append, Piece.buffer_verbatim]
    exact (ih.entries (.flat (by decide))).entries ih'
  | loopWhile test body ih => exact closed (Piece.isHead_while test) ih
  | loopOver values x e body ih => exact closed (Piece.isHead_eachHead values x e) ih
  | define f params body ih => exact closed (Piece.isHead_functionHead f params) ih
  | none => exact (.flat (by decide) : Even "")
  | more first rest h h' => exact (Even.entries (.flat (by decide)) h).entries h'

theorem entries_ends (s : Deed false) : s.entries.getLast?.any Text.endsSolid = true := by
  have closed : ∀ (head : List Piece) (body : List (List Piece)),
      (Piece.buffer (Piece.closed head body)).getLast?.any Text.endsSolid = true := by
    intro head body
    rw [Piece.buffer_closed]
    exact getLast?_any_append _ (by decide)
  cases s with
  | run p => exact p.entries_ends rfl
  | assign p v | declare word known x v | giveBack v =>
    rw [entries, written, Piece.buffer_append]
    exact getLast?_any_append _ (v.entries_ends rfl)
  | branch | choose | loopWhile | loopOver | define => exact closed _ _

/-- Statements behind a text that ends in no blank. -/
theorem ends_behind {several : Bool} (s : Deed several) :
    ∀ es : Buffer, es.getLast?.any Text.endsSolid = true → (es ++ s.entries).getLast?.any Text.endsSolid = true := by
  induction s with
  | none => simp [entries]
  | more first rest _ ih =>
    intro es _
    have behind := ih (es ++ [" "] ++ first.entries) (getLast?_any_append _ first.entries_ends)
    simpa [entries] using behind
  | _ => exact fun es _ => getLast?_any_append es (entries_ends _)

theorem ends_body {head : List Piece} (isHead : Piece.IsHead head) (b : Deed true) :
    ([Piece.line head] ++ b.entries).getLast?.any Text.endsSolid = true :=
  b.ends_behind _ (by simpa using isHead.ends)

/-! ### What a run does -/

/-- What may follow a statement: no further branch and no comma. -/
structure Follows (rest : List Token) : Prop where
  branch : (following rest).isWord "else" = false
  comma : (rest.headD .eof).isPunct [","] = false

/-- The rules take the tokens of a statement and write its entries, where an operand may begin. -/
def Runs : {several : Bool} → Deed several → Prop
  | false, s => ∀ (d count : Nat) (enclosures : List Enclosure) (before rest : List Token) (out : Buffer),
      s.depth ≤ d → Ready true out → Follows rest →
      Takes (Rules.within d).statement ⟨before, s.tokens ++ rest, out, count, enclosures⟩ ()
        ⟨s.tokens.reverse ++ before, rest, out ++ s.entries, count + s.loops, enclosures⟩
  | true, s => ∀ (d count : Nat) (enclosures : List Enclosure) (before rest : List Token) (out : Buffer),
      s.depth ≤ d → Follows rest →
      Statements (Rules.within d) ⟨before, s.tokens ++ rest, out, count, enclosures⟩
        ⟨s.tokens.reverse ++ before, rest, out ++ s.entries, count + s.loops, enclosures⟩

theorem Runs.statements {s : Deed false} (runs : s.Runs) {d count : Nat} {enclosures : List Enclosure} {before rest : List Token}
    {out : Buffer} (enough : s.depth ≤ d) (ready : Ready true out) (follows : Follows rest) :
    Statements (Rules.within d) ⟨before, s.tokens ++ rest, out, count, enclosures⟩
      ⟨s.tokens.reverse ++ before, rest, out ++ s.entries, count + s.loops, enclosures⟩ := by
  have taken := runs d count enclosures before rest out enough ready follows
  obtain ⟨t, ts, shape, -, inside, other, -⟩ := s.head_tokens
  refine .step s.tokens ?_ ?_ taken rfl rfl (by simp [shape]) .done
  · rw [shape]
    exact inside
  · rw [shape]
    exact other

section Simple

variable {d : Nat} {before rest : List Token} {out : Buffer} {loops : LoopState}

/-- A statement that starts with a phrase is an expression statement. -/
theorem takes_phrase {callable : Bool} (p : Phrase (.chain callable)) {r : Rules} {ts : List Token} {s' : Spot}
    (taken : Takes (r.expressionStatement false) ⟨before, p.tokens ++ ts, out, loops⟩ () s') :
    Takes r.anyStatement ⟨before, p.tokens ++ ts, out, loops⟩ () s' := by
  obtain ⟨t, ts', shape, begins⟩ := p.head_tokens rfl
  rw [shape] at taken ⊢
  exact begins.takes_anyStatement taken

theorem takes_valueStatement (v : Phrase .value) (enough : v.depth ≤ d) (atComma : Bool) (ready : Ready true out) :
    Takes ((Rules.within d).expressionStatement atComma) ⟨before, v.tokens ++ Token.mark ";" :: rest, out, loops⟩ ()
      ⟨.mark ";" :: (v.tokens.reverse ++ before), rest, out ++ v.entries, loops⟩ := by
  have reads : Reads 0 v.depth v.tokens (ending true ++ rest) out _ := v.runs (.mark ";") rest out ready (by decide)
  exact reads.takes_ending enough (.inl rfl) atComma before loops

theorem takes_giveBack (v : Phrase .value) (enough : v.depth ≤ d) :
    Takes (Rules.within d).anyStatement ⟨before, .word "return" :: .blank :: (v.tokens ++ Token.mark ";" :: rest), out, loops⟩ ()
      ⟨.mark ";" :: (v.tokens.reverse ++ Token.blank :: .word "return" :: before), rest,
        out ++ ["return"] ++ [" "] ++ v.entries, loops⟩ := by
  have value : Takes ((Rules.within d).expressionStatement false)
      ⟨.blank :: .word "return" :: before, v.tokens ++ Token.mark ";" :: rest, out ++ ["return"] ++ [" "], loops⟩ () _ :=
    takes_valueStatement v enough false (.blank _)
  obtain ⟨t, ts, shape, begins⟩ := v.head_tokens rfl
  refine Rules.takes_keyword rfl ((Takes.skip_one _).bind ((Takes.emit "return").bind ?_))
  rw [shape] at value ⊢
  refine (Takes.skipSpace [.blank] ?_ rfl).bind (Takes.cursor.bind ?_)
  · cases begins with
    | expr begins => cases begins <;> rfl
    | word | bracket | brace | negation => rfl
  · cases begins with
    | expr begins => cases begins <;> exact (Takes.emit " ").bind value
    | word | bracket | brace | negation => exact (Takes.emit " ").bind value

end Simple

/-! ### Blocks -/

section Block

variable {d count : Nat} {enclosures : List Enclosure} {before rest : List Token} {out : Buffer}
variable {head : List Piece} {es : Buffer} {loops : LoopState}

/-- A block, with the blank in front of its closing brace. -/
theorem Runs.takes_block {b : Deed true} (runs : b.Runs) (enough : b.depth ≤ d) :
    Takes (Rules.within d).block ⟨before, .mark "\x7b" :: (b.tokens ++ Token.blank :: .mark "\x7d" :: rest), out, count, enclosures⟩
      () ⟨.mark "\x7d" :: .blank :: (b.tokens.reverse ++ Token.mark "\x7b" :: before), rest, out ++ (b.entries ++ [" "]),
        count + b.loops, enclosures⟩ := by
  obtain ⟨d, rfl⟩ := b.exists_succ enough
  have body := runs (d + 1) count enclosures (.mark "\x7b" :: before) (.blank :: .mark "\x7d" :: rest) out enough ⟨rfl, rfl⟩
  have blank : Statements (Rules.within (d + 1))
      ⟨b.tokens.reverse ++ Token.mark "\x7b" :: before, [Token.blank] ++ Token.mark "\x7d" :: rest, out ++ b.entries,
        count + b.loops, enclosures⟩
      _ := statements_trivia (by simp [isTrivia]) _ _
  rw [← List.append_assoc]
  exact (body.trans blank).takes_block rfl rfl

/-- Nothing has to be put between a head and its block. -/
theorem separateAt_block (b : Deed true) (out : Buffer) :
    separateAt (out ++ (b.entries ++ [" "])) out.length = out ++ (b.entries ++ [" "]) := by
  rw [separateAt_append]
  cases b with
  | none => rfl
  | more first rest => rfl

theorem Runs.takes_body {b : Deed true} (runs : b.Runs) (enough : b.depth ≤ d) {lead : List Token}
    (trivia : ∀ t ∈ lead, t.isTrivia = true) :
    Takes (Rules.within d).body
      ⟨before, lead ++ Token.mark "\x7b" :: (b.tokens ++ Token.blank :: .mark "\x7d" :: rest), out, count, enclosures⟩ ()
      ⟨.mark "\x7d" :: .blank :: (b.tokens.reverse ++ Token.mark "\x7b" :: (lead.reverse ++ before)), rest,
        out ++ (b.entries ++ [" "]), count + b.loops, enclosures⟩ := by
  rw [← separateAt_block b out]
  refine (Takes.skipTrivia lead rfl (List.all_eq_true.mpr trivia)).bind (Takes.mark.bind (Takes.cursor.bind ?_))
  exact (runs.takes_block enough).bind (.rework _)

theorem Runs.takes_braced {b : Deed true} (runs : b.Runs) (enough : b.depth ≤ d) :
    Takes (Rules.within d).body ⟨before, braced b.tokens ++ rest, out, count, enclosures⟩ ()
      ⟨(braced b.tokens).reverse ++ before, rest, out ++ (b.entries ++ [" "]), count + b.loops, enclosures⟩ := by
  have body : Takes (Rules.within d).body ⟨before, [Token.blank] ++ Token.mark "\x7b" ::
      (b.tokens ++ Token.blank :: .mark "\x7d" :: rest), out, count, enclosures⟩ () _ :=
    runs.takes_body enough (by simp [isTrivia])
  simpa [braced] using body

/-- A keyword behind the body of a statement that is written on one line takes the place of the blank. -/
theorem emitClause_line (isHead : Piece.IsHead head) (even : Even (Buffer.text es))
    (ends : ([Piece.line head] ++ es).getLast?.any Text.endsSolid = true) (keyword : String) :
    emitClause (out ++ [Piece.line head] ++ (es ++ [" "])) out.length keyword =
      out ++ [Piece.line head] ++ (es ++ [" " ++ keyword]) := by
  have blank : Blank [" "] := Statement.blank_single
  have whole : Even (Buffer.text ([Piece.line head] ++ es)) := isHead.even.entry.entries even
  have line : spansLines (out ++ ([Piece.line head] ++ es)) out.length = false := by
    rw [spansLines, List.drop_left]
    exact contains_newline whole.line
  have shape : out ++ [Piece.line head] ++ (es ++ [" "]) = out ++ ([Piece.line head] ++ es ++ [" "]) := by simp
  unfold emitClause
  rw [shape, trimTo_append out ends blank]
  dsimp only
  rw [line]
  simp [Buffer.emit]

theorem takes_end (isHead : Piece.IsHead head) (even : Even (Buffer.text es))
    (ends : ([Piece.line head] ++ es).getLast?.any Text.endsSolid = true) :
    Takes (Rules.clause out.length "end") ⟨before, rest, out ++ [Piece.line head] ++ (es ++ [" "]), loops⟩ ()
      ⟨before, rest, out ++ ([Piece.line head] ++ es ++ [" end"]), loops⟩ := by
  have clause : out ++ ([Piece.line head] ++ es ++ [" end"]) = out ++ [Piece.line head] ++ (es ++ [" " ++ "end"]) := by simp
  rw [clause, ← emitClause_line isHead even ends]
  exact .rework _

/-- A loop in which no jump goes to the end of a pass. -/
theorem Runs.takes_loop {b : Deed true} (runs : b.Runs) (enough : b.depth ≤ d) (head : String) :
    Takes ((Rules.within d).loop head) ⟨before, braced b.tokens ++ rest, out, count, enclosures⟩ (loopLabel (count + 1))
      ⟨(braced b.tokens).reverse ++ before, rest, out ++ [head] ++ (b.entries ++ [" "]), count + (b.loops + 1), enclosures⟩ := by
  have body : Takes (Rules.within d).body ⟨before, braced b.tokens ++ rest, out ++ [head], count + 1,
      .loop (loopLabel (count + 1)) false :: enclosures⟩ () _ := runs.takes_braced enough
  have counted : count + (b.loops + 1) = count + 1 + b.loops := by omega
  rw [counted]
  refine Takes.nextLabel.bind (Takes.written.bind ((Takes.emit head).bind (Takes.mark.bind ((Takes.inLoop body).bind ?_))))
  exact .pure _

theorem Runs.takes_wholeLoop {b : Deed true} (runs : b.Runs) (enough : b.depth ≤ d) (isHead : Piece.IsHead head) :
    Takes (do let label ← (Rules.within d).loop (Piece.line head); Rules.closeLoop out.length label "end")
      ⟨before, braced b.tokens ++ rest, out, count, enclosures⟩ ()
      ⟨(braced b.tokens).reverse ++ before, rest, out ++ ([Piece.line head] ++ b.entries ++ [" end"]),
        count + (b.loops + 1), enclosures⟩ := by
  refine (runs.takes_loop enough (Piece.line head)).bind ?_
  exact (takes_end isHead b.even_entries (ends_body isHead b)).bind (.record _)

theorem takes_parameters (xs : List String) :
    Takes Rules.parameters ⟨before, .mark "(" :: (names xs ++ Token.mark ")" :: rest), out, loops⟩ (String.intercalate ", " xs)
      ⟨.mark ")" :: ((names xs).reverse ++ Token.mark "(" :: before), rest, out, loops⟩ := by
  rw [← Rules.paramList_names]
  refine Takes.cursor.bind ?_
  exact (Takes.arguments ((grouped_names xs).closed (by decide))).bind (.pure _)

theorem Runs.takes_functionLiteral {b : Deed true} (runs : b.Runs) (enough : b.depth ≤ d) {f : Word} {params : List Word}
    {head names : String} (written : Piece.line (Piece.functionHead f params) = head ++ "(" ++ names ++ ")") :
    Takes ((Rules.within d).functionLiteral head names)
      ⟨before, .mark "\x7b" :: (b.tokens ++ Token.blank :: .mark "\x7d" :: rest), out, count, enclosures⟩ ()
      ⟨.mark "\x7d" :: .blank :: (b.tokens.reverse ++ Token.mark "\x7b" :: before), rest,
        out ++ Piece.buffer (Piece.closed (Piece.functionHead f params) b.written), count + b.loops, enclosures⟩ := by
  have isHead := Piece.isHead_functionHead f params
  have block : Takes (Rules.within d).block
      ⟨before, .mark "\x7b" :: (b.tokens ++ Token.blank :: .mark "\x7d" :: rest),
        out ++ [Piece.line (Piece.functionHead f params)], count, .function :: enclosures⟩ () _ := runs.takes_block enough
  have apart : separateAt (out ++ [Piece.line (Piece.functionHead f params)] ++ (b.entries ++ [" "])) (out.length + 1) =
      out ++ [Piece.line (Piece.functionHead f params)] ++ (b.entries ++ [" "]) := by
    have size : out.length + 1 = (out ++ [Piece.line (Piece.functionHead f params)]).length := by simp
    rw [size, separateAt_block]
  rw [Piece.buffer_closed]
  refine Takes.mark.bind ?_
  rw [← written]
  refine (Takes.emit _).bind (Takes.cursor.bind (((Takes.enclosedBy block).bind (.pure ())).bind ((Takes.rework _).bind ?_)))
  dsimp only
  rw [apart]
  exact takes_end isHead b.even_entries (ends_body isHead b)

theorem Runs.takes_else {b : Deed true} (runs : b.Runs) (enough : b.depth ≤ d) (isHead : Piece.IsHead head)
    (even : Even (Buffer.text es)) (ends : ([Piece.line head] ++ es).getLast?.any Text.endsSolid = true)
    {limit : Nat} :
    Takes ((Rules.within d).elseBranches out.length (limit + 1))
      ⟨before, .blank :: .word "else" :: (braced b.tokens ++ rest), out ++ [Piece.line head] ++ (es ++ [" "]), count, enclosures⟩
      () ⟨(braced b.tokens).reverse ++ Token.word "else" :: .blank :: before, rest,
        out ++ [Piece.line head] ++ (es ++ [" else"] ++ b.entries ++ [" "]), count + b.loops, enclosures⟩ := by
  have clause : emitClause (out ++ [Piece.line head] ++ (es ++ [" "])) out.length "else" =
      out ++ [Piece.line head] ++ (es ++ [" else"]) := emitClause_line isHead even ends "else"
  have body : Takes (Rules.within d).body ⟨[Token.blank] ++ ([Token.blank, .word "else"].reverse ++ before),
      [] ++ Token.mark "\x7b" :: (b.tokens ++ Token.blank :: .mark "\x7d" :: rest),
      emitClause (out ++ [Piece.line head] ++ (es ++ [" "])) out.length "else", count, enclosures⟩ () _ :=
    runs.takes_body enough (by simp)
  refine Takes.cursor.bind ((Takes.skip [.blank, .word "else"]).bind ?_)
  refine (Takes.skipTrivia [.blank] rfl rfl).bind (Takes.cursor.bind ((Takes.rework _).bind ?_))
  rw [clause] at body ⊢
  simpa [braced] using body

theorem takes_condition (e : Phrase .simple) (enough : e.depth ≤ d) :
    Takes (Rules.within (d + 1)).condition ⟨before, bracketed e.tokens ++ rest, out, loops⟩ (Piece.line e.written.flatten)
      ⟨(bracketed e.tokens).reverse ++ before, rest, out, loops⟩ := by
  refine (Takes.skipTrivia [.blank] rfl rfl).bind ?_
  have value : Takes (do let inside ← arguments; (Rules.within (d + 1)).value inside)
      ⟨.blank :: before, .mark "(" :: (e.tokens ++ Token.mark ")" :: rest), out, loops⟩ (Piece.line e.written.flatten) _ :=
    (Takes.arguments e.closed_tokens).bind (e.takes_value enough (.inl rfl))
  simpa [bracketed] using value

end Block

/-! ### Each form -/

theorem runs_run {callable : Bool} (p : Phrase (.chain callable)) : (run p).Runs := by
  intro d count enclosures before rest out enough ready _
  obtain ⟨d, rfl⟩ := (run p).exists_succ enough
  have reads : Reads 0 p.depth p.tokens (ending true ++ rest) out _ := p.runs _ out ready rfl (.inr rfl)
  have statement := reads.takes_ending (Nat.le_of_succ_le_succ enough) (.inl rfl) false before ⟨count, enclosures⟩
  have taken : Takes (Rules.within (d + 1)).statement _ () _ := takes_phrase p statement
  simpa [entries, ending] using taken

theorem runs_assign {callable : Bool} (p : Phrase (.chain callable)) (v : Phrase .value) : (assign p v).Runs := by
  intro d count enclosures before rest out enough ready _
  obtain ⟨d, rfl⟩ := (assign p v).exists_succ enough
  have value : Reads 0 v.depth ([.blank, .sign "=", .blank] ++ v.tokens) (ending true ++ rest) (out ++ p.entries) _ :=
    (Reads.equals.mono v.depth_pos).append (v.runs (.mark ";") rest _ (.blank _) (by decide))
  have reads := (p.runs _ out ready rfl (.inr rfl)).seq value
  have statement := reads.takes_ending (Nat.le_of_succ_le_succ enough) (.inl rfl) false before ⟨count, enclosures⟩
  rw [List.append_assoc] at statement
  have taken : Takes (Rules.within (d + 1)).statement _ () _ := takes_phrase p statement
  simpa [entries, ending] using taken

theorem runs_declare {word : String} (known : word ∈ Rules.declarationWords) (x : Word) (v : Phrase .value) :
    (declare word known x v).Runs := by
  intro d count enclosures before rest out enough _ follows
  obtain ⟨d, rfl⟩ := (declare word known x v).exists_succ enough
  have value : Takes ((Rules.within d).expressionStatement true)
      ⟨.blank :: .sign "=" :: .blank :: .word x.text :: .blank :: .word word :: before, v.tokens ++ Token.mark ";" :: rest,
        out ++ ["local " ++ x.text ++ " = "], count, enclosures⟩ () _ :=
    takes_valueStatement v (Nat.le_of_succ_le_succ enough) true (.stop out (.inl (Lead.isBoundary_declared true x.text)))
  obtain ⟨t, ts, shape, begins⟩ := v.head_tokens rfl
  rw [shape] at value
  have taken : Takes (Rules.within (d + 1)).statement _ () _ := Rules.takes_declaration known begins.solid.1 follows.comma
    (Rules.takes_declareValue (begins.isWord_eq_false (by decide)) value)
  simpa [entries, Piece.line_declared, shape] using taken

theorem runs_giveBack (v : Phrase .value) : (giveBack v).Runs := by
  intro d count enclosures before rest out enough _ _
  obtain ⟨d, rfl⟩ := (giveBack v).exists_succ enough
  have taken : Takes (Rules.within (d + 1)).statement
      ⟨before, .word "return" :: .blank :: (v.tokens ++ Token.mark ";" :: rest), out, count, enclosures⟩ () _ :=
    takes_giveBack v (Nat.le_of_succ_le_succ enough)
  simpa [entries] using taken

theorem runs_branch (test : Phrase .simple) {body : Deed true} (inner : body.Runs) : (branch test body).Runs := by
  intro d count enclosures before rest out enough _ follows
  simp only [depth] at enough
  obtain ⟨d, rfl⟩ : ∃ d', d = d' + 2 := ⟨d - 2, by omega⟩
  have isHead := Piece.isHead_if test
  simp only [tokens, List.cons_append, List.append_assoc, entries, written, Piece.buffer_closed]
  refine Rules.takes_keyword rfl (Takes.mark.bind ((Takes.skip_one _).bind ((takes_condition test (by omega)).bind ?_)))
  rw [← Piece.line_testHead]
  refine (Takes.emit _).bind ((inner.takes_braced (by omega)).bind (Takes.cursor.bind ((takes_noElse follows.branch).bind ?_)))
  simpa using takes_end isHead body.even_entries (ends_body isHead body)

theorem runs_choose (test : Phrase .simple) {body other : Deed true} (inner : body.Runs) (inner' : other.Runs) :
    (choose test body other).Runs := by
  intro d count enclosures before rest out enough _ follows
  simp only [depth] at enough
  obtain ⟨d, rfl⟩ : ∃ d', d = d' + 2 := ⟨d - 2, by omega⟩
  have isHead := Piece.isHead_if test
  have inside : Even (Buffer.text (body.entries ++ [" else"] ++ other.entries)) :=
    (body.even_entries.entries (.flat (by decide))).entries other.even_entries
  have ends : ([Piece.line (Piece.testHead "if " test " then")] ++ (body.entries ++ [" else"] ++ other.entries)).getLast?.any
      Text.endsSolid = true := by
    rw [← List.append_assoc, ← List.append_assoc]
    exact other.ends_behind _ (getLast?_any_append _ (by decide))
  simp only [tokens, List.cons_append, List.append_assoc, entries, written, Piece.buffer_closed]
  refine Rules.takes_keyword rfl (Takes.mark.bind ((Takes.skip_one _).bind ((takes_condition test (by omega)).bind ?_)))
  rw [← Piece.line_testHead]
  refine (Takes.emit _).bind ((inner.takes_braced (by omega)).bind (Takes.cursor.bind ?_))
  refine (inner'.takes_else (by omega) isHead body.even_entries (ends_body isHead body)).bind ?_
  simpa [Nat.add_assoc] using takes_end isHead inside ends

theorem runs_loopWhile (test : Phrase .simple) {body : Deed true} (inner : body.Runs) : (loopWhile test body).Runs := by
  intro d count enclosures before rest out enough _ follows
  simp only [depth] at enough
  obtain ⟨d, rfl⟩ : ∃ d', d = d' + 2 := ⟨d - 2, by omega⟩
  simp only [tokens, List.cons_append, List.append_assoc, entries, written, Piece.buffer_closed]
  refine Rules.takes_keyword rfl (Takes.mark.bind ((Takes.skip_one _).bind ((takes_condition test (by omega)).bind ?_)))
  rw [← Piece.line_testHead]
  simpa using inner.takes_wholeLoop (by omega) (Piece.isHead_while test)

theorem forEach?_loopHead (values : Bool) (x : Word) (e : Phrase .simple) :
    Rules.forEach? (Phrase.loopHead values x e) = some ⟨x.text, values, [Token.blank] ++ e.tokens⟩ := by
  obtain ⟨t, ts, shape, begins⟩ := e.head_tokens rfl
  have content : hasContent ([Token.blank] ++ e.tokens) = true := by
    simp [hasContent, shape, begins.solid.1]
  have reads : Rules.forEach? (Phrase.loopHead values x e) = if hasContent ([Token.blank] ++ e.tokens) then
      some ⟨x.text, values, [Token.blank] ++ e.tokens⟩ else Option.none := by
    cases values <;> rfl
  rw [reads, if_pos content]

theorem closed_loopHead (values : Bool) (x : Word) (e : Phrase .simple) : Cursor.Closed "(" ")" (Phrase.loopHead values x e) := by
  refine Cursor.Closed.append (.flat ?_) e.closed_tokens
  simp [isEof, isPunct]

theorem runs_loopOver (values : Bool) (x : Word) (e : Phrase .simple) {body : Deed true} (inner : body.Runs) :
    (loopOver values x e body).Runs := by
  intro d count enclosures before rest out enough _ follows
  simp only [depth] at enough
  obtain ⟨d, rfl⟩ : ∃ d', d = d' + 2 := ⟨d - 2, by omega⟩
  simp only [tokens, List.cons_append, List.append_assoc, entries, written, Piece.buffer_closed]
  refine Rules.takes_keyword rfl (Takes.mark.bind ((Takes.skip_one _).bind ?_))
  simp only [bracketed, List.cons_append, List.append_assoc, List.nil_append]
  refine (Takes.skipTrivia [.blank] rfl rfl).bind ((Takes.arguments (closed_loopHead values x e)).bind ?_)
  rw [forEach?_loopHead]
  refine (e.takes_value (by omega) (.inr rfl)).bind ?_
  rw [← Piece.line_eachHead]
  simpa using inner.takes_wholeLoop (by omega) (Piece.isHead_eachHead values x e)

theorem runs_define (f : Word) (params : List Word) {body : Deed true} (inner : body.Runs) : (define f params body).Runs := by
  intro d count enclosures before rest out enough _ _
  simp only [depth] at enough
  obtain ⟨d, rfl⟩ : ∃ d', d = d' + 1 := ⟨d - 1, by omega⟩
  have literal : ∀ before : List Token, Takes ((Rules.within d).functionLiteral ("local function " ++ f.text)
      (String.intercalate ", " (params.map (·.text)))) ⟨before, .mark "\x7b" :: (body.tokens ++ Token.blank :: .mark "\x7d" :: rest),
        out, count, enclosures⟩ () _ := fun before => inner.takes_functionLiteral (by omega) (Piece.line_functionHead f params)
  simp only [tokens, braced, List.cons_append, List.append_assoc, List.nil_append, entries, written, loops]
  refine Rules.takes_keyword rfl (Takes.cursor.bind ?_)
  refine (Takes.skip [.word "function", .blank, .word f.text]).bind ((Takes.skipTrivia [] rfl rfl).bind ?_)
  refine (takes_parameters _).bind ((Takes.skipTrivia [.blank] rfl rfl).bind ?_)
  change Takes ((Rules.within d).functionLiteral ("local function " ++ f.text) _) _ () _
  simpa using literal _

theorem runs_none : none.Runs := by
  intro d count enclosures before rest out _ _
  simpa [entries] using Statements.done

theorem follows_trivia {t : Token} (trivia : t.isTrivia = true) (noComma : t.isPunct [","] = false) (s : Deed false)
    (rest : List Token) : Follows (t :: (s.tokens ++ rest)) := by
  obtain ⟨first, ts, shape, solid, -, -, other⟩ := s.head_tokens
  refine ⟨?_, noComma⟩
  rw [following_trivia _ trivia, shape, List.cons_append, following_cons _ solid]
  exact other

theorem Follows.behind {rest : List Token} (h : Follows rest) (b : Deed true) : Follows (b.tokens ++ rest) := by
  cases b with
  | none => exact h
  | more first others =>
    rw [tokens, List.cons_append, List.cons_append, List.append_assoc]
    exact follows_trivia rfl rfl first _

theorem runs_more {first : Deed false} {others : Deed true} (runs : first.Runs) (runs' : others.Runs) :
    (more first others).Runs := by
  intro d count enclosures before rest out enough follows
  obtain ⟨enough, enough'⟩ := Nat.max_le.mp enough
  obtain ⟨d, rfl⟩ := first.exists_succ enough
  have blank : Statements (Rules.within (d + 1))
      ⟨before, [Token.blank] ++ (first.tokens ++ (others.tokens ++ rest)), out, count, enclosures⟩ _ :=
    statements_trivia (by simp [isTrivia]) _ _
  have statement : Statements (Rules.within (d + 1))
      ⟨.blank :: before, first.tokens ++ (others.tokens ++ rest), out ++ [" "], count, enclosures⟩ _ :=
    runs.statements enough (.blank out) (follows.behind others)
  have further := runs' (d + 1) (count + first.loops) enclosures (first.tokens.reverse ++ Token.blank :: before) rest
    (out ++ [" "] ++ first.entries) enough' follows
  have all := blank.trans (statement.trans further)
  simpa [entries, Nat.add_assoc] using all

theorem runs {several : Bool} (s : Deed several) : s.Runs := by
  induction s with
  | run p => exact runs_run p
  | assign p v => exact runs_assign p v
  | declare _ known x v => exact runs_declare known x v
  | giveBack v => exact runs_giveBack v
  | branch test _ inner => exact runs_branch test inner
  | choose test _ _ inner inner' => exact runs_choose test inner inner'
  | loopWhile test _ inner => exact runs_loopWhile test inner
  | loopOver values x e _ inner => exact runs_loopOver values x e inner
  | define f params _ inner => exact runs_define f params inner
  | none => exact runs_none
  | more _ _ first rest => exact runs_more first rest

/-! ### Whole scripts -/

/-- The tokens of a script with one statement on each line. -/
def script (p : List (Deed false)) : List Token := p.flatMap fun s => s.tokens ++ [⟨.newline, "\n"⟩]

/-- The entries for a script, with their names. -/
def scriptWritten (p : List (Deed false)) : List (List Piece) := p.flatMap fun s => s.written ++ Piece.verbatim ["\n"]

theorem legible_script (p : List (Deed false)) : AlwaysLegible (script p) := by
  induction p with
  | nil => exact alwaysLegible_nil
  | cons s p ih =>
    have feed : AlwaysLegible (⟨.newline, "\n"⟩ :: script p) := ih.cons (fun _ => rfl) fun u _ => by simp [Apart]
    simpa [script] using s.legible feed

/-- Behind a statement is the next line, or the end. -/
theorem follows_script (p : List (Deed false)) : Follows (⟨.newline, "\n"⟩ :: (script p ++ [Token.eof])) := by
  cases p with
  | nil => exact ⟨rfl, rfl⟩
  | cons s p =>
    rw [script, List.flatMap_cons, List.append_assoc, List.append_assoc]
    exact follows_trivia rfl rfl s _

/-- The statements of a script are taken line by line. -/
theorem statements_script {d : Nat} (p : List (Deed false)) (enough : ∀ s ∈ p, s.depth ≤ d + 1) :
    ∀ (count : Nat) (before : List Token) (out : Buffer), Ready true out → ∃ before' labels,
      Statements (Rules.within (d + 1)) ⟨before, script p ++ [Token.eof], out, count, []⟩
        ⟨before', [.eof], out ++ Piece.buffer (scriptWritten p), labels, []⟩ := by
  induction p with
  | nil => exact fun count before out _ => ⟨before, count, by simpa [script, scriptWritten] using Statements.done⟩
  | cons s p ih =>
    intro count before out ready
    obtain ⟨first, others⟩ := List.forall_mem_cons.mp enough
    have statement : Statements (Rules.within (d + 1))
        ⟨before, s.tokens ++ ⟨.newline, "\n"⟩ :: (script p ++ [Token.eof]), out, count, []⟩ _ :=
      s.runs.statements first ready (follows_script p)
    have feed : Statements (Rules.within (d + 1)) ⟨s.tokens.reverse ++ before, [⟨.newline, "\n"⟩] ++ (script p ++ [Token.eof]),
        out ++ s.entries, count + s.loops, []⟩ _ := statements_trivia (by simp [isTrivia]) _ _
    obtain ⟨before', labels, run⟩ := ih others (count + s.loops) (⟨.newline, "\n"⟩ :: (s.tokens.reverse ++ before))
      (out ++ s.entries ++ ["\n"]) (.stop _ (.inl (by decide)))
    refine ⟨before', labels, ?_⟩
    have all := statement.trans (feed.trans run)
    simpa [script, scriptWritten] using all

theorem depth_le_script {p : List (Deed false)} {s : Deed false} (mem : s ∈ p) : s.depth ≤ (script p).length + 2 := by
  obtain ⟨front, back, rfl⟩ := List.append_of_mem mem
  have := s.depth_le
  simp only [script, List.flatMap_append, List.flatMap_cons, List.length_append]
  omega

end Deed

/-- A script is written as its names and the text around them, and there is nothing to report. Lua reads each name as it
was in the script, if it has the characters of one and is a key or not reserved. So a member is the field that a key of
its name is, unless Lua reserves the name. -/
theorem convertTokens_deeds (p : List (Deed false)) (ledger : Ledger) :
    ∃ ledger', convertTokens (tokenize (sourceText (Deed.script p))) ledger =
        (.ok (Piece.line (Deed.scriptWritten p).flatten), ledger') ∧
      ledger'.diagnostics = ledger.diagnostics ∧
      (∀ use x, .name use x ∈ (Deed.scriptWritten p).flatten →
        (use.read? (use.lua x.text) = some x.text ↔ Lua.isWord x.text = true ∧ (use = .key ∨ x.text ∉ luaWords))) ∧
      ∀ k : Word, Lua.isWord k.text = true →
        (Use.member.read? (Use.member.lua k.text) = Use.key.read? (Use.key.lua k.text) ↔ k.text ∉ luaWords) := by
  have legible := Deed.legible_script p
  have enough : ∀ s ∈ p, s.depth ≤ 2 * textSize (Deed.script p ++ [.eof]) + 1 + 1 := by
    intro s mem
    have depth := Deed.depth_le_script mem
    have size := length_le_textSize (legible false)
    rw [textSize_append]
    omega
  obtain ⟨before, labels, run⟩ := Deed.statements_script p enough ledger.labels [] [] (.nil true)
  obtain ⟨journal, converted⟩ := run.convertTokens_eq rfl
  rw [tokenize_legible (legible false)]
  rw [List.nil_append, Piece.text_buffer] at converted
  refine ⟨_, converted, rfl, fun use x _ => use.read?_lua x, fun k isWord => ?_⟩
  have asKey : Use.key.read? (Use.key.lua k.text) = some k.text := (Use.key.read?_lua k).mpr ⟨isWord, .inl rfl⟩
  rw [asKey, Use.read?_lua]
  simp [isWord]

/-- A word that Lua reserves is kept apart from it as a key, and not as a member. -/
theorem convertTokens_reserved_member :
    (convertTokens (tokenize "x = o.end;") {}).1 = .ok "x = o.end" ∧ Use.member.read? ".end" = none ∧
      (convertTokens (tokenize "x = \x7bend: 1\x7d;") {}).1 = .ok "x = \x7b[\"end\"] = 1\x7d" ∧
      Use.key.read? "[\"end\"]" = some "end" := by
  decide +kernel

-- A length is not a `Property`: what it is asked of starts behind the last reserved word.
example : (convertTokens (tokenize "x = end.a.length;") {}).1 = .ok "x = end#.a" := by decide +kernel

end NoteScript

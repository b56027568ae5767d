import NoteScript.Proofs.Smooth

/-!
# Phrases with any names

Some words that Lua reserves are names like any others in a script. A phrase is an expression in which they may stand
as variables, as members and as keys of tables. The trees in which they do not stand are phrases too. Beside the tokens
of a phrase are the entries written for it, in which the names are told apart from the text around them.

* `Use.lua`: how a name is written, by what it is used for. Only keys are kept apart from the words of Lua.
* `Phrase.tokens`, `Phrase.written`: the spelling of a phrase and the entries for it.
* `Phrase.legible`: a phrase is cut back from its text.
* `Phrase.runs`: the rules write these entries.
-/

namespace NoteScript

open Edit Buffer Token

/-! ### Names and what they are used for -/

/-- A name that no rule knows. Lua may reserve it. -/
structure Word extends Name where
  unknown : text ∉ knownNames

/-- The name of a member, as in `Field`. -/
structure Property (callable : Bool) extends Word where
  notSize : text ∉ ["length", "size"]
  noMethod : (Method.ofName? text).isNone = callable

/-- A name that a colon makes a key. -/
structure Key extends Word where
  plain : Text.isIdentifier text = true

/-- What a name is used for. -/
inductive Use where
  | var
  | member
  | key

/-- How a name is written in Lua. -/
def Use.lua : Use → String → String
  | var, x => x
  | member, x => "." ++ x
  | key, x => if x ∈ luaWords then "[\"" ++ x ++ "\"]" else x

/-- A part of what is written: a name, or text around names. -/
inductive Piece where
  | name (use : Use) (x : Word)
  | text (s : String)

namespace Piece

def lua : Piece → String
  | name use x => use.lua x.text
  | text s => s

/-- The text of some pieces. -/
def line (ps : List Piece) : String := String.join (ps.map lua)

/-- Entries without any names. -/
def verbatim (es : Buffer) : List (List Piece) := es.map fun e => [text e]

/-- Entries as they are written. -/
def buffer (es : List (List Piece)) : Buffer := es.map line

@[simp]
theorem line_name (use : Use) (x : Word) : line [name use x] = use.lua x.text := by
  simp [line, lua]

@[simp]
theorem line_text (s : String) : line [text s] = s := by
  simp [line, lua]

@[simp]
theorem buffer_verbatim (es : Buffer) : buffer (verbatim es) = es := by
  simp [buffer, verbatim, Function.comp_def]

@[simp]
theorem buffer_append (es es' : List (List Piece)) : buffer (es ++ es') = buffer es ++ buffer es' := List.map_append

@[simp]
theorem buffer_cons (e : List Piece) (es : List (List Piece)) : buffer (e :: es) = line e :: buffer es := rfl

theorem buffer_singleton (e : List Piece) : buffer [e] = [line e] := rfl

@[simp]
theorem buffer_nil : buffer [] = [] := rfl

theorem line_append (ps ps' : List Piece) : line (ps ++ ps') = line ps ++ line ps' := by
  simp [line, String.join_append]

theorem text_buffer (es : List (List Piece)) : Buffer.text (buffer es) = line es.flatten := by
  induction es with
  | nil => rfl
  | cons e es ih =>
    rw [buffer_cons, ← List.singleton_append, text_append, text_singleton, ih, List.flatten_cons, line_append]

end Piece

/-! ### Trees -/

theorem Word.ends (x : Word) (chain : Bool) : Expr.Ends chain (.word x.text) := by
  have words : ∀ word ∈ Cursor.operatorWords, word ∈ reservedWords ∨ word ∈ knownNames := by decide
  refine .name x.text x.isName fun mem => ?_
  rcases words _ mem with reserved | known
  · exact x.free reserved
  · exact x.unknown known

/-- Where a phrase may stand. Items stand in round brackets, or in braces with a key in front of each. -/
inductive PhraseKind where
  | chain (callable : Bool)
  | simple
  | value
  | item (keyed : Bool)
  | row (keyed : Bool)
  | items (keyed : Bool)

/-- Only the items of a pair of brackets may be missing. -/
def PhraseKind.isPresent : PhraseKind → Bool
  | items _ => false
  | _ => true

/-- The phrases that a number does not end. -/
def PhraseKind.isChain : PhraseKind → Bool
  | chain _ => true
  | _ => false

/-- The phrases that operators may stand between. -/
def PhraseKind.isOperand : PhraseKind → Bool
  | chain _ | simple => true
  | _ => false

/-- The phrases that have a value of their own. -/
def PhraseKind.isValue : PhraseKind → Bool
  | chain _ | simple | value => true
  | _ => false

/-- Phrases and their parts. -/
inductive Phrase : PhraseKind → Type where
  | base {callable : Bool} (p : Expr (.chain callable)) : Phrase (.chain callable)
  | name (x : Word) : Phrase (.chain true)
  /-- `(v)` -/
  | parens (v : Phrase .value) : Phrase (.chain true)
  /-- `p.f` -/
  | member {callable callable' : Bool} (p : Phrase (.chain callable)) (f : Property callable') : Phrase (.chain callable')
  /-- `p[v]` -/
  | index {callable : Bool} (p : Phrase (.chain callable)) (v : Phrase .value) : Phrase (.chain true)
  /-- `p(v, w)` -/
  | call (p : Phrase (.chain true)) (args : Phrase (.items false)) : Phrase (.chain true)
  | core (e : Expr .simple) : Phrase .simple
  | operand {callable : Bool} (p : Phrase (.chain callable)) : Phrase .simple
  /-- `!e` -/
  | negation (e : Phrase .simple) : Phrase .simple
  | binary (sign : Sign) (left right : Phrase .simple) : Phrase .simple
  | plain (e : Phrase .simple) : Phrase .value
  /-- `\x7bk: v, l: w\x7d` -/
  | table (fields : Phrase (.items true)) : Phrase .value
  | argument (v : Phrase .value) : Phrase (.item false)
  /-- `k: v` -/
  | field (k : Key) (v : Phrase .value) : Phrase (.item true)
  | last {keyed : Bool} (i : Phrase (.item keyed)) : Phrase (.row keyed)
  | more {keyed : Bool} (i : Phrase (.item keyed)) (rest : Phrase (.row keyed)) : Phrase (.row keyed)
  | noItems {keyed : Bool} : Phrase (.items keyed)
  | someItems {keyed : Bool} (row : Phrase (.row keyed)) : Phrase (.items keyed)

namespace Phrase

variable {kind : PhraseKind}

/-- The tokens of a phrase. -/
@[simp]
def tokens {kind : PhraseKind} : Phrase kind → List Token
  | base p => p.tokens
  | name x => [.word x.text]
  | parens v => .mark "(" :: v.tokens ++ [.mark ")"]
  | member p f => p.tokens ++ [.sign ".", .word f.text]
  | index p v => p.tokens ++ (.mark "[" :: v.tokens ++ [.mark "]"])
  | call p args => p.tokens ++ (.mark "(" :: args.tokens ++ [.mark ")"])
  | core e => e.tokens
  | operand p => p.tokens
  | negation e => .sign "!" :: e.tokens
  | binary sign left right => left.tokens ++ .blank :: .sign sign.text :: .blank :: right.tokens
  | plain e => e.tokens
  | table fields => .mark "\x7b" :: fields.tokens ++ [.mark "\x7d"]
  | argument v => v.tokens
  | field k v => .word k.text :: .mark ":" :: .blank :: v.tokens
  | last i => i.tokens
  | more i rest => i.tokens ++ .mark "," :: .blank :: rest.tokens
  | noItems => []
  | someItems row => row.tokens

open Piece in
/-- The entries for a phrase, with their names. -/
@[simp]
def written {kind : PhraseKind} : Phrase kind → List (List Piece)
  | base p => verbatim p.written
  | name x => [[.name .var x]]
  | parens v => verbatim ["("] ++ v.written ++ verbatim [")"]
  | member p f => p.written ++ [[.name .member f.toWord]]
  | index p v => p.written ++ (verbatim ["["] ++ v.written ++ verbatim ["]"])
  | call p args => p.written ++ (verbatim ["("] ++ args.written ++ verbatim [")"])
  | core e => verbatim e.written
  | operand p => p.written
  | negation e => verbatim ["not "] ++ e.written
  | binary sign left right => left.written ++ verbatim [" ", sign.lua, " "] ++ right.written
  | plain e => e.written
  | table fields => verbatim ["\x7b"] ++ fields.written ++ verbatim ["\x7d"]
  | argument v => v.written
  | field k v => [[.name .key k.toWord]] ++ verbatim [" =", " "] ++ v.written
  | last i => i.written
  | more i rest => i.written ++ verbatim [",", " "] ++ rest.written
  | noItems => []
  | someItems row => row.written

/-- The entries for a phrase. -/
abbrev entries {kind : PhraseKind} (p : Phrase kind) : Buffer := Piece.buffer p.written

/-- The depth of the rules that a phrase needs. -/
@[simp]
def depth {kind : PhraseKind} : Phrase kind → Nat
  | base p => p.depth
  | core e => e.depth
  | name _ | noItems => 1
  | parens v | argument v | field _ v => v.depth
  | member p _ | operand p => p.depth
  | negation e | plain e => e.depth
  | table fields => fields.depth
  | last i => i.depth
  | someItems row => row.depth
  | index p v => max p.depth v.depth
  | call p args => max p.depth args.depth
  | binary _ left right => max left.depth right.depth
  | more i rest => max i.depth rest.depth

theorem depth_pos (p : Phrase kind) : 1 ≤ p.depth := by
  induction p with
  | base p => exact p.depth_pos
  | core e => exact e.depth_pos
  | _ =>
    simp only [depth]
    omega

theorem depth_le (p : Phrase kind) : p.depth ≤ p.tokens.length + 1 := by
  induction p with
  | base p => exact p.depth_le
  | core e => exact e.depth_le
  | _ =>
    simp only [depth, tokens, List.length_append, List.length_cons]
    omega

/-! ### Spelling -/

theorem grouped_tokens (p : Phrase kind) : Grouped true p.tokens := by
  induction p with
  | base p => exact p.grouped_tokens.inside
  | core e => exact e.grouped_tokens.inside
  | operand p ih | plain e ih | argument v ih | last i ih | someItems row ih => exact ih
  | name x => exact .plain rfl .nil
  | noItems => exact .nil
  | parens v ih | table fields ih => exact .group (by decide) ih .nil
  | member p f ih => exact ih.append (.plain rfl (.plain rfl .nil))
  | index p v h h' | call p v h h' => exact h.append (.group (by decide) h' .nil)
  | negation e ih => exact .plain rfl ih
  | binary sign left right h h' => exact h.append (.plain rfl (.plain rfl (.plain rfl h')))
  | field k v ih => exact .plain rfl (.plain rfl (.plain rfl ih))
  | more i rest h h' => exact h.append (.plain rfl (.plain rfl h'))

theorem closed_tokens (p : Phrase kind) : Cursor.Closed "(" ")" p.tokens := p.grouped_tokens.closed (by decide)

/-- The tokens that a phrase starts with. -/
inductive Begins : Token → Prop where
  | word (x : Word) : Begins (.word x.text)
  | expr {t : Token} : Expr.Begins t → Begins t
  | bracket : Begins (.mark "(")
  | brace : Begins (.mark "\x7b")
  | negation : Begins (.sign "!")

theorem Begins.solid {t : Token} (h : Begins t) : t.isTrivia = false ∧ t.isEof = false ∧ t.isStringLike = false ∧
    t.isPunct [";"] = false ∧ t.isPunct ["\x7d"] = false := by
  cases h with
  | expr begins => cases begins <;> exact ⟨rfl, rfl, rfl, rfl, rfl⟩
  | word | bracket | brace | negation => exact ⟨rfl, rfl, rfl, rfl, rfl⟩

theorem Begins.isWord_eq_false {t : Token} (h : Begins t) {word : String} (reserved : word ∈ reservedWords) :
    t.isWord word = false := by
  cases h with
  | word x =>
    have free : x.text ≠ word := fun same => x.free (same ▸ reserved)
    simpa [isWord, isIdentifier] using free
  | expr begins =>
    cases begins with
    | name x =>
      have free : x.text ≠ word := fun same => x.free (by simp [same, reserved])
      simpa [isWord, isIdentifier] using free
    | number | bracket | negation => rfl
  | bracket | brace | negation => rfl

theorem head_tokens (p : Phrase kind) (present : kind.isPresent = true) : ∃ t ts, p.tokens = t :: ts ∧ Begins t := by
  have expr : ∀ {cat : Category} (e : Expr cat), cat.isPresent = true → ∃ t ts, e.tokens = t :: ts ∧ Begins t := by
    intro cat e present
    obtain ⟨t, ts, shape, begins⟩ := e.head_tokens present
    exact ⟨t, ts, shape, .expr begins⟩
  induction p with
  | noItems | someItems => cases present
  | base p => exact expr p rfl
  | core e => exact expr e rfl
  | operand p ih | plain e ih | argument v ih | last i ih => exact ih rfl
  | name x => exact ⟨_, _, rfl, .word x⟩
  | field k v => exact ⟨_, _, rfl, .word k.toWord⟩
  | parens v => exact ⟨_, _, rfl, .bracket⟩
  | table fields => exact ⟨_, _, rfl, .brace⟩
  | negation e => exact ⟨_, _, rfl, .negation⟩
  | member p f ih | index p v ih | call p v ih | more p v ih | binary sign left right ih => exact Expr.front (ih rfl) _

theorem last_tokens (p : Phrase kind) (operand : kind.isOperand = true) :
    ∃ ts t, p.tokens = ts ++ [t] ∧ Expr.Ends kind.isChain t := by
  induction p with
  | base p => exact p.last_tokens rfl
  | core e => exact e.last_tokens rfl
  | name x => exact ⟨[], _, rfl, x.ends _⟩
  | member p f => exact Expr.back ⟨[_], _, rfl, f.toWord.ends _⟩ _
  | parens v => exact ⟨_, _, rfl, .round⟩
  | index p v => exact Expr.back ⟨_, _, rfl, .square⟩ _
  | call p args => exact Expr.back ⟨_, _, rfl, .round⟩ _
  | operand p ih =>
    obtain ⟨ts, t, shape, ends⟩ := ih rfl
    exact ⟨ts, t, shape, ends.simple⟩
  | negation e ih => exact Expr.back (ih rfl) [_]
  | binary sign left right _ ih => exact Expr.back (Expr.back (ih rfl) [_, _, _]) _
  | _ => cases operand

/-- Behind a chain stands an operand. -/
theorem operandIn_tokens {callable : Bool} (p : Phrase (.chain callable)) (before : List Token) :
    Cursor.operandIn false (p.tokens.reverse ++ before) = true := by
  obtain ⟨ts, t, shape, ends⟩ := p.last_tokens rfl
  have solid : t.isTrivia = false := by cases ends <;> rfl
  simp [shape, Cursor.operandIn, solid, ends.endsTarget]

/-! ### Legibility -/

theorem legible_append (p : Phrase kind) (operand : kind.isOperand = true) (h : AlwaysLegible p.tokens)
    {rest : List Token} (h' : Legible true rest)
    (apart : ∀ t, Expr.Ends kind.isChain t → ∀ u ∈ rest.head?, Apart t u = true) : AlwaysLegible (p.tokens ++ rest) := by
  obtain ⟨ts, t, shape, ends⟩ := p.last_tokens operand
  rw [shape] at h ⊢
  exact ends.legible_append h h' (apart t ends)

theorem legible_blank (p : Phrase kind) (present : kind.isPresent = true) {rest : List Token}
    (h : AlwaysLegible (p.tokens ++ rest)) : AlwaysLegible (.blank :: (p.tokens ++ rest)) := by
  obtain ⟨t, ts, shape, begins⟩ := p.head_tokens present
  refine h.blank ?_
  rw [shape]
  exact congrArg (!·) begins.solid.1

/-- The tokens of a phrase are cut back from its text. -/
theorem legible (p : Phrase kind) : AlwaysLegible p.tokens := by
  have spaced : ∀ {kind : PhraseKind} (p : Phrase kind), kind.isPresent = true → AlwaysLegible p.tokens →
      AlwaysLegible (.blank :: p.tokens) := by
    intro kind p present h
    have whole : AlwaysLegible (p.tokens ++ []) := by simpa using h
    simpa using p.legible_blank present whole
  have bracket : ∀ {ts} (opening closing : String), Readable false (.mark opening) = true →
      Readable false (.mark closing) = true → AlwaysLegible ts →
      AlwaysLegible (.mark opening :: ts ++ [Token.mark closing]) :=
    fun opening closing opens closes inside => (inside.before_mark alwaysLegible_nil closing closes).mark opening opens
  have mark : ∀ {chain : Bool} {text : String} {rest : List Token}, ∀ t, Expr.Ends chain t →
      ∀ u ∈ (.mark text :: rest : List Token).head?, Apart t u = true := by
    rintro chain text rest t _ u ⟨⟩
    exact apart_mark t text
  induction p with
  | base p => exact p.legible
  | core e => exact e.legible
  | operand p ih | plain e ih | argument v ih | last i ih | someItems row ih => exact ih
  | name x => exact alwaysLegible_nil.word x.text x.isName rfl
  | noItems => exact alwaysLegible_nil
  | parens v ih => exact bracket "(" ")" rfl rfl ih
  | table fields ih => exact bracket "\x7b" "\x7d" rfl rfl ih
  | member p f ih =>
    refine p.legible_append rfl ih ((alwaysLegible_nil.member f.isName rfl) true) ?_
    rintro t ends u ⟨⟩
    exact ends.apart_point
  | index p v h h' => exact p.legible_append rfl h (bracket "[" "]" rfl rfl h' true) mark
  | call p args h h' => exact p.legible_append rfl h (bracket "(" ")" rfl rfl h' true) mark
  | negation e ih =>
    obtain ⟨t, ts, shape, begins⟩ := e.head_tokens rfl
    refine ih.cons (by decide) fun u hu => ?_
    rw [shape] at hu
    cases hu
    cases begins with
    | expr begins => cases begins <;> rfl
    | word | bracket | brace | negation => rfl
  | binary sign left right h h' =>
    have readable : Readable true (.sign sign.text) = true := by cases sign <;> decide
    refine left.legible_append rfl h ⟨rfl, ?_, readable, ?_, spaced right rfl h' _⟩ ?_
    · rintro u ⟨⟩
      rfl
    · rintro u ⟨⟩
      rfl
    · rintro t ends u ⟨⟩
      exact ends.apart_blank
  | field k v ih => exact ((spaced v rfl ih).mark ":" rfl).word k.text k.isName rfl
  | more i rest h h' => exact h.before_mark (spaced rest rfl h') "," rfl

end Phrase

/-! ### Lines and braces -/

namespace Buffer

theorem braceOpen_close (depth : Nat) (rest : List Char) : braceOpen depth ('\x7d' :: rest) = braceOpen (depth + 1) rest := by
  rw [braceOpen.eq_def]
  rfl

theorem braceOpen_open (depth : Nat) (rest : List Char) : braceOpen (depth + 1) ('\x7b' :: rest) = braceOpen depth rest := by
  rw [braceOpen.eq_def]
  rfl

theorem braceOpen_other {c : Char} (opens : c ≠ '\x7b') (closes : c ≠ '\x7d') (depth : Nat) (rest : List Char) :
    braceOpen depth (c :: rest) = braceOpen depth rest := by
  rw [braceOpen.eq_def]
  simp only [beq_iff_eq, opens, closes, if_false]

/-- A text on one line that closes its braces. -/
structure Even (s : String) : Prop where
  line : '\n' ∉ s.toList
  braces : ∀ depth rest, braceOpen depth (s.toList.reverse ++ rest) = braceOpen depth rest

namespace Even

variable {s s' : String}

theorem append (h : Even s) (h' : Even s') : Even (s ++ s') where
  line := by simpa using ⟨h.line, h'.line⟩
  braces depth rest := by
    rw [String.toList_append, List.reverse_append, List.append_assoc, h'.braces, h.braces]

theorem flat (h : ∀ c ∈ s.toList, c ∉ ['\n', '\x7b', '\x7d']) : Even s := by
  have outside : ∀ cs : List Char, (∀ c ∈ cs, c ≠ '\x7b' ∧ c ≠ '\x7d') →
      ∀ depth rest, braceOpen depth (cs ++ rest) = braceOpen depth rest := by
    intro cs
    induction cs with
    | nil => exact fun _ _ _ => rfl
    | cons c cs ih =>
      intro all depth rest
      obtain ⟨⟨opens, closes⟩, later⟩ := List.forall_mem_cons.mp all
      rw [List.cons_append, braceOpen_other opens closes, ih later]
  refine ⟨fun feed => h _ feed (by decide), outside _ fun c hc => ?_⟩
  have other := h c (List.mem_reverse.mp hc)
  simp only [List.mem_cons, List.not_mem_nil, or_false, not_or] at other
  exact other.2

theorem word (h : IsWord s) : Even s := by
  have outside : ∀ c ∈ ['\n', '\x7b', '\x7d'], Token.continuesName c = false := by decide
  exact .flat fun c hc mem => h.ne_of_mem hc (outside c mem) rfl

theorem around (h : Even s) (front back : String) (plain : Even front) (plain' : Even back) : Even (front ++ s ++ back) :=
  (plain.append h).append plain'

theorem names {xs : List String} (all : ∀ x ∈ xs, IsWord x) : Even (String.intercalate ", " xs) := by
  induction xs with
  | nil => exact .flat (by simp)
  | cons x xs ih =>
    obtain ⟨first, later⟩ := List.forall_mem_cons.mp all
    cases xs with
    | nil => simpa using word first
    | cons y ys =>
      rw [String.intercalate_cons_cons]
      exact ((word first).append (.flat (by decide))).append (ih later)

theorem entry (h : Even s) : Even (Buffer.text [s]) := by rwa [text_singleton]

theorem entries {es es' : Buffer} (h : Even (Buffer.text es)) (h' : Even (Buffer.text es')) : Even (Buffer.text (es ++ es')) := by
  rw [text_append]
  exact h.append h'

theorem braced (h : Even s) : Even ("\x7b" ++ s ++ "\x7d") where
  line := by simpa using h.line
  braces depth rest := by
    have chars : ("\x7b" ++ s ++ "\x7d").toList.reverse ++ rest = '\x7d' :: (s.toList.reverse ++ '\x7b' :: rest) := by simp
    rw [chars, braceOpen_close, h.braces, braceOpen_open]

end Even

end Buffer

/-- A tree is written on one line and without braces. -/
theorem Expr.even_lua {cat : Category} (e : Expr cat) : Even e.lua := by
  refine .flat fun c hc mark => ?_
  rcases List.mem_cons.mp mark with rfl | brace
  · exact e.paired_lua.line hc
  · exact e.smooth_lua.outer c hc (List.mem_append_right _ brace)

theorem Word.isWord (x : Word) : IsWord x.text := Token.continuesName_of_isNameText x.isName

namespace Phrase

variable {kind : PhraseKind}

/-- A phrase is written on one line, and its braces are closed. -/
theorem even_entries (p : Phrase kind) : Even (Buffer.text p.entries) := by
  induction p with simp only [entries, written, Piece.buffer_append, Piece.buffer_verbatim, Piece.buffer_singleton, Piece.line_name]
  | base p =>
    rw [p.text_written]
    exact p.even_lua
  | core e =>
    rw [e.text_written]
    exact e.even_lua
  | operand p ih | plain e ih | argument v ih | last i ih | someItems row ih => exact ih
  | noItems => exact (.flat (by decide) : Even "")
  | name x => exact (Even.word x.isWord).entry
  | parens v ih => exact (Even.entries (.flat (by decide)) ih).entries (.flat (by decide))
  | member p f ih => exact ih.entries (Even.append (.flat (by decide)) (.word f.isWord)).entry
  | index p v h h' | call p v h h' => exact h.entries ((Even.entries (.flat (by decide)) h').entries (.flat (by decide)))
  | negation e ih => exact Even.entries (.flat (by decide)) ih
  | binary sign left right h h' =>
    have between : Even (Buffer.text [" ", sign.lua, " "]) := by cases sign <;> exact .flat (by decide)
    exact (h.entries between).entries h'
  | table fields ih =>
    simp only [text_append, text_singleton]
    exact ih.braced
  | field k v ih =>
    have key : Even (Use.key.lua k.text) := by
      rw [Use.lua]
      split
      · exact (Even.word k.isWord).around _ _ (.flat (by decide)) (.flat (by decide))
      · exact .word k.isWord
    exact (key.entry.entries (.flat (by decide))).entries ih
  | more i rest h h' => exact (h.entries (.flat (by decide))).entries h'

/-- The last entry of a value ends in text, and not in a quote. -/
theorem exists_last (p : Phrase kind) (value : kind.isValue = true) :
    ∃ front last, p.entries = front ++ [last] ∧ Text.endsSolid last = true ∧ '"' ∉ last.toList := by
  have back : ∀ {es : Buffer}, (∃ front last, es = front ++ [last] ∧ Text.endsSolid last = true ∧ '"' ∉ last.toList) →
      ∀ es', ∃ front last, es' ++ es = front ++ [last] ∧ Text.endsSolid last = true ∧ '"' ∉ last.toList := by
    rintro es ⟨front, last, rfl, ends⟩ es'
    exact ⟨es' ++ front, last, (List.append_assoc ..).symm, ends⟩
  have expr : ∀ {es : Buffer}, IsOperand false es →
      ∃ front last, es = front ++ [last] ∧ Text.endsSolid last = true ∧ '"' ∉ last.toList := by
    intro es h
    have ends := h.ends
    rcases List.eq_nil_or_concat es with rfl | ⟨front, last, rfl⟩
    · cases ends
    · rw [List.concat_eq_append] at ends h ⊢
      exact ⟨front, last, rfl, by simpa using ends, h.paired.quote_notMem last (by simp)⟩
  have word : ∀ {text : String}, IsWord text → Text.endsSolid text = true ∧ '"' ∉ text.toList :=
    fun h => ⟨h.ends, fun quote => h.ne_of_mem quote (by decide) rfl⟩
  induction p with simp only [entries, written, Piece.buffer_append, Piece.buffer_verbatim, Piece.buffer_singleton, Piece.line_name]
  | base p => exact expr (p.isOperand_written rfl)
  | core e => exact expr (e.isOperand_written rfl)
  | operand p ih | plain e ih => exact ih rfl
  | name x => exact ⟨[], _, rfl, word x.isWord⟩
  | member p f =>
    obtain ⟨ends, plain⟩ := word f.isWord
    exact ⟨_, _, rfl, Text.endsSolid_append "." ends, by simpa [Use.lua] using plain⟩
  | parens v | table fields => exact ⟨_, _, rfl, by decide, by decide⟩
  | index p v | call p v => exact back ⟨_, _, rfl, by decide, by decide⟩ _
  | negation e ih | binary sign left right _ ih => exact back (ih rfl) _
  | _ => cases value

theorem entries_ends (p : Phrase kind) (value : kind.isValue = true) : p.entries.getLast?.any Text.endsSolid = true := by
  obtain ⟨front, last, shape, ends, -⟩ := p.exists_last value
  simpa [shape] using ends

theorem entries_starts (p : Phrase kind) (operand : kind.isOperand = true) : p.entries.head?.any Text.startsSolid = true := by
  have front : ∀ {es : Buffer}, es.head?.any Text.startsSolid = true → ∀ es', (es ++ es').head?.any Text.startsSolid = true := by
    intro es starts es'
    cases es with
    | nil => cases starts
    | cons => exact starts
  have expr : ∀ {es : Buffer}, es.head?.any startsOperand = true → es.head?.any Text.startsSolid = true := by
    intro es starts
    cases es with
    | nil => cases starts
    | cons => exact startsSolid_of_startsOperand starts
  induction p with simp only [entries, written, Piece.buffer_append, Piece.buffer_verbatim, Piece.buffer_singleton, Piece.line_name]
  | base p => exact expr (p.written_starts rfl)
  | core e => exact expr (e.written_starts rfl)
  | operand p ih => exact ih rfl
  | name x => exact Text.startsSolid_of_solid x.isWord.1 x.isWord.solid
  | parens v | negation e => rfl
  | member p f ih | index p v ih | call p v ih => exact front (ih rfl) _
  | binary sign left right ih => exact front (front (ih rfl) _) _
  | _ => cases operand

end Phrase

/-! ### What a run does -/

/-- A token behind which no value goes on. -/
abbrev Closing (t : Token) : Prop := t ∈ [.eof, .mark ")", .mark "]", .mark ",", .mark ";", .mark "\x7d"]

/-- The tokens behind an item. -/
abbrev ItemEnd (t : Token) : Prop := t ∈ [.mark ",", .mark ")", .mark "\x7d"]

theorem ItemEnd.closing {t : Token} (ends : ItemEnd t) : Closing t := by
  have all : ∀ t, ItemEnd t → Closing t := by decide
  exact all t ends

/-- Where an operand may begin, the rules take the tokens of a value and write its entries, if it ends there. -/
def ValueRuns (depth : Nat) (ts : List Token) (es : Buffer) : Prop :=
  ∀ (t : Token) (rest : List Token) (out : Buffer), Ready true out → Closing t → Reads 0 depth ts (t :: rest) out (out ++ es)

/-- The same inside brackets. For keys a brace has to be open. -/
def ItemRuns (keyed : Bool) (depth : Nat) (ts : List Token) (es : Buffer) : Prop :=
  ∀ (t : Token) (rest : List Token) (out : Buffer), (keyed = false → Ready true out) →
    (keyed = true → braceOpen 0 (Buffer.text out).toList.reverse = true) → ItemEnd t →
    Reads 1 depth ts (t :: rest) out (out ++ es)

/-- What the rules do on the tokens of a phrase, by its kind. -/
def Phrase.Runs : {kind : PhraseKind} → Phrase kind → Prop
  | .chain callable, p => OperandRuns callable p.depth p.tokens p.entries
  | .simple, p => OperandRuns false p.depth p.tokens p.entries
  | .value, p => ValueRuns p.depth p.tokens p.entries
  | .item keyed, p | .row keyed, p | .items keyed, p => ItemRuns keyed p.depth p.tokens p.entries

section

variable {before rest : List Token} {out : Buffer} {loops : LoopState}

theorem Word.takes_unit (x : Word) {r : Rules} (noArrow : (following rest).isOperator ["=>"] = false) :
    Takes r.unit ⟨before, .word x.text :: rest, out, loops⟩ () ⟨.word x.text :: before, rest, out ++ [x.text], loops⟩ :=
  Rules.takes_unknownName x.free x.unknown noArrow

/-- The newest entry becomes a key, if a brace is open in front of it. -/
theorem Key.makeKey?_eq (k : Key) (inside : braceOpen 0 (Buffer.text out).toList.reverse = true) :
    makeKey? (out ++ [k.text]) = some (out ++ [Use.key.lua k.text]) := by
  have solid : Text.isBlank k.text = false := not_isBlank_of_endsSolid k.isWord.ends
  have bare : Text.strip k.text = k.text := Text.strip_of_solid (Text.startsSolid_of_solid k.isWord.1 k.isWord.solid)
    k.isWord.ends
  have entry : keyEntry k.text = Use.key.lua k.text := by
    have words : luaKeywords = luaWords := rfl
    rw [keyEntry, bare, if_pos k.plain, words, Use.lua]
    simp only [List.contains_iff_mem]
  have back : (out ++ [k.text]).reverse = k.text :: out.reverse := by simp
  rw [makeKey?, back, List.dropWhile_cons_of_neg (by simp [solid]), List.takeWhile_cons_of_neg (by simp [solid])]
  dsimp only
  rw [bare, List.reverse_reverse, inside, isKey, k.plain, entry]
  rfl

/-- A colon behind a key assigns. -/
theorem Key.takes_colon (k : Key) {r : Rules} (inside : braceOpen 0 (Buffer.text out).toList.reverse = true) :
    Takes r.unit ⟨before, .mark ":" :: rest, out ++ [k.text], loops⟩ ()
      ⟨.mark ":" :: before, rest, out ++ [Use.key.lua k.text] ++ [" ="], loops⟩ := by
  refine Rules.takes_mark_of_unit (Rules.arrow?_mark (by decide)) (Takes.cursor.bind ?_)
  refine (Takes.skip_one _).bind (Takes.written.bind ?_)
  dsimp only
  rw [k.makeKey?_eq inside]
  exact (Takes.rework _).bind (.emit " =")

end

namespace Phrase

/-! ### Chains -/

theorem runs_base {callable : Bool} (p : Expr (.chain callable)) : (base p).Runs := by
  change OperandRuns callable p.depth p.tokens (Piece.buffer (Piece.verbatim p.written))
  rw [Piece.buffer_verbatim]
  exact p.runs

theorem runs_name (x : Word) : (name x).Runs := by
  intro rest out _ noArrow _
  have reads : Reads 0 1 [.word x.text] rest out _ := .unit (fun _ _ _ _ => x.takes_unit noArrow) rfl rfl
  simpa [entries, Use.lua] using reads

theorem runs_parens {v : Phrase .value} (runs : v.Runs) : (parens v).Runs := by
  intro rest out _ noArrow _
  have inside := (runs (.mark ")") rest _ (ready_open true out "(" (by decide)) (by decide)).inside
  have group := Reads.group (by decide) v.depth_pos (fun _ _ _ => Rules.takes_open v.closed_tokens noArrow) inside
  simpa [entries] using group

theorem runs_member {callable callable' : Bool} {p : Phrase (.chain callable)} (f : Property callable') (runs : p.Runs) :
    (member p f).Runs := by
  intro rest out ready _ noCall
  have plain : Method.ofName? f.text = none ∨ (following rest).isPunct ["("] = false := by
    rcases noCall with called | noCall
    · exact .inl (by simpa [called] using f.noMethod)
    · exact .inr noCall
  have last : Reads 0 1 [.sign ".", .word f.text] rest (out ++ p.entries) _ :=
    .unit (fun _ _ _ _ => Rules.takes_field f.notSize plain) rfl rfl
  simpa [entries, Use.lua] using (runs _ out ready rfl (.inr rfl)).append (last.mono p.depth_pos)

theorem runs_index {callable : Bool} {p : Phrase (.chain callable)} {v : Phrase .value} (runs : p.Runs) (runs' : v.Runs) :
    (index p v).Runs := by
  intro rest out ready _ _
  have inside := (runs' (.mark "]") rest _ (ready_open true (out ++ p.entries) "[" (by decide)) (by decide)).inside
  simpa [entries] using Reads.index (runs _ out ready rfl (.inr rfl)) p.operandIn_tokens v.depth_pos inside

theorem runs_call {p : Phrase (.chain true)} {args : Phrase (.items false)} (runs : p.Runs) (runs' : args.Runs) :
    (call p args).Runs := by
  intro rest out ready noArrow _
  have inside := runs' (.mark ")") rest _ (fun _ => ready_open true (out ++ p.entries) "(" (by decide)) (by simp) (by decide)
  have group := Reads.group (by decide) args.depth_pos (fun _ _ _ => Rules.takes_open args.closed_tokens noArrow) inside
  simpa [entries] using (runs _ out ready rfl (.inl rfl)).seq group

/-! ### Operators -/

theorem runs_core (e : Expr .simple) : (core e).Runs := by
  change OperandRuns false e.depth e.tokens (Piece.buffer (Piece.verbatim e.written))
  rw [Piece.buffer_verbatim]
  exact e.runs

theorem runs_operand {callable : Bool} {p : Phrase (.chain callable)} (runs : p.Runs) : (operand p).Runs := by
  intro rest out ready noArrow noCall
  exact runs rest out ready noArrow (.inr (noCall.resolve_left (by simp)))

theorem runs_negation {e : Phrase .simple} (runs : e.Runs) : (negation e).Runs := by
  intro rest out _ noArrow noCall
  simpa [entries] using OperandRuns.negation runs e.depth_pos noArrow (noCall.resolve_left (by simp))

theorem runs_binary (sign : Sign) {left right : Phrase .simple} (runs : left.Runs) (runs' : right.Runs) :
    (binary sign left right).Runs := by
  intro rest out ready noArrow noCall
  have first := runs (.blank :: .sign sign.text :: .blank :: (right.tokens ++ rest)) out ready (by cases sign <;> rfl) (.inr rfl)
  have adds : Rules.plusSign (out ++ left.entries ++ [" "]).lastWritten (following (.blank :: (right.tokens ++ rest))) = "+" := by
    obtain ⟨front, last, written, ends, plain⟩ := left.exists_last rfl
    obtain ⟨t, ts, shape, begins⟩ := right.head_tokens rfl
    have next : following (.blank :: (right.tokens ++ rest)) = t := by
      rw [following_trivia _ rfl, shape]
      exact following_cons _ begins.solid.1
    rw [written, next, ← List.append_assoc]
    exact plusSign_of_last ends plain begins.solid.2.2.1
  have second := OperandRuns.operator runs' right.depth_pos noArrow (noCall.resolve_left (by simp)) sign adds
  simpa [entries] using first.seq second

/-! ### Values and tables -/

theorem runs_plain {e : Phrase .simple} (runs : e.Runs) : (plain e).Runs := by
  intro t rest out ready closing
  have ends : ∀ t, Closing t → t.isTrivia = false ∧ t.isOperator ["=>"] = false ∧ t.isPunct ["("] = false := by decide
  obtain ⟨solid, noArrow, noCall⟩ := ends t closing
  have next : following (t :: rest) = t := following_cons rest solid
  rw [← next] at noArrow noCall
  exact runs (t :: rest) out ready noArrow (.inr noCall)

/-- Behind a brace, and behind what is written for its items, a brace is open. -/
theorem braceOpen_behind (out : Buffer) {es : Buffer} (even : Even (Buffer.text es)) :
    braceOpen 0 (Buffer.text (out ++ ["\x7b"] ++ es)).toList.reverse = true := by
  rw [text_append, text_append, text_singleton, String.toList_append, List.reverse_append, even.braces]
  simp [braceOpen]

theorem runs_table {fields : Phrase (.items true)} (runs : fields.Runs) : (table fields).Runs := by
  intro t rest out _ _
  have open? : braceOpen 0 (Buffer.text (out ++ ["\x7b"] ++ [])).toList.reverse = true := braceOpen_behind out (.flat (by decide))
  have inside := runs (.mark "\x7d") (t :: rest) (out ++ ["\x7b"]) (by simp) (fun _ => by simpa using open?) (by decide)
  have group := Reads.group (by decide) fields.depth_pos
    (fun _ _ _ => Rules.takes_mark (by decide) (Rules.arrow?_mark (by decide))) inside
  simpa [entries] using group

theorem runs_argument {v : Phrase .value} (runs : v.Runs) : (argument v).Runs := by
  intro t rest out ready _ ends
  exact (runs t rest out (ready rfl) ends.closing).inside

theorem runs_field (key : Key) {v : Phrase .value} (runs : v.Runs) : (field key v).Runs := by
  intro t rest out _ inside ends
  have name : Reads 1 1 [.word key.text] (.mark ":" :: .blank :: (v.tokens ++ t :: rest)) out _ :=
    .unit (fun _ _ _ _ => key.toWord.takes_unit rfl) rfl rfl
  have colon : Reads 1 1 [.mark ":"] (.blank :: (v.tokens ++ t :: rest)) (out ++ [key.text]) _ :=
    .mark (fun _ _ _ => key.takes_colon (inside rfl)) rfl rfl
  have value := (runs t rest (out ++ [Use.key.lua key.text] ++ [" ="] ++ [" "]) (.blank _) ends.closing).inside
  have front : Reads 1 v.depth [.word key.text, .mark ":", .blank] (v.tokens ++ t :: rest) out _ :=
    (name.append (colon.append .blank)).mono v.depth_pos
  simpa [entries] using front.append value

theorem runs_more {keyed : Bool} {i : Phrase (.item keyed)} {row : Phrase (.row keyed)} (runs : i.Runs) (runs' : row.Runs) :
    (more i row).Runs := by
  intro t rest out ready inside ends
  have spaced : Reads 1 row.depth [.mark ",", .blank] (row.tokens ++ t :: rest) (out ++ i.entries) _ :=
    (Reads.comma.append .blank).mono row.depth_pos
  -- the brace in front of the first item is still the last one open
  have inside' : keyed = true → braceOpen 0 (Buffer.text (out ++ i.entries ++ [","] ++ [" "])).toList.reverse = true := by
    intro braces
    have even : Even (Buffer.text (i.entries ++ [",", " "])) := i.even_entries.entries (.flat (by decide))
    have shape : out ++ i.entries ++ [","] ++ [" "] = out ++ (i.entries ++ [",", " "]) := by simp
    rw [shape, text_append, String.toList_append, List.reverse_append, even.braces]
    exact inside braces
  have others := spaced.append (runs' t rest _ (fun _ => .blank _) inside' ends)
  simpa [entries] using (runs (.mark ",") (.blank :: (row.tokens ++ t :: rest)) out ready inside (by decide)).seq others

theorem runs_noItems {keyed : Bool} : (noItems : Phrase (.items keyed)).Runs := by
  intro t rest out _ _ _
  simpa [entries] using Reads.nil

/-- The rules write the entries of every phrase, wherever it may stand. -/
theorem runs {kind : PhraseKind} (p : Phrase kind) : p.Runs := by
  induction p with
  | base p => exact runs_base p
  | name x => exact runs_name x
  | parens v ih => exact runs_parens ih
  | member p f ih => exact runs_member f ih
  | index p v h h' => exact runs_index h h'
  | call p args h h' => exact runs_call h h'
  | core e => exact runs_core e
  | operand p ih => exact runs_operand ih
  | negation e ih => exact runs_negation ih
  | binary sign left right h h' => exact runs_binary sign h h'
  | plain e ih => exact runs_plain ih
  | table fields ih => exact runs_table ih
  | argument v ih => exact runs_argument ih
  | field k v ih => exact runs_field k ih
  | last i ih | someItems row ih => exact ih
  | more i rest h h' => exact runs_more h h'
  | noItems => exact runs_noItems

/-! ### Statements -/

/-- No keyword starts a phrase. -/
theorem Begins.takes_anyStatement {t : Token} (begins : Begins t) {r : Rules} {before rest : List Token} {out : Buffer}
    {loops : LoopState} {s' : Spot} (taken : Takes (r.expressionStatement false) ⟨before, t :: rest, out, loops⟩ () s') :
    Takes r.anyStatement ⟨before, t :: rest, out, loops⟩ () s' := by
  cases begins with
  | expr begins => exact begins.takes_anyStatement taken
  | word x => exact Rules.takes_plainStatement x.toName taken
  | bracket | brace | negation => exact Takes.cursor.bind (Takes.markStatement.bind taken)

/-- The value of the tokens of an operand, with or without a blank in front of them, is the text written for it. -/
theorem takes_value (e : Phrase .simple) {d : Nat} (enough : e.depth ≤ d) {lead : List Token}
    (blank : lead = [] ∨ lead = [.blank]) {before rest : List Token} {out : Buffer} {loops : LoopState} :
    Takes ((Rules.within (d + 1)).value (lead ++ e.tokens)) ⟨before, rest, out, loops⟩ (Piece.line e.written.flatten)
      ⟨before, rest, out, loops⟩ := by
  obtain ⟨t, ts, shape, begins⟩ := e.head_tokens rfl
  have statement : ∀ before out, Ready true out → Statements (Rules.within (d + 1)) ⟨before, e.tokens ++ [Token.eof], out, loops⟩
      ⟨e.tokens.reverse ++ before, [.eof], out ++ e.entries, loops⟩ := by
    intro before out ready
    have walk : Walk (Rules.within d) (Rules.endsStatement false) 0 ⟨before, e.tokens ++ [Token.eof], out, loops⟩ 0 _ :=
      e.runs [.eof] out ready rfl (.inr rfl) d _ 0 before loops enough (calm_of_mem (by simp)) (Int.le_refl 0)
    have taken : Takes ((Rules.within d).expressionStatement false) ⟨before, e.tokens ++ [Token.eof], out, loops⟩ () _ :=
      (walk.takes_units (.inl rfl)).bind (.skipPunct_neg rfl)
    have solid := begins.solid
    refine .step e.tokens ?_ ?_ ?_ rfl rfl (by simp [shape]) .done
    · rw [shape]
      exact solid.2.1
    · rw [shape]
      exact solid.2.2.2.2
    · rw [shape] at taken ⊢
      exact begins.takes_anyStatement taken
  have starts := startsSolid_text (e.entries_starts rfl)
  have ends := endsSolid_text (e.entries_ends rfl)
  rw [← Piece.text_buffer]
  rcases blank with rfl | rfl
  · have value : Takes ((Rules.within (d + 1)).value e.tokens) ⟨before, rest, out, loops⟩
        (Text.strip (Buffer.text ([] ++ e.entries))) ⟨before, rest, out, loops⟩ := (statement [] [] (.nil true)).takes_value rfl
    rwa [List.nil_append, Text.strip_of_solid starts ends] at value
  · have space : Statements (Rules.within (d + 1)) ⟨[], [Token.blank] ++ (e.tokens ++ [Token.eof]), [], loops⟩ _ :=
      statements_trivia (by simp [isTrivia]) [] []
    have run : Statements (Rules.within (d + 1)) ⟨[], [Token.blank] ++ e.tokens ++ [Token.eof], [], loops⟩ _ :=
      space.trans (statement [.blank] [" "] (.blank []))
    have value : Takes ((Rules.within (d + 1)).value ([Token.blank] ++ e.tokens)) ⟨before, rest, out, loops⟩
        (Text.strip (Buffer.text ([" "] ++ e.entries))) ⟨before, rest, out, loops⟩ := run.takes_value rfl
    have strip : Text.strip (" " ++ Buffer.text e.entries ++ "") = Buffer.text e.entries :=
      Text.strip_between (by decide) starts ends (by decide)
    rwa [text_append, text_singleton, ← String.append_empty (s := " " ++ _), strip] at value

end Phrase

end NoteScript

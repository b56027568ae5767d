import NoteScript.Proofs.Groups
import NoteScript.Proofs.Units
import NoteScript.Rules.Call

/-!
# Expressions as trees

A core of expressions as trees: names, numbers, chains of members, indices and calls, operators and
conditionals, with arrow functions as arguments. The category of a tree says where it may stand without
brackets of its own. Beside the tokens of a tree stands its translation by recursion on the tree.

* `Expr.tokens`: how an expression is spelled, `Expr.legible`: it is cut back from its text.
* `Expr.lua`: its translation.
-/

namespace NoteScript

/-! ### Names and numbers -/

/-- The words that Lua reserves. -/
def luaWords : List String :=
  ["and", "break", "do", "else", "elseif", "end", "false", "for", "function", "goto", "if", "in", "local", "nil", "not",
   "or", "repeat", "return", "then", "true", "until", "while"]

/-- The names that a rule knows, or that are words in some places. -/
def knownNames : List String :=
  ["undefined", "NaN", "Infinity", "of", "await", "yield", "String", "Number", "parseInt", "parseFloat", "Math",
   "console", "JSON", "Object", "Array"]

/-- A name that stands for itself, in either language. -/
structure Identifier where
  text : String
  isName : Token.isNameText text = true
  free : text ∉ reservedWords ++ luaWords ++ knownNames

/-- The name of a member that is not the size of something. It is callable if no rule of its own takes the
call of such a member. -/
structure Field (callable : Bool) extends Identifier where
  notSize : text ∉ ["length", "size"]
  noMethod : (Method.ofName? text).isNone = callable

/-- A decimal integer. -/
structure Numeral where
  text : String
  nonempty : text ≠ ""
  digits : ∀ c ∈ text.toList, c.isDigit = true

/-! ### Operators and methods -/

/-- The binary operators. -/
inductive Sign where
  | plus
  | minus
  | times
  | divide
  | modulo
  | same
  | different
  | less
  | greater
  | atMost
  | atLeast
  | both
  | either

namespace Sign

/-- The spelling of an operator. -/
def text : Sign → String
  | plus => "+"
  | minus => "-"
  | times => "*"
  | divide => "/"
  | modulo => "%"
  | same => "==="
  | different => "!=="
  | less => "<"
  | greater => ">"
  | atMost => "<="
  | atLeast => ">="
  | both => "&&"
  | either => "||"

/-- The spelling of an operator in Lua. -/
def lua : Sign → String
  | same => "=="
  | different => "~="
  | both => "and"
  | either => "or"
  | sign => sign.text

end Sign

/-- A method of query collections. -/
structure Link where
  name : String
  known : name ∈ "filter" :: Method.chained

/-- The name of such a method in Lua. -/
def Link.lua (m : Link) : String := if m.name = "filter" then "where" else m.name

/-- The methods with one argument whose call is written around the receiver. -/
inductive UnaryMethod where
  | push
  | join
  | includes
  | startsWith
  | endsWith

namespace UnaryMethod

def name : UnaryMethod → String
  | push => "push"
  | join => "join"
  | includes => "includes"
  | startsWith => "startsWith"
  | endsWith => "endsWith"

/-- A call in Lua, given the receiver and the argument. -/
def lua (receiver argument : String) : UnaryMethod → String
  | push => "table.insert(" ++ receiver ++ ", " ++ argument ++ ")"
  | join => "table.concat(" ++ receiver ++ ", " ++ argument ++ ")"
  | includes => "(" ++ Rules.asReceiver receiver ++ ":find(" ++ argument ++ ", 1, true) ~= nil)"
  | startsWith => "(" ++ Rules.asReceiver receiver ++ ":sub(1, #(" ++ argument ++ ")) == " ++ argument ++ ")"
  | endsWith => "(" ++ Rules.asReceiver receiver ++ ":sub(-#(" ++ argument ++ ")) == " ++ argument ++ ")"

/-- What is called in Lua, if anything. -/
def callee : UnaryMethod → String
  | push => "table.insert"
  | join => "table.concat"
  | includes | startsWith | endsWith => ""

/-- What stands in the brackets behind it. -/
def inside (receiver argument : String) : UnaryMethod → String
  | push | join => receiver ++ ", " ++ argument
  | includes => Rules.asReceiver receiver ++ (":find(" ++ argument ++ ", 1, true) ~= nil")
  | startsWith => Rules.asReceiver receiver ++ (":sub(1, #(" ++ argument ++ ")) == ") ++ argument
  | endsWith => Rules.asReceiver receiver ++ (":sub(-#(" ++ argument ++ ")) == ") ++ argument

theorem lua_eq (m : UnaryMethod) (receiver argument : String) :
    m.lua receiver argument = m.callee ++ "(" ++ m.inside receiver argument ++ ")" := by
  cases m with
  | push =>
    have opening : "table.insert(" = "table.insert" ++ "(" := rfl
    change "table.insert(" ++ receiver ++ ", " ++ argument ++ ")" = "table.insert" ++ "(" ++ (receiver ++ ", " ++ argument) ++ ")"
    simp only [opening, String.append_assoc]
  | join =>
    have opening : "table.concat(" = "table.concat" ++ "(" := rfl
    change "table.concat(" ++ receiver ++ ", " ++ argument ++ ")" = "table.concat" ++ "(" ++ (receiver ++ ", " ++ argument) ++ ")"
    simp only [opening, String.append_assoc]
  | includes =>
    have closing : ", 1, true) ~= nil)" = ", 1, true) ~= nil" ++ ")" := rfl
    change "(" ++ Rules.asReceiver receiver ++ ":find(" ++ argument ++ ", 1, true) ~= nil)" =
      "" ++ "(" ++ (Rules.asReceiver receiver ++ (":find(" ++ argument ++ ", 1, true) ~= nil")) ++ ")"
    simp only [closing, String.append_assoc, String.empty_append]
  | startsWith =>
    change "(" ++ Rules.asReceiver receiver ++ ":sub(1, #(" ++ argument ++ ")) == " ++ argument ++ ")" =
      "" ++ "(" ++ (Rules.asReceiver receiver ++ (":sub(1, #(" ++ argument ++ ")) == ") ++ argument) ++ ")"
    simp only [String.append_assoc, String.empty_append]
  | endsWith =>
    change "(" ++ Rules.asReceiver receiver ++ ":sub(-#(" ++ argument ++ ")) == " ++ argument ++ ")" =
      "" ++ "(" ++ (Rules.asReceiver receiver ++ (":sub(-#(" ++ argument ++ ")) == ") ++ argument) ++ ")"
    simp only [String.append_assoc, String.empty_append]

end UnaryMethod

/-- The parameters of an arrow function: a name, or names in brackets. -/
inductive Parameters where
  | single (x : Identifier)
  | several (xs : List Identifier)

/-! ### Trees -/

/-- Where a tree may stand. A chain of members, indices and calls is callable, unless it ends in a member
that has a rule of its own when it is called. -/
inductive Category where
  | expression
  | simple
  | chain (callable : Bool)
  | argument
  | list
  | arguments

namespace Category

/-- The categories that may have commas outside brackets. -/
def isSeveral : Category → Bool
  | list | arguments => true
  | _ => false

/-- Only arguments may be missing. -/
def isPresent : Category → Bool
  | arguments => false
  | _ => true

/-- The categories whose entries hang together as an operand, one that blanks and operators end or one that
they do not end. -/
def isOperand (operatorsEnd : Bool) : Category → Bool
  | chain _ => true
  | simple => !operatorsEnd
  | _ => false

end Category

/-- Expressions and their parts. -/
inductive Expr : Category → Type where
  /-- `b ? e : f` -/
  | choice (test : Expr .simple) (yes no : Expr .expression) : Expr .expression
  | plain (e : Expr .simple) : Expr .expression
  | number (n : Numeral) : Expr .simple
  | operand {callable : Bool} (p : Expr (.chain callable)) : Expr .simple
  /-- `p.length` -/
  | length {callable : Bool} (p : Expr (.chain callable)) : Expr .simple
  /-- `!e` -/
  | negation (e : Expr .simple) : Expr .simple
  | binary (sign : Sign) (left right : Expr .simple) : Expr .simple
  | name (x : Identifier) : Expr (.chain true)
  /-- `(e)` -/
  | parens (e : Expr .expression) : Expr (.chain true)
  /-- `p.f` -/
  | field {callable callable' : Bool} (p : Expr (.chain callable)) (f : Field callable') : Expr (.chain callable')
  /-- `p[e]` -/
  | index {callable : Bool} (p : Expr (.chain callable)) (e : Expr .expression) : Expr (.chain true)
  /-- `p(a, b)` -/
  | call (p : Expr (.chain true)) (args : Expr .arguments) : Expr (.chain true)
  /-- `p.map(a, b)` -/
  | link {callable : Bool} (p : Expr (.chain callable)) (m : Link) (args : Expr .arguments) : Expr (.chain true)
  /-- `p.join(e)` -/
  | unaryCall {callable : Bool} (p : Expr (.chain callable)) (m : UnaryMethod) (e : Expr .expression) : Expr (.chain true)
  /-- `p.toString()` -/
  | toText {callable : Bool} (p : Expr (.chain callable)) : Expr (.chain true)
  | value (e : Expr .expression) : Expr .argument
  /-- `x => e` -/
  | arrow (params : Parameters) (e : Expr .expression) : Expr .argument
  | last (a : Expr .argument) : Expr .list
  | more (a : Expr .argument) (rest : Expr .list) : Expr .list
  | noArguments : Expr .arguments
  | someArguments (args : Expr .list) : Expr .arguments

/-! ### Spelling -/

namespace Token

theorem apart_mark (t : Token) (text : String) : Apart t (.mark text) = true := by
  unfold Apart
  split <;> simp_all

theorem AlwaysLegible.before_mark {ts rest : List Token} (h : AlwaysLegible ts)
    (h' : AlwaysLegible rest) (text : String) (readable : Readable false (.mark text) = true) :
    AlwaysLegible (ts ++ Token.mark text :: rest) := by
  intro divides
  refine legible_append.mpr ⟨h divides, h'.mark text readable _, fun t _ u hu => ?_⟩
  cases hu
  exact apart_mark t text

theorem AlwaysLegible.member {rest : List Token} (h : AlwaysLegible rest) {name : String}
    (isName : isNameText name = true)
    (apart : rest.head?.all (fun u => u.kind != .identifier && u.kind != .number) = true) :
    AlwaysLegible (.sign "." :: .word name :: rest) := by
  refine (h.word name isName apart).cons (by decide) fun u hu => ?_
  cases hu
  rfl

theorem AlwaysLegible.equals {rest : List Token} (h : AlwaysLegible (.blank :: rest)) :
    AlwaysLegible (.blank :: .sign "=" :: .blank :: rest) := by
  refine (h.cons (by decide) fun u hu => ?_).blank rfl
  cases hu
  rfl

end Token

open Token

/-- Texts of names, with commas between them. -/
def Token.names : List String → List Token
  | [] => []
  | [x] => [.word x]
  | x :: rest => .word x :: .mark "," :: .blank :: names rest

/-- Names with commas between them. -/
def Identifier.listTokens : List Identifier → List Token
  | [] => []
  | [x] => [.word x.text]
  | x :: rest => .word x.text :: .mark "," :: .blank :: listTokens rest

def Parameters.tokens : Parameters → List Token
  | single x => [.word x.text]
  | several xs => .mark "(" :: Identifier.listTokens xs ++ [.mark ")"]

/-- The parameters in Lua, without brackets. -/
def Parameters.lua : Parameters → String
  | single x => x.text
  | several xs => String.intercalate ", " (xs.map (·.text))

namespace Expr

/-- The tokens of a tree. -/
def tokens {cat : Category} : Expr cat → List Token
  | choice test yes no =>
    test.tokens ++ .blank :: .mark "?" :: .blank :: yes.tokens ++ .blank :: .mark ":" :: .blank :: no.tokens
  | plain e => e.tokens
  | number n => [⟨.number, n.text⟩]
  | operand p => p.tokens
  | length p => p.tokens ++ [.sign ".", .word "length"]
  | negation e => .sign "!" :: e.tokens
  | binary sign left right => left.tokens ++ .blank :: .sign sign.text :: .blank :: right.tokens
  | name x => [.word x.text]
  | parens e => .mark "(" :: e.tokens ++ [.mark ")"]
  | field p f => p.tokens ++ [.sign ".", .word f.text]
  | index p e => p.tokens ++ .mark "[" :: e.tokens ++ [.mark "]"]
  | call p args => p.tokens ++ .mark "(" :: args.tokens ++ [.mark ")"]
  | link p m args => p.tokens ++ .sign "." :: .word m.name :: .mark "(" :: args.tokens ++ [.mark ")"]
  | unaryCall p m e => p.tokens ++ .sign "." :: .word m.name :: .mark "(" :: e.tokens ++ [.mark ")"]
  | toText p => p.tokens ++ [.sign ".", .word "toString", .mark "(", .mark ")"]
  | value e => e.tokens
  | arrow params e => params.tokens ++ .blank :: .sign "=>" :: .blank :: e.tokens
  | last a => a.tokens
  | more a rest => a.tokens ++ .mark "," :: .blank :: rest.tokens
  | noArguments => []
  | someArguments args => args.tokens

/-! ### Translation -/

/-- A conditional in Lua: a function that is called at once. -/
def choiceText (test yes no : String) : String :=
  "(function() if " ++ test ++ " then return " ++ yes ++ " else return " ++ no ++ " end end)()"

/-- A length in Lua. -/
def lengthText (operand : String) : String := if Text.isSimpleOperand operand then "#" ++ operand else "#(" ++ operand ++ ")"

/-- The translation of a tree. -/
def lua {cat : Category} : Expr cat → String
  | choice test yes no => choiceText test.lua yes.lua no.lua
  | plain e => e.lua
  | number n => n.text
  | operand p => p.lua
  | length p => lengthText p.lua
  | negation e => "not " ++ e.lua
  | binary sign left right => left.lua ++ " " ++ sign.lua ++ " " ++ right.lua
  | name x => x.text
  | parens e => "(" ++ e.lua ++ ")"
  | field p f => p.lua ++ "." ++ f.text
  | index p e => p.lua ++ "[" ++ e.lua ++ "]"
  | call p args => p.lua ++ "(" ++ args.lua ++ ")"
  | link p m args => p.lua ++ ":" ++ m.lua ++ "(" ++ args.lua ++ ")"
  | unaryCall p m e => m.lua p.lua e.lua
  | toText p => "tostring(" ++ p.lua ++ ")"
  | value e => e.lua
  | arrow params e => "function(" ++ params.lua ++ ") return " ++ e.lua ++ " end"
  | last a => a.lua
  | more a rest => a.lua ++ ", " ++ rest.lua
  | noArguments => ""
  | someArguments args => args.lua

end Expr

/-! ### Brackets -/

namespace Token

/-- No bracket, and no comma unless commas are allowed. -/
def isPlain (commas : Bool) (t : Token) : Bool := !t.isEof && !t.isOpener && !t.isCloser && (!t.isPunct [","] || commas)

/-- Tokens whose brackets pair among themselves. Commas stand inside brackets, unless they are allowed. -/
inductive Grouped : Bool → List Token → Prop where
  | nil {commas : Bool} : Grouped commas []
  | plain {commas : Bool} {t : Token} {ts : List Token} (plain : t.isPlain commas = true) (behind : Grouped commas ts) :
      Grouped commas (t :: ts)
  | group {commas : Bool} {opening closing : String} {ts us : List Token} (pair : (opening, closing) ∈ bracketPairs)
      (inside : Grouped true ts) (behind : Grouped commas us) : Grouped commas (.mark opening :: ts ++ .mark closing :: us)

namespace Grouped

variable {commas : Bool} {ts us : List Token}

theorem append (h : Grouped commas ts) (h' : Grouped commas us) : Grouped commas (ts ++ us) := by
  induction h with
  | nil => exact h'
  | plain plain _ ih => exact .plain plain (ih h')
  | group pair inside _ _ ih =>
    rw [List.append_assoc]
    exact .group pair inside (ih h')

theorem flat (h : ∀ t ∈ ts, t.isPlain commas = true) : Grouped commas ts := by
  induction ts with
  | nil => exact .nil
  | cons t ts ih =>
    obtain ⟨first, later⟩ := List.forall_mem_cons.mp h
    exact .plain first (ih later)

theorem trivia (h : ∀ t ∈ ts, t.isTrivia = true) : Grouped commas ts := by
  refine .flat fun t mem => ?_
  rcases kind_of_isTrivia (h t mem) with kind | kind | kind <;> simp [isPlain, isEof, isOpener, isCloser, isPunct, kind]

theorem inside (h : Grouped commas ts) : Grouped true ts := by
  induction h with
  | nil => exact .nil
  | plain plain _ ih => exact .plain (by simp_all [isPlain]) ih
  | group pair _ _ inside behind => exact .group pair inside behind

theorem marks_of_pair {opening closing : String} (pair : (opening, closing) ∈ bracketPairs) :
    (Token.mark opening).isOpener = true ∧ (Token.mark closing).isOpener = false ∧ (Token.mark closing).isCloser = true ∧
      (Token.mark opening).isPunct [","] = false ∧ (Token.mark closing).isPunct [","] = false := by
  have all : ∀ p ∈ bracketPairs, (Token.mark p.1).isOpener = true ∧ (Token.mark p.2).isOpener = false ∧
      (Token.mark p.2).isCloser = true ∧ (Token.mark p.1).isPunct [","] = false ∧ (Token.mark p.2).isPunct [","] = false := by
    decide
  exact all _ pair

theorem wellNested (h : Grouped commas ts) : WellNested (brackets ts) := by
  induction h with
  | nil => exact .nil
  | plain plain _ ih =>
    rw [brackets_plain (by simp_all [isPlain])]
    exact ih
  | group pair _ _ inside behind =>
    obtain ⟨opens, -, closes, -⟩ := marks_of_pair pair
    rw [List.cons_append, brackets_bracket (by simp [opens]), brackets_append, brackets_bracket (by simp [closes])]
    exact .pair pair inside behind

theorem checkBrackets_eq (h : Grouped commas ts) : checkBrackets (ts ++ [.eof]) = .ok () := by
  rw [checkBrackets, h.wellNested.run]
  rfl

theorem bracketDepth_eq (h : Grouped commas ts) : bracketDepth ts = 0 := by
  induction h with
  | nil => rfl
  | plain plain _ ih => simp_all [isPlain, bracketDepth]
  | group pair _ _ inside behind =>
    obtain ⟨opens, other, closes, -⟩ := marks_of_pair pair
    simp [bracketDepth, bracketDepth_append, inside, behind, opens, other, closes]

theorem isEof_eq (h : Grouped commas ts) : ∀ t ∈ ts, t.isEof = false := by
  induction h with
  | nil => simp
  | plain plain _ ih => exact List.forall_mem_cons.mpr ⟨by simp_all [isPlain], ih⟩
  | group _ _ _ inside behind =>
    exact List.forall_mem_append.mpr ⟨List.forall_mem_cons.mpr ⟨rfl, inside⟩, List.forall_mem_cons.mpr ⟨rfl, behind⟩⟩

/-- The brackets of any one shape are closed. -/
theorem closed (h : Grouped commas ts) {opener closer : String} (shape : (opener, closer) ∈ bracketPairs) :
    Cursor.Closed opener closer ts := h.wellNested.closed shape h.isEof_eq

/-- Splitting at commas passes over the tokens, inside brackets if they have commas. -/
theorem splitFrom_eq (h : Grouped commas ts) {depth : Int} (level : 0 ≤ depth) (below : commas = true → depth ≠ 0)
    (group rest : List Token) : splitFrom "," depth group (ts ++ rest) = splitFrom "," depth (ts.reverse ++ group) rest := by
  induction h generalizing depth group rest with
  | nil => rfl
  | @plain commas t ts plain _ ih =>
    have uncut : (depth == 0 && t.isPunct [","]) = false := by
      cases commas <;> simp_all [isPlain]
    have step : splitFrom "," depth group (t :: (ts ++ rest)) = splitFrom "," depth (t :: group) (ts ++ rest) := by
      simp_all [isPlain, splitFrom]
    rw [List.cons_append, step, ih level below]
    simp
  | @group _ opening closing ts us pair _ _ inside behind =>
    obtain ⟨opens, other, closes, uncut, uncut'⟩ := marks_of_pair pair
    have up : splitFrom "," depth group (.mark opening :: (ts ++ Token.mark closing :: (us ++ rest))) =
        splitFrom "," (depth + 1) (.mark opening :: group) (ts ++ Token.mark closing :: (us ++ rest)) := by
      simp [splitFrom, opens, uncut]
    have down : ∀ group, splitFrom "," (depth + 1) group (.mark closing :: (us ++ rest)) =
        splitFrom "," depth (.mark closing :: group) (us ++ rest) := by
      simp [splitFrom, other, closes, uncut']
    rw [List.append_assoc, List.cons_append, List.cons_append, up, inside (by omega) (by omega), down, behind level below]
    simp

theorem splitOn_eq (h : Grouped false ts) : splitOn "," ts = [ts] := by
  have whole := h.splitFrom_eq (Int.le_refl 0) Bool.noConfusion [] []
  rw [List.append_nil] at whole
  rw [splitOn, whole, splitFrom]
  simp

end Grouped

theorem grouped_names (xs : List String) : Grouped true (names xs) := by
  induction xs with
  | nil => exact .nil
  | cons x xs ih =>
    cases xs with
    | nil => exact .plain rfl .nil
    | cons y ys => exact .plain rfl (.plain rfl (.plain rfl ih))

theorem legible_names {xs : List String} (all : ∀ x ∈ xs, isNameText x = true) : AlwaysLegible (names xs) := by
  induction xs with
  | nil => exact alwaysLegible_nil
  | cons x xs ih =>
    obtain ⟨isName, later⟩ := List.forall_mem_cons.mp all
    cases xs with
    | nil => exact alwaysLegible_nil.word x isName rfl
    | cons y ys =>
      have solid : (names (y :: ys)).head?.all (!·.isTrivia) = true := by
        cases ys <;> rfl
      exact (((ih later).blank solid).mark "," rfl).word x isName rfl

end Token

theorem Identifier.listTokens_eq (xs : List Identifier) : Identifier.listTokens xs = names (xs.map (·.text)) := by
  induction xs with
  | nil => rfl
  | cons x xs ih =>
    cases xs with
    | nil => rfl
    | cons y ys => exact congrArg (.word x.text :: .mark "," :: .blank :: ·) ih

theorem Identifier.grouped_listTokens (xs : List Identifier) : Grouped true (Identifier.listTokens xs) := by
  rw [Identifier.listTokens_eq]
  exact grouped_names _

theorem Parameters.grouped_tokens (params : Parameters) : Grouped false params.tokens := by
  cases params with
  | single x => exact .plain rfl .nil
  | several xs => exact .group (by decide) (Identifier.grouped_listTokens xs) .nil

theorem Identifier.legible_listTokens (xs : List Identifier) : AlwaysLegible (Identifier.listTokens xs) := by
  rw [Identifier.listTokens_eq]
  refine legible_names fun text mem => ?_
  obtain ⟨x, -, rfl⟩ := List.mem_map.mp mem
  exact x.isName

theorem Parameters.legible (params : Parameters) {rest : List Token} (h : AlwaysLegible rest)
    (apart : rest.head?.all (fun u => u.kind != .identifier && u.kind != .number) = true) :
    AlwaysLegible (params.tokens ++ rest) := by
  cases params with
  | single x => exact h.word x.text x.isName apart
  | several xs =>
    have inside := ((Identifier.legible_listTokens xs).before_mark h ")" rfl).mark "(" rfl
    simpa [Parameters.tokens] using inside

namespace Expr

variable {cat : Category} {chain : Bool} {t : Token} {rest : List Token}

/-- The brackets of a tree pair, and its commas stand inside them, but for those between arguments. -/
theorem grouped_tokens (e : Expr cat) : Grouped cat.isSeveral e.tokens := by
  induction e with
  | plain e ih | operand p ih | value e ih | someArguments args ih => exact ih
  | last a ih => exact ih.inside
  | number | name => exact .plain rfl .nil
  | noArguments => exact .nil
  | choice test yes no h h' h'' =>
    exact (h.append (.plain rfl (.plain rfl (.plain rfl h')))).append (.plain rfl (.plain rfl (.plain rfl h'')))
  | length p ih | field p f ih => exact ih.append (.plain rfl (.plain rfl .nil))
  | negation e ih => exact .plain rfl ih
  | binary sign left right h h' => exact h.append (.plain rfl (.plain rfl (.plain rfl h')))
  | parens e ih => exact .group (by decide) ih.inside .nil
  | index p e h h' | call p e h h' =>
    rw [tokens, List.append_assoc]
    exact h.append (.group (by decide) h'.inside .nil)
  | link p m e h h' | unaryCall p m e h h' =>
    rw [tokens, List.append_assoc]
    exact h.append (.plain rfl (.plain rfl (.group (by decide) h'.inside .nil)))
  | toText p ih => exact ih.append (.plain rfl (.plain rfl (.group (by decide) .nil .nil)))
  | arrow params e ih => exact params.grouped_tokens.append (.plain rfl (.plain rfl (.plain rfl ih)))
  | more a rest h h' => exact h.inside.append (.plain rfl (.plain rfl h'))

theorem closed_tokens (e : Expr cat) : Cursor.Closed "(" ")" e.tokens := e.grouped_tokens.closed (by decide)

/-! ### The first and the last token -/

/-- The first token is the one of the tokens in front. -/
theorem front {p : Token → Prop} {ts : List Token} (h : ∃ t ts', ts = t :: ts' ∧ p t) (us : List Token) :
    ∃ t ts', ts ++ us = t :: ts' ∧ p t := by
  obtain ⟨t, ts', rfl, begins⟩ := h
  exact ⟨t, ts' ++ us, rfl, begins⟩

/-- The last token is the one of the tokens behind. -/
theorem back {p : Token → Prop} {ts : List Token} (h : ∃ ts' t, ts = ts' ++ [t] ∧ p t) (us : List Token) :
    ∃ ts' t, us ++ ts = ts' ++ [t] ∧ p t := by
  obtain ⟨ts', t, rfl, ends⟩ := h
  exact ⟨us ++ ts', t, (List.append_assoc ..).symm, ends⟩

/-- The tokens that a tree starts with. -/
inductive Begins : Token → Prop where
  | name (x : Identifier) : Begins (.word x.text)
  | number (n : Numeral) : Begins ⟨.number, n.text⟩
  | bracket : Begins (.mark "(")
  | negation : Begins (.sign "!")

theorem head_tokens (e : Expr cat) (present : cat.isPresent = true) : ∃ t ts, e.tokens = t :: ts ∧ Begins t := by
  induction e with
  | noArguments | someArguments => cases present
  | plain e ih | operand p ih | value e ih | last a ih => exact ih rfl
  | number n => exact ⟨_, _, rfl, .number n⟩
  | name x => exact ⟨_, _, rfl, .name x⟩
  | negation e => exact ⟨_, _, rfl, .negation⟩
  | parens e => exact ⟨_, _, rfl, .bracket⟩
  | length p ih | field p f ih | toText p ih | binary sign left right ih | more a rest ih => exact front (ih rfl) _
  | choice test yes no ih | index p e ih | call p e ih | link p m args ih | unaryCall p m e ih => exact front (front (ih rfl) _) _
  | arrow params e ih =>
    refine front ?_ _
    cases params with
    | single x => exact ⟨_, _, rfl, .name x⟩
    | several xs => exact ⟨_, _, rfl, .bracket⟩

theorem hasContent_tokens (e : Expr cat) (present : cat.isPresent = true) : hasContent e.tokens = true := by
  obtain ⟨t, ts, shape, begins⟩ := e.head_tokens present
  have solid : t.isTrivia = false := by cases begins <;> rfl
  rw [shape]
  simp [hasContent, solid]

/-- The tokens that a tree ends with; a number does not end a chain. -/
inductive Ends (chain : Bool) : Token → Prop where
  | name (text : String) : isNameText text = true → text ∉ Cursor.operatorWords → Ends chain (.word text)
  | number (n : Numeral) : chain = false → Ends chain ⟨.number, n.text⟩
  | round : Ends chain (.mark ")")
  | square : Ends chain (.mark "]")

theorem Ends.endsOperand (h : Ends chain t) : t.endsOperand = true := by
  cases h <;> rfl

theorem Ends.endsTarget (h : Ends true t) : Cursor.endsTarget t = true := by
  cases h with
  | name text _ free => simp [Cursor.endsTarget, isIdentifier, free]
  | number _ impossible => cases impossible
  | round => rfl
  | square => rfl

theorem Ends.simple (h : Ends true t) : Ends false t := by
  cases h with
  | name text isName free => exact .name text isName free
  | number _ impossible => cases impossible
  | round => exact .round
  | square => exact .square

theorem ends_identifier (x : Identifier) (chain : Bool) : Ends chain (.word x.text) := by
  have words : ∀ word ∈ Cursor.operatorWords, word ∈ reservedWords ++ luaWords ++ knownNames := by decide
  exact .name x.text x.isName fun mem => x.free (words _ mem)

theorem last_tokens (e : Expr cat) (present : cat.isPresent = true) :
    ∃ ts t, e.tokens = ts ++ [t] ∧ Ends (cat.isOperand true) t := by
  induction e with
  | noArguments | someArguments => cases present
  | plain e ih | value e ih | last a ih => exact ih rfl
  | operand p ih =>
    obtain ⟨ts, t, shape, ends⟩ := ih rfl
    exact ⟨ts, t, shape, ends.simple⟩
  | number n => exact ⟨[], _, rfl, .number n rfl⟩
  | name x => exact ⟨[], _, rfl, ends_identifier x _⟩
  | field p f => exact back ⟨[_], _, rfl, ends_identifier f.toIdentifier _⟩ _
  | length p => exact back ⟨[_], _, rfl, .name "length" (by decide) (by decide)⟩ _
  | toText p => exact back ⟨[_, _, _], _, rfl, .round⟩ _
  | parens e | call p args | link p m args | unaryCall p m e => exact ⟨_, _, rfl, .round⟩
  | index p e => exact ⟨_, _, rfl, .square⟩
  | negation e ih => exact back (ih rfl) [_]
  | binary sign left right _ ih | choice test yes no _ _ ih | arrow params e ih => exact back (back (ih rfl) [_, _, _]) _
  | more a rest _ ih => exact back (back (ih rfl) [_, _]) _

/-! ### Legibility -/

/-- What follows the end of a tree is read as behind an operand. -/
theorem Ends.legible_append (ends : Ends chain t) {ts : List Token}
    (h : AlwaysLegible (ts ++ [t])) (h' : Legible true rest) (apart : ∀ u ∈ rest.head?, Apart t u = true) :
    AlwaysLegible (ts ++ [t] ++ rest) := by
  intro divides
  refine Token.legible_append.mpr ⟨h divides, ?_, ?_⟩
  · have solid : t.isTrivia = false := by cases ends <;> rfl
    rw [List.foldl_append, List.foldl_cons, List.foldl_nil, dividesAfter, solid, ends.endsOperand]
    exact h'
  · intro u hu
    rw [List.getLast?_concat] at hu
    cases hu
    exact apart

theorem Ends.apart_point (ends : Ends true t) : Apart t (.sign ".") = true := by
  cases ends with
  | name | round | square => rfl
  | number _ impossible => cases impossible

theorem Ends.apart_blank (ends : Ends chain t) : Apart t .blank = true := by
  cases ends <;> rfl

theorem legible_append (e : Expr cat) (present : cat.isPresent = true) (h : AlwaysLegible e.tokens) (h' : Legible true rest)
    (apart : ∀ t, Ends (cat.isOperand true) t → ∀ u ∈ rest.head?, Apart t u = true) : AlwaysLegible (e.tokens ++ rest) := by
  obtain ⟨ts, t, shape, ends⟩ := e.last_tokens present
  rw [shape] at h ⊢
  exact ends.legible_append h h' (apart t ends)

theorem legible_blank (e : Expr cat) (present : cat.isPresent = true) (rest : List Token)
    (h : AlwaysLegible (e.tokens ++ rest)) : AlwaysLegible (.blank :: (e.tokens ++ rest)) := by
  obtain ⟨t, ts, shape, begins⟩ := e.head_tokens present
  refine h.blank ?_
  rw [shape]
  cases begins <;> rfl

theorem legible_before_blank (e : Expr cat) (present : cat.isPresent = true)
    (h : AlwaysLegible e.tokens) (h' : Legible true (.blank :: rest)) :
    AlwaysLegible (e.tokens ++ Token.blank :: rest) := by
  refine e.legible_append present h h' fun t ends u hu => ?_
  cases hu
  exact ends.apart_blank

/-- The tokens of a tree are cut back from its text. -/
theorem legible (e : Expr cat) : AlwaysLegible e.tokens := by
  have point : ∀ {rest : List Token}, ∀ t, Ends true t → ∀ u ∈ (.sign "." :: rest : List Token).head?, Apart t u = true := by
    rintro rest t ends u ⟨⟩
    exact ends.apart_point
  have mark : ∀ {chain : Bool} {text : String} {rest : List Token}, ∀ t, Ends chain t →
      ∀ u ∈ (.mark text :: rest : List Token).head?, Apart t u = true := by
    rintro chain text rest t _ u ⟨⟩
    exact apart_mark t text
  have methods : ∀ m : Link, isNameText m.name = true := by
    intro m
    have names : ∀ name ∈ "filter" :: Method.chained, isNameText name = true := by decide
    exact names m.name m.known
  have spaced : ∀ {cat : Category} (e : Expr cat), cat.isPresent = true → AlwaysLegible e.tokens →
      AlwaysLegible (.blank :: e.tokens) := by
    intro cat e present h
    simpa using e.legible_blank present [] (by simpa using h)
  have bracket : ∀ {ts}, AlwaysLegible ts → AlwaysLegible (.mark "(" :: (ts ++ [Token.mark ")"])) :=
    fun inside => (inside.before_mark alwaysLegible_nil ")" rfl).mark "(" rfl
  induction e with
  | plain e ih | operand p ih | value e ih | last a ih | someArguments args ih => exact ih
  | number n =>
    refine alwaysLegible_nil.cons (fun _ => ?_) (by simp)
    simpa [Readable, n.nonempty] using n.digits
  | name x => exact alwaysLegible_nil.word x.text x.isName rfl
  | noArguments => exact alwaysLegible_nil
  | parens e ih => exact bracket ih
  | negation e ih =>
    obtain ⟨t, ts, shape, begins⟩ := e.head_tokens rfl
    refine ih.cons (by decide) fun u hu => ?_
    rw [shape] at hu
    cases hu
    cases begins <;> rfl
  | length p ih => exact p.legible_append rfl ih (alwaysLegible_nil.member rfl rfl true) point
  | field p f ih => exact p.legible_append rfl ih (alwaysLegible_nil.member f.isName rfl true) point
  | toText p ih =>
    exact p.legible_append rfl ih ((bracket alwaysLegible_nil).member rfl rfl true) point
  | index p e h h' =>
    rw [tokens, List.append_assoc]
    exact p.legible_append rfl h (((h'.before_mark alwaysLegible_nil "]" rfl).mark "[" rfl) true) mark
  | call p args h h' =>
    rw [tokens, List.append_assoc]
    exact p.legible_append rfl h (bracket h' true) mark
  | link p m args h h' =>
    rw [tokens, List.append_assoc]
    exact p.legible_append rfl h ((bracket h').member (methods m) rfl true) point
  | unaryCall p m e h h' =>
    rw [tokens, List.append_assoc]
    exact p.legible_append rfl h ((bracket h').member (by cases m <;> decide) rfl true) point
  | choice test yes no h h' h'' =>
    have later := ((spaced no rfl h'').mark ":" rfl).blank rfl
    have first := yes.legible_before_blank rfl h' (later true)
    have both := ((yes.legible_blank rfl _ first).mark "?" rfl).blank rfl
    rw [tokens, List.append_assoc]
    exact test.legible_before_blank rfl h (both true)
  | binary sign left right h h' =>
    have readable : Readable true (.sign sign.text) = true := by cases sign <;> decide
    refine left.legible_before_blank rfl h ⟨rfl, ?_, readable, ?_, spaced right rfl h' _⟩
    · rintro u ⟨⟩
      rfl
    · rintro u ⟨⟩
      rfl
  | arrow params e ih =>
    refine params.legible (((spaced e rfl ih).cons (by decide) ?_).blank rfl) rfl
    rintro u ⟨⟩
    rfl
  | more a rest h h' => exact h.before_mark (spaced rest rfl h') "," rfl

end Expr

end NoteScript

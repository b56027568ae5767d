import NoteScript.Proofs.Neighbours

/-!
# Array literals

An array literal becomes a table in braces. Braces are no brackets to the walk that takes an operand back, and they do not
end it. So a form written around the first operand of the first element takes the opening brace into it, and what is asked
of the whole array is asked of its last operand and the closing brace.

* `ArrayLiteral`, `ArrayUse`: arrays of one element or more, and what is asked of them.
* `Split`: what is written for the elements, cut in front of the last operand; `walk_elements`: the rules write that.
* `convertTokens_array`: the translation of an assigned array, and when it is the table made of its elements.
-/

namespace NoteScript

open Edit Buffer Text Token

/-- An array of one element or more: `[e₁, …, eₙ]`. -/
structure ArrayLiteral where
  first : Expr .expression
  others : List (Expr .expression)

namespace ArrayLiteral

/-- The elements behind the first one, with their commas. -/
def laterTokens (others : List (Expr .expression)) : List Token := others.flatMap fun e => .mark "," :: .blank :: e.tokens

def tokens (a : ArrayLiteral) : List Token := .mark "[" :: (a.first.tokens ++ (laterTokens a.others ++ [.mark "]"]))

def laterLua (others : List (Expr .expression)) : String := String.join (others.map fun e => ", " ++ e.lua)

theorem laterLua_cons (e : Expr .expression) (others : List (Expr .expression)) :
    laterLua (e :: others) = ", " ++ e.lua ++ laterLua others := by
  rw [laterLua, List.map_cons, String.join_cons, laterLua]

/-- The table made of the translations of the elements. -/
def lua (a : ArrayLiteral) : String := "\x7b" ++ a.first.lua ++ laterLua a.others ++ "\x7d"

end ArrayLiteral

/-- What is asked of an array. -/
inductive ArrayUse where
  | bare
  /-- `.length` -/
  | length
  /-- `.join(e)` -/
  | join (separator : Expr .expression)

namespace ArrayUse

def tokens : ArrayUse → List Token
  | bare => []
  | length => [.sign ".", .word "length"]
  | join e => .sign "." :: .word "join" :: .mark "(" :: (e.tokens ++ [.mark ")"])

/-- The answer in Lua, given the translation of the array. -/
def lua (operand : String) : ArrayUse → String
  | bare => operand
  | length => "#(" ++ operand ++ ")"
  | join e => "table.concat(" ++ operand ++ ", " ++ e.lua ++ ")"

def depth : ArrayUse → Nat
  | bare | length => 1
  | join e => e.depth + 2

end ArrayUse

/-! ### The last operand -/

namespace Expr

/-- The entries of the last operand of a tree right behind other text. -/
def lastBehind (front : Buffer) : Expr .simple → Buffer
  | negation e => e.lastOperand
  | binary _ _ right => right.lastOperand
  | e => e.writtenBehind front

/-- The entries in front of it. -/
def beforeLastBehind (front : Buffer) : Expr .simple → Buffer
  | negation e => front ++ ["not "] ++ e.beforeLast
  | binary sign left right => left.writtenBehind front ++ [" ", sign.lua, " "] ++ right.beforeLast
  | _ => []

theorem writtenBehind_eq (e : Expr .simple) (front : Buffer) :
    e.writtenBehind front = e.beforeLastBehind front ++ e.lastBehind front := by
  cases e with
  | negation e => simp [writtenBehind, beforeLastBehind, lastBehind, written, e.written_eq]
  | binary sign left right => simp [writtenBehind, beforeLastBehind, lastBehind, right.written_eq]
  | number | operand | length => rfl

theorem isOperand_lastBehind (e : Expr .simple) {front : Buffer} (operand : ∀ operatorsEnd, IsOperand operatorsEnd front)
    (operatorsEnd : Bool) : IsOperand operatorsEnd (e.lastBehind front) := by
  cases e with
  | number n => exact (operand operatorsEnd).append ((number n).isOperand_lastOperand rfl operatorsEnd)
  | operand p => exact p.isOperand_behind rfl operand
  | length p =>
    have grown : IsOperand true (p.writtenBehind front) := p.isOperand_behind rfl operand
    have paired := grown.paired
    rw [text_writtenBehind] at paired
    exact isOperand_lengthText paired operatorsEnd
  | negation e => exact e.isOperand_lastOperand rfl operatorsEnd
  | binary sign left right => exact right.isOperand_lastOperand rfl operatorsEnd

theorem ready_beforeLastBehind (e : Expr .simple) (front : Buffer) {out : Buffer} (ready : Ready true out) :
    Ready true (out ++ e.beforeLastBehind front) := by
  cases e with
  | number | operand | length => simpa [beforeLastBehind] using ready
  | negation e =>
    rw [beforeLastBehind, ← List.append_assoc, ← List.append_assoc]
    exact e.ready_beforeLast (.stop _ (.inl (by decide)))
  | binary sign left right =>
    have shape : out ++ (binary sign left right).beforeLastBehind front =
        out ++ left.writtenBehind front ++ [" ", sign.lua] ++ [" "] ++ right.beforeLast := by simp [beforeLastBehind]
    rw [shape]
    exact right.ready_beforeLast (.blank _)

end Expr

/-- What is written for the elements of an array, cut in front of the last operand. -/
structure Split where
  before : Buffer
  last : Buffer

namespace Split

def entries (s : Split) : Buffer := s.before ++ s.last

/-- The first element takes the brace in front of it to its first operand, or to its condition. -/
def start : Expr .expression → Split
  | .plain e => ⟨e.beforeLastBehind ["\x7b"], e.lastBehind ["\x7b"]⟩
  | .choice test yes no => ⟨[], [Expr.choiceText (test.luaBehind "\x7b") yes.lua no.lua]⟩

/-- A further element. -/
def add (s : Split) (e : Expr .expression) : Split := ⟨s.entries ++ [",", " "] ++ e.beforeLast, e.lastOperand⟩

/-- All elements of an array. -/
def ofArray (a : ArrayLiteral) : Split := a.others.foldl add (start a.first)

/-- The entries of an array and what is asked of it. -/
def written (s : Split) (use : ArrayUse) : Buffer := match use with
  | .bare => s.entries ++ ["\x7d"]
  | .length | .join _ => s.before ++ [use.lua (text s.last ++ "\x7d")]

/-- Their text. -/
def lua (s : Split) (use : ArrayUse) : String := text s.before ++ use.lua (text s.last ++ "\x7d")

theorem text_written (s : Split) (use : ArrayUse) : text (s.written use) = s.lua use := by
  cases use with
  | bare =>
    rw [written, entries, text_append, text_append, text_singleton, String.append_assoc]
    rfl
  | length | join => rw [written, text_append, text_singleton, lua]

theorem text_entries_foldl (others : List (Expr .expression)) (s : Split) :
    text (others.foldl add s).entries = text s.entries ++ ArrayLiteral.laterLua others := by
  induction others generalizing s with
  | nil => exact (String.append_empty).symm
  | cons e others ih =>
    have comma : text [",", " "] = ", " := rfl
    have item : text (s.add e).entries = text s.entries ++ (", " ++ e.lua) := by
      rw [add, entries, List.append_assoc, List.append_assoc, ← e.written_eq, text_append, text_append, e.text_written, comma]
    rw [List.foldl_cons, ih, item, ArrayLiteral.laterLua_cons, String.append_assoc]

/-- Behind `older` the last operand can be taken back. The brackets of all are closed, and what stands in front of the last
operand has a blank in it, if there is anything. -/
structure Sound (older : Buffer) (s : Split) : Prop where
  ready : Ready true (older ++ s.before)
  operand : ∀ operatorsEnd, IsOperand operatorsEnd s.last
  level : closedIn (text s.entries).toList = 0
  space : s.before = [] ∨ ' ' ∈ (text s.before).toList

variable {older : Buffer} {s : Split}

theorem Sound.add (h : s.Sound older) (e : Expr .expression) : (s.add e).Sound older where
  ready := by
    have shape : older ++ (s.add e).before = older ++ s.entries ++ [","] ++ [" "] ++ e.beforeLast := by simp [Split.add]
    rw [shape]
    exact e.ready_beforeLast (.blank _)
  operand := e.isOperand_lastOperand_expression
  level := by
    have shape : (s.add e).entries = s.entries ++ ([",", " "] ++ e.written) := by simp [Split.add, entries, e.written_eq]
    have comma : closedIn (text [",", " "]).toList = 0 := rfl
    rw [shape, text_append, text_append, e.text_written, String.toList_append, String.toList_append, closedIn_append,
      closedIn_append, h.level, comma, e.paired_lua.level]
    rfl
  space := by
    right
    rw [Split.add, text_append, text_append, String.toList_append, String.toList_append]
    exact List.mem_append_left _ (List.mem_append_right _ (by decide))

theorem Sound.foldl (h : s.Sound older) (others : List (Expr .expression)) : (others.foldl Split.add s).Sound older := by
  induction others generalizing s with
  | nil => exact h
  | cons e others ih => exact ih (h.add e)

/-- A brace is an operand, as the walk sees it. -/
theorem isOperand_brace {brace : String} (h : brace ∈ ["\x7b", "\x7d"]) (operatorsEnd : Bool) :
    IsOperand operatorsEnd [brace] := by
  have braces : ∀ brace ∈ ["\x7b", "\x7d"], ∀ operatorsEnd, isBoundary operatorsEnd brace = false ∧
      closedIn brace.toList = 0 ∧ isBlank brace = false ∧ startsMember brace = false ∧ startsOperand brace = true ∧
      endsSolid brace = true ∧ ∀ c ∈ brace.toList, c ∉ ['(', ')', '[', ']', '\n', '"'] := by decide
  obtain ⟨free, flat, solid, first, starts, ends, plain⟩ := braces brace h operatorsEnd
  constructor
  · exact .entry free flat solid first
  · exact starts
  · exact ends
  · rw [text_singleton]
    exact .flat plain

theorem opening : ∀ operatorsEnd, IsOperand operatorsEnd ["\x7b"] := isOperand_brace (by decide)

theorem sound_start (e : Expr .expression) (ready : Ready true older) : (start e).Sound older := by
  cases e with
  | plain e =>
    constructor
    · exact e.ready_beforeLastBehind _ ready
    · exact e.isOperand_lastBehind opening
    · have grown : IsOperand false (e.writtenBehind ["\x7b"]) := e.isOperand_behind rfl opening
      rw [start, entries, ← e.writtenBehind_eq]
      exact grown.paired.level
    · cases e with
      | number | operand | length => exact .inl rfl
      | negation e =>
        right
        rw [start, Expr.beforeLastBehind, text_append, text_append, String.toList_append, String.toList_append]
        exact List.mem_append_left _ (List.mem_append_right _ (by decide))
      | binary sign left right =>
        right
        rw [start, Expr.beforeLastBehind, text_append, text_append, String.toList_append, String.toList_append]
        refine List.mem_append_left _ (List.mem_append_right _ ?_)
        simp [Buffer.text]
  | choice test yes no =>
    have grown : IsOperand false (test.writtenBehind ["\x7b"]) := test.isOperand_behind rfl opening
    have paired := grown.paired
    rw [Expr.text_writtenBehind, text_singleton] at paired
    have called := Expr.called_choiceText paired yes.paired_lua no.paired_lua
    constructor
    · simpa [start] using ready
    · exact called.isOperand
    · exact (called.isOperand true).paired.level
    · exact .inl rfl

end Split

/-! ### The rules write it -/

/-- A square bracket that stands behind no operand opens a table. -/
theorem Rules.takes_table {r : Rules} {before before' ts rest : List Token} {out out' : Buffer} {loops : LoopState}
    (free : Cursor.operandIn false before = false)
    (inside : Walk r (·.atPunct ["]"]) 0 ⟨.mark "[" :: before, ts, out ++ ["\x7b"], loops⟩ 0
      ⟨before', .mark "]" :: rest, out', loops⟩) :
    Takes r.unit ⟨before, .mark "[" :: ts, out, loops⟩ () ⟨.mark "]" :: before', rest, out' ++ ["\x7d"], loops⟩ := by
  refine takes_mark_of_unit (arrow?_mark (by decide)) (Takes.cursor.bind (Takes.cursor.bind ((Takes.skip_one _).bind ?_)))
  refine .ite_neg (Bool.eq_false_iff.mp free) ?_
  exact (Takes.emit _).bind ((inside.takes_units (.inr rfl)).bind ((Takes.skipPunct_pos rfl).bind (.emit _)))

theorem calm_atBracket : Calm (·.atPunct ["]"]) := by
  intro before t rest quiet
  simp only [isQuiet, Bool.and_eq_true, Bool.not_eq_true'] at quiet
  obtain ⟨⟨⟨-, inside⟩, -⟩, -⟩ := quiet
  rw [isCloser, isPunct, Bool.and_eq_false_iff] at inside
  change t.isPunct ["]"] = false
  rw [isPunct, Bool.and_eq_false_iff]
  rcases inside with other | other
  · exact .inl other
  · right
    simp only [closers, List.contains_eq_mem, decide_eq_false_iff_not] at other ⊢
    exact fun mem => other (by simp_all)

namespace Split

variable {older : Buffer} {d : Nat} {loops : LoopState}

theorem exists_terminal (others : List (Expr .expression)) (rest : List Token) :
    ∃ t ts, ArrayLiteral.laterTokens others ++ Token.mark "]" :: rest = t :: ts ∧ Terminal t := by
  cases others with
  | nil | cons e others => exact ⟨_, _, rfl, by decide⟩

theorem walk_start (e : Expr .expression) (enough : e.depth ≤ d) (ready : Ready true older ∧ Ready false older)
    (before rest : List Token) {t : Token} (terminal : Terminal t) :
    Walk (Rules.within d) (·.atPunct ["]"]) 0 ⟨before, e.tokens ++ t :: rest, older ++ ["\x7b"], loops⟩ 0
      ⟨e.tokens.reverse ++ before, t :: rest, older ++ (start e).entries, loops⟩ := by
  have begun : e.writtenOn (older ++ ["\x7b"]) = older ++ (start e).entries := by
    cases e with
    | plain e =>
      rw [Expr.writtenOn, e.writtenOn_append rfl ready.1 opening, e.writtenBehind_eq]
      rfl
    | choice test yes no =>
      rw [Expr.writtenOn, test.writtenOn_append rfl ready.1 opening, wrapOperand,
        takeOperand_append ready.2 (test.isOperand_behind rfl opening) (List.forall_mem_singleton.mpr (by decide)),
        Expr.text_writtenBehind, text_singleton]
      rfl
  rw [← begun]
  exact e.reads_whole terminal rest _ d _ 0 before loops enough calm_atBracket (Int.le_refl 0)

/-- The elements behind the first one. Each of them stands behind a comma and a blank, where an expression begins. -/
theorem walk_later {others : List (Expr .expression)} (enough : ∀ e ∈ others, e.depth ≤ d) (before rest : List Token)
    (s : Split) :
    Walk (Rules.within d) (·.atPunct ["]"]) 0
      ⟨before, ArrayLiteral.laterTokens others ++ Token.mark "]" :: rest, older ++ s.entries, loops⟩ 0
      ⟨(ArrayLiteral.laterTokens others).reverse ++ before, .mark "]" :: rest, older ++ (others.foldl add s).entries, loops⟩ := by
  induction others generalizing before s with
  | nil => exact .done
  | cons e others ih =>
    obtain ⟨first, later⟩ := List.forall_mem_cons.mp enough
    obtain ⟨d, rfl⟩ := e.exists_succ first
    obtain ⟨t, ts, next, terminal⟩ := exists_terminal others rest
    have comma : Walk (Rules.within (d + 1)) (·.atPunct ["]"]) 0 ⟨before, .mark "," :: .blank :: (e.tokens ++ t :: ts),
        older ++ s.entries, loops⟩ 0 _ :=
      .single (Rules.takes_mark (by decide) (Rules.arrow?_mark (by decide))) rfl rfl rfl
    have element : Walk (Rules.within (d + 1)) (·.atPunct ["]"]) 0 ⟨.blank :: .mark "," :: before, e.tokens ++ t :: ts,
        older ++ s.entries ++ [","] ++ [" "], loops⟩ 0 _ :=
      ExpressionRuns.reads e.runs (.blank _) (.behind_blank (.stop _ (.inl (by decide)))) terminal ts _ _ 0 _ loops first
        calm_atBracket (Int.le_refl 0)
    have further := ih later (e.tokens.reverse ++ Token.blank :: .mark "," :: before) (s.add e)
    have shape : older ++ s.entries ++ [","] ++ [" "] ++ e.written = older ++ (s.add e).entries := by
      simp [add, entries, e.written_eq]
    rw [shape, ← next] at element
    rw [← next] at comma
    have walk := comma.trans ((Reads.blank.walk (Nat.le_add_left 1 d) calm_atBracket).trans (element.trans further))
    simpa [ArrayLiteral.laterTokens] using walk

/-- The last operand comes back with the closing brace. -/
theorem Sound.takeOperand {s : Split} (h : s.Sound older) :
    takeOperand (older ++ (s.entries ++ ["\x7d"])) true = (text s.last ++ "\x7d", older ++ s.before) := by
  have closing : IsOperand true ["\x7d"] := isOperand_brace (by decide) true
  have nothing : ∀ entry ∈ ([] : Buffer), isBlank entry = true := by simp
  have taken := takeOperand_append h.ready ((h.operand true).append closing) nothing
  rw [text_append, text_singleton] at taken
  simpa [entries] using taken

theorem reads_use {s : Split} (h : s.Sound older) (use : ArrayUse) (rest : List Token) :
    Reads 0 use.depth use.tokens rest (older ++ (s.entries ++ ["\x7d"])) (older ++ s.written use) := by
  cases use with
  | bare => exact .nil
  | length =>
    have table : Expr.lengthText (text s.last ++ "\x7d") = "#(" ++ (text s.last ++ "\x7d") ++ ")" := by
      rw [Expr.lengthText, if_neg]
      intro simple
      simp only [isSimpleOperand, Bool.and_eq_true, List.all_eq_true] at simple
      exact absurd (simple.2 '\x7d' (by simp)) (by decide)
    have length : Reads 0 1 [.sign ".", .word "length"] rest _ _ := reads_length h.takeOperand
    rwa [table, List.append_assoc] at length
  | join e =>
    have call : Reads 0 (e.depth + 2) (.sign "." :: .word "join" :: .mark "(" :: e.tokens ++ [.mark ")"]) rest _ _ :=
      reads_unaryCall .join e.runs h.takeOperand
    rwa [List.append_assoc] at call

end Split

namespace ArrayLiteral

theorem grouped_tokens (a : ArrayLiteral) : Grouped false a.tokens := by
  have later : Grouped true (laterTokens a.others) := by
    induction a.others with
    | nil => exact .nil
    | cons e others ih => exact .plain rfl (.plain rfl (e.grouped_tokens.inside.append ih))
  have elements : Grouped false (.mark "[" :: (a.first.tokens ++ laterTokens a.others) ++ [.mark "]"]) :=
    .group (by decide) (a.first.grouped_tokens.inside.append later) .nil
  simpa [tokens] using elements

theorem reads_assigned (a : ArrayLiteral) {d : Nat} (enough : ∀ e ∈ a.first :: a.others, e.depth ≤ d) (rest : List Token)
    (out : Buffer) :
    Reads 0 (d + 1) ([.blank, .sign "=", .blank] ++ a.tokens) rest out
      (out ++ [" "] ++ ["="] ++ [" "] ++ ((Split.ofArray a).entries ++ ["\x7d"])) := by
  intro d' stops k before loops deeper calm level
  obtain ⟨d', rfl⟩ : ∃ n, d' = n + 1 := ⟨d' - 1, by omega⟩
  have enough' : ∀ e ∈ a.first :: a.others, e.depth ≤ d' := fun e mem => Nat.le_trans (enough e mem) (by omega)
  obtain ⟨first, later⟩ := List.forall_mem_cons.mp enough'
  obtain ⟨t, ts, next, terminal⟩ := Split.exists_terminal a.others rest
  have start : Walk (Rules.within d') (·.atPunct ["]"]) 0 ⟨_, _, _, loops⟩ 0 _ := Split.walk_start a.first first
    ⟨.blank _, .behind_blank (.stop (e := "=") (out ++ [" "]) (.inl (by decide)))⟩
    (.mark "[" :: .blank :: .sign "=" :: .blank :: before) ts terminal
  rw [← next] at start
  have taken := Rules.takes_table rfl (start.trans (Split.walk_later later _ rest _))
  have equals : Walk (Rules.within (d' + 1)) stops k ⟨before, [.blank, .sign "=", .blank] ++ .mark "[" ::
      (a.first.tokens ++ (laterTokens a.others ++ Token.mark "]" :: rest)), out, loops⟩ k _ :=
    Reads.equals (d' + 1) stops k before loops (by omega) calm level
  have walk := equals.trans (.unit a.tokens taken (by simp [tokens]) (by simp [tokens]) rfl (fun _ => calm _ _ _ rfl)
      (by rw [a.grouped_tokens.bracketDepth_eq]))
  simpa [tokens, Split.ofArray] using walk

theorem legible_elements (others : List (Expr .expression)) (e : Expr .expression) {rest : List Token}
    (h : AlwaysLegible rest) : AlwaysLegible (e.tokens ++ (laterTokens others ++ Token.mark "]" :: rest)) := by
  induction others generalizing e with
  | nil => exact e.legible.before_mark h "]" rfl
  | cons e' others ih =>
    have later := e.legible.before_mark (e'.legible_blank rfl _ (ih e')) "," rfl
    simpa [laterTokens] using later

end ArrayLiteral

theorem ArrayUse.depth_le (use : ArrayUse) : use.depth ≤ use.tokens.length + 1 := by
  cases use with
  | bare => exact Nat.le_refl 1
  | length => exact Nat.le_add_left 1 2
  | join e =>
    have depth := e.depth_le
    simp only [ArrayUse.depth, tokens, List.length_cons, List.length_append, List.length_nil]
    omega

theorem ArrayUse.legible (use : ArrayUse) : AlwaysLegible (use.tokens ++ [Token.mark ";"]) := by
  have closing : AlwaysLegible [.mark ";"] := alwaysLegible_nil.mark ";" rfl
  cases use with
  | bare => exact closing
  | length => exact closing.member rfl rfl
  | join e =>
    have called : AlwaysLegible (.sign "." :: .word "join" :: .mark "(" :: (e.tokens ++ Token.mark ")" :: [.mark ";"])) :=
      ((e.legible.before_mark closing ")" rfl).mark "(" rfl).member rfl rfl
    simpa [tokens] using called

namespace ArrayLiteral

/-- The tokens of `x = [e₁, …, eₙ];`, with what is asked of the array. -/
def assigned (a : ArrayLiteral) (x : Identifier) (use : ArrayUse) : List Token :=
  (Lead.assign x).tokens ++ (a.tokens ++ (use.tokens ++ [.mark ";"]))

theorem legible_assigned (a : ArrayLiteral) (x : Identifier) (use : ArrayUse) : AlwaysLegible (a.assigned x use) := by
  refine (Lead.assign x).legible ?_ rfl
  have elements := (legible_elements a.others a.first use.legible).mark "[" rfl
  simpa [tokens] using elements

theorem depth_le (a : ArrayLiteral) : ∀ e ∈ a.first :: a.others, e.depth ≤ a.tokens.length := by
  have later : ∀ e ∈ a.others, e.tokens.length + 2 ≤ (laterTokens a.others).length := by
    intro e mem
    have inside : .mark "," :: .blank :: e.tokens ∈ a.others.map fun e => .mark "," :: .blank :: e.tokens :=
      List.mem_map_of_mem mem
    exact (List.sublist_flatten_of_mem inside).length_le
  have size : a.tokens.length = a.first.tokens.length + (laterTokens a.others).length + 2 := by simp [tokens]; omega
  intro e mem
  have depth := e.depth_le
  rcases List.mem_cons.mp mem with rfl | mem
  · omega
  · have := later e mem
    omega

theorem statements_assigned (a : ArrayLiteral) (x : Identifier) (use : ArrayUse) {d : Nat}
    (enough : ∀ e ∈ a.first :: a.others, e.depth ≤ d) (enough' : use.depth ≤ d + 1) (loops : LoopState) :
    ∃ before, Statements (Rules.within (d + 2)) ⟨[], a.assigned x use ++ [Token.eof], [], loops⟩
      ⟨before, [.eof], (Lead.assign x).written ++ (Split.ofArray a).written use, loops⟩ := by
  have sound : (Split.ofArray a).Sound ([x.text] ++ [" "] ++ ["="] ++ [" "]) := (Split.sound_start a.first (.blank _)).foldl a.others
  have body := (a.reads_assigned enough _ [x.text]).append ((Split.reads_use sound use (ending true ++ [Token.eof])).mono enough')
  rw [List.append_assoc] at body
  have split : a.assigned x use = (Lead.assign x).tokens ++ ((a.tokens ++ use.tokens) ++ ending true) := by
    simp [assigned, ending]
  rw [split]
  exact Sentence.statements_assigned x body loops

/-! ### Which text it is -/

/-- A call is no text behind closed brackets that holds a blank, if what is called holds none. -/
theorem call_ne_behind {callee inside front rest : String} (flat : ∀ c ∈ callee.toList, c ∉ [' ', '(', ')', '[', ']'])
    (closed : Paired inside) (level : closedIn front.toList = 0) (space : ' ' ∈ front.toList) (nonempty : rest ≠ "") :
    callee ++ "(" ++ inside ++ ")" ≠ front ++ rest := by
  intro same
  have chars : callee.toList ++ '(' :: (inside.toList ++ ')' :: []) = front.toList ++ rest.toList := by
    simpa using congrArg String.toList same
  have brackets : ∀ c ∈ callee.toList, c ∉ ['(', ')', '[', ']'] := fun c hc mem => flat c hc (List.mem_cons_of_mem _ mem)
  rcases length_front brackets closed.closes level chars with short | long
  · have within : front.toList <+: callee.toList := List.prefix_of_prefix_length_le ⟨rest.toList, chars.symm⟩ ⟨_, rfl⟩ short
    exact flat ' ' (within.subset space) List.mem_cons_self
  · have size := congrArg List.length chars
    have some : 0 < rest.toList.length := List.length_pos_iff.mpr (mt String.toList_eq_nil_iff.mp nonempty)
    simp only [List.length_append, List.length_cons, List.length_nil] at size
    omega

theorem paired_lua (a : ArrayLiteral) : Paired a.lua := by
  have later : ∀ others : List (Expr .expression), Paired (laterLua others) := by
    intro others
    induction others with
    | nil => exact .flat (by decide)
    | cons e others ih =>
      rw [laterLua_cons]
      exact (Paired.append (.flat (by decide)) e.paired_lua).append ih
  exact ((Paired.append (.flat (by decide)) a.first.paired_lua).append (later a.others)).append (.flat (by decide))

end ArrayLiteral

/-- What is asked of an array is a call, in Lua, with the array in its brackets. -/
theorem ArrayUse.exists_call {use : ArrayUse} (h : use ≠ .bare) :
    ∃ (callee : String) (inside : String → String), (∀ c ∈ callee.toList, c ∉ [' ', '(', ')', '[', ']']) ∧
      (∀ operand, use.lua operand = callee ++ "(" ++ inside operand ++ ")") ∧
      (∀ operand, Paired operand → Paired (inside operand)) ∧ ∀ operand operand', inside operand = inside operand' ↔ operand = operand' := by
  cases use with
  | bare => exact absurd rfl h
  | length =>
    have opening : ∀ operand, "#(" ++ operand ++ ")" = "#" ++ "(" ++ operand ++ ")" := fun _ => rfl
    exact ⟨"#", id, by decide, opening, fun _ paired => paired, fun _ _ => Iff.rfl⟩
  | join e =>
    refine ⟨"table.concat", (· ++ ", " ++ e.lua), by decide, fun operand => UnaryMethod.join.lua_eq operand e.lua, ?_, ?_⟩
    · intro operand paired
      exact paired.between e.paired_lua (by decide)
    · intro operand operand'
      rw [String.append_left_inj, String.append_left_inj]

namespace Split

/-- The first element leaves the brace where it is, unless a form is written around its first operand. -/
theorem text_start_iff (e : Expr .expression) :
    text (start e).entries = "\x7b" ++ e.lua ↔ e.isChoice = false ∧ e.takesBack = false := by
  have brace : text ["\x7b"] = "\x7b" := text_singleton _
  cases e with
  | plain e =>
    rw [start, entries, ← e.writtenBehind_eq, Expr.text_writtenBehind, Expr.lua, Expr.takesBack]
    cases back : e.takesBack with
    | false => simp [e.luaBehind_eq _ back rfl, brace, Expr.isChoice]
    | true =>
      have grown := e.luaBehind_ne back rfl opening
      rw [brace] at grown ⊢
      simp [grown]
  | choice test yes no =>
    have grown : IsOperand false (test.writtenBehind ["\x7b"]) := test.isOperand_behind rfl opening
    have paired := grown.paired
    rw [Expr.text_writtenBehind, brace] at paired
    have apart : Expr.choiceText (test.luaBehind "\x7b") yes.lua no.lua ≠ "\x7b" ++ Expr.choiceText test.lua yes.lua no.lua :=
      choiceText_ne paired yes.paired_lua no.paired_lua (by decide) (by decide)
    have whole : text (start (.choice test yes no)).entries = Expr.choiceText (test.luaBehind "\x7b") yes.lua no.lua :=
      text_singleton _
    rw [whole, Expr.lua]
    simp [apart, Expr.isChoice]

theorem text_ofArray_iff (a : ArrayLiteral) : text (ofArray a).entries = "\x7b" ++ a.first.lua ++ ArrayLiteral.laterLua a.others ↔
    a.first.isChoice = false ∧ a.first.takesBack = false := by
  rw [ofArray, text_entries_foldl, String.append_left_inj, text_start_iff]

/-- Nothing stands in front of the last operand only of an array of one operand. -/
theorem before_ofArray_iff (a : ArrayLiteral) : (ofArray a).before = [] ↔ a.others = [] ∧ a.first.beforeLast = [] := by
  obtain ⟨e, others⟩ := a
  rcases List.eq_nil_or_concat others with rfl | ⟨front, last, rfl⟩
  · cases e with
    | choice => simp [ofArray, start, Expr.beforeLast]
    | plain e => cases e <;> simp [ofArray, start, Expr.beforeLast, Expr.beforeLastBehind]
  · simp [ofArray, add]

/-- The array is translated as a table of its elements exactly if no form is written around the first operand of its first
element, and nothing is asked of it or it is of one operand. -/
theorem lua_ofArray_iff (a : ArrayLiteral) (use : ArrayUse) : (ofArray a).lua use = use.lua a.lua ↔
    a.first.isChoice = false ∧ a.first.takesBack = false ∧ (use = .bare ∨ a.others = [] ∧ a.first.beforeLast = []) := by
  have parts : text (ofArray a).before ++ text (ofArray a).last = text (ofArray a).entries := (text_append _ _).symm
  by_cases bare : use = .bare
  · subst bare
    change text (ofArray a).before ++ (text (ofArray a).last ++ "\x7d") = a.lua ↔ _
    rw [← String.append_assoc, parts, ArrayLiteral.lua, String.append_left_inj, text_ofArray_iff]
    simp
  · obtain ⟨callee, inside, flat, call, paired, inj⟩ := ArrayUse.exists_call bare
    rw [lua, call, call, ← before_ofArray_iff]
    by_cases nothing : (ofArray a).before = []
    · have empty : text (ofArray a).before = "" := by rw [nothing]; rfl
      rw [empty, String.empty_append] at parts
      rw [empty, String.empty_append, String.append_left_inj, String.append_right_inj, inj, parts, ArrayLiteral.lua,
        String.append_left_inj, text_ofArray_iff]
      simp [nothing]
    · have sound : (ofArray a).Sound [] := (sound_start a.first (.nil true)).foldl a.others
      have level : closedIn (text (ofArray a).before).toList = 0 := by
        have all := sound.level
        rw [← parts, String.toList_append, closedIn_append, (sound.operand true).paired.level] at all
        omega
      have apart : callee ++ "(" ++ inside a.lua ++ ")" ≠ text (ofArray a).before ++
          (callee ++ "(" ++ inside (text (ofArray a).last ++ "\x7d") ++ ")") :=
        ArrayLiteral.call_ne_behind flat (paired _ a.paired_lua) level (sound.space.resolve_left nothing) (by simp)
      constructor
      · intro same
        exact absurd same.symm apart
      · rintro ⟨-, -, found | found⟩
        · exact absurd found bare
        · exact absurd found nothing

end Split

/-- An array of expressions assigned to a name, with or without something asked of it. What is written for it is the text of
`Split.lua`, with the braces in the operands that take them, and there is nothing to report. It is the table of the elements,
each as it is translated where it is assigned alone, with what is asked of it around it, exactly if the first element is no
conditional, no form is written around its first operand, and nothing is asked of the array or it has one operand only. -/
theorem convertTokens_array (x : Identifier) (a : ArrayLiteral) (use : ArrayUse) (ledger : Ledger) :
    ∃ code ledger', convertTokens (tokenize (sourceText (a.assigned x use))) ledger = (.ok (x.text ++ " = " ++ code), ledger') ∧
      ledger'.diagnostics = ledger.diagnostics ∧ code = (Split.ofArray a).lua use ∧
      (∀ e ∈ a.first :: a.others, ∃ ledger', convertTokens
        (tokenize (sourceText ((Sentence.mk (.assign x) e).tokens ++ ending true))) ledger = (.ok (x.text ++ " = " ++ e.lua), ledger')) ∧
      (code = use.lua a.lua ↔ a.first.isChoice = false ∧ a.first.takesBack = false ∧
        (use = .bare ∨ a.others = [] ∧ a.first.beforeLast = [])) := by
  have depths : (∀ e ∈ a.first :: a.others, e.depth ≤ 2 * textSize (a.assigned x use ++ [.eof])) ∧
      use.depth ≤ 2 * textSize (a.assigned x use ++ [.eof]) + 1 := by
    have size := length_le_textSize (a.legible_assigned x use false)
    rw [textSize_append]
    simp only [ArrayLiteral.assigned, Lead.tokens, List.length_append, List.length_cons] at size ⊢
    constructor
    · intro e mem
      have := a.depth_le e mem
      omega
    · have := use.depth_le
      omega
  obtain ⟨before, run⟩ := a.statements_assigned x use depths.1 depths.2 ⟨ledger.labels, []⟩
  obtain ⟨ledger', converted, reported, -⟩ := run.convertTokens_readBack (.of_legible (a.legible_assigned x use))
  rw [text_append, (Lead.assign x).text_written, Split.text_written] at converted
  refine ⟨(Split.ofArray a).lua use, ledger', converted, reported, rfl, ?_, Split.lua_ofArray_iff a use⟩
  intro e _
  obtain ⟨ledger₁, alone, -⟩ := (Sentence.run ⟨.assign x, e⟩ true ledger.labels).convertTokens_readBack
    (.of_legible (Sentence.legible_ending ⟨.assign x, e⟩ true))
  rw [List.nil_append, Sentence.text_written] at alone
  exact ⟨ledger₁, alone⟩

/-- The brace of an array of two is in the length that is asked of it. -/
theorem convertTokens_array_length :
    (convertTokens (tokenize "y = [a, b].length;") {}).1 = .ok "y = \x7ba, #(b\x7d)" := by
  decide +kernel

end NoteScript

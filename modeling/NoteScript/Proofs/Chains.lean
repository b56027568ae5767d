import NoteScript.Proofs.Literals
import NoteScript.Proofs.Sentence

/-!
# Sums of names, numbers and strings

Lua has two operators for a plus sign: one adds numbers and one joins strings. A sum is read from the left, so that all that
is added behind a string is joined to it. The sign is chosen by what was written last and by the next token alone.

* `Summand`, `Chain`: names, numbers and strings, and an assignment of a sum of them.
* `Summand.besideString`, `Summand.behindString`: the signs that are written, and those of a sum that is read from the left.
* `convertTokens_chain`: the translation of a sum, and when the two are the same.
-/

namespace NoteScript

open Edit Buffer Text Token

/-! ### Operands -/

/-- An operand of a sum. -/
inductive Summand where
  | name (x : Name)
  | number (source : String) (isNumber : isNumberText source = true)
  | string (source : String) (isString : isStringText source = true)

namespace Summand

def token : Summand → Token
  | name x => x.token
  | number source _ => ⟨.number, source⟩
  | string source _ => ⟨.string, source⟩

def isString : Summand → Bool
  | string _ _ => true
  | _ => false

/-- The translation of an operand. -/
def lua : Summand → String
  | name x => x.lua
  | number source _ => source
  | string source _ => Literal.ofString source

theorem readBack (a : Summand) {rest : List Token} (h : ReadBack rest) {c : Char} (known : c ∈ [' ', ';'])
    (next : (rest.flatMap fun t => t.text.toList).head? = some c) : ReadBack (a.token :: rest) := by
  have ends : ∀ c ∈ [' ', ';'], continuesName c = false ∧ continuesNumber c = false := by decide
  cases a with
  | name x =>
    have legible : AlwaysLegible [x.token] := alwaysLegible_nil.word x.text x.isName rfl
    refine ReadBack.append h legible fun t ht => ?_
    cases ht
    rw [next]
    simp [Name.token, endsAt, ends c known]
  | number source isNumber => exact ReadBack.number isNumber h (by simp [next, ends c known])
  | string source isString => exact ReadBack.string isString h

theorem lua_starts (a : Summand) : startsSolid a.lua = true := by
  cases a with
  | name x => exact startsSolid_of_solid x.lua_ne_empty x.lua_solid
  | number source isNumber =>
    obtain ⟨c, head, inside⟩ := head_of_isNumberText isNumber
    simp [lua, startsSolid, head, isSpace_of_continuesNumber inside]
  | string source =>
    have chars : (Literal.ofString source).toList = _ := String.toList_ofList
    rw [lua, startsSolid, chars]
    rfl

/-- Of the translations of operands those of strings end in a quote. -/
theorem exists_last (a : Summand) : ∃ c, a.lua.toList.getLast? = some c ∧ isSpace c = false ∧ (c == '"') = a.isString := by
  cases a with
  | name x =>
    have quote : '"' ∉ x.lua.toList := by
      unfold Name.lua
      split
      all_goals first
        | decide
        | exact fun mem => absurd ((continuesName_of_isNameText x.isName).2 _ mem) (by decide)
    have present := mt String.toList_eq_nil_iff.mp x.lua_ne_empty
    refine ⟨_, List.getLast?_eq_some_getLast present, x.lua_solid _ (List.getLast_mem present), ?_⟩
    exact beq_eq_false_iff_ne.mpr fun same => quote (same ▸ List.getLast_mem present)
  | number source isNumber =>
    obtain ⟨c, last, inside⟩ := last_of_isNumberText isNumber
    refine ⟨c, last, isSpace_of_continuesNumber inside, ?_⟩
    exact beq_eq_false_iff_ne.mpr (ne_of_continuesNumber (by decide) inside).symm
  | string source =>
    have chars : (Literal.ofString source).toList = _ := String.toList_ofList
    exact ⟨'"', by rw [lua, chars, List.getLast?_concat], by decide, rfl⟩

/-- A blank in front of an operand ends there. -/
theorem endsAt_head (a : Summand) (rest : List Token) :
    Token.blank.endsAt ((a.token :: rest).flatMap fun t => t.text.toList).head? = true := by
  obtain ⟨c, head, solid⟩ : ∃ c, a.token.text.toList.head? = some c ∧ isSpace c = false := by
    cases a with
    | name x =>
      obtain ⟨nonempty, solid⟩ := solid_of_isNameText x.isName
      have present := mt String.toList_eq_nil_iff.mp nonempty
      exact ⟨_, List.head?_eq_some_head present, solid _ (List.head_mem present)⟩
    | number source isNumber =>
      obtain ⟨c, head, inside⟩ := head_of_isNumberText isNumber
      exact ⟨c, head, isSpace_of_continuesNumber inside⟩
    | string source isString =>
      obtain ⟨quote, cs, chars, known, -⟩ := exists_of_isStringText isString
      have quotes : ∀ quote ∈ ['\'', '"'], isSpace quote = false := by decide
      exact ⟨quote, by rw [token, chars, List.head?_cons], quotes quote known⟩
  rw [List.flatMap_cons, List.head?_append, head]
  simp [endsAt, isInlineSpace_of_isSpace solid]

/-- The sign between two operands. -/
def sign (joins : Bool) : String := if joins then ".." else "+"

section Reads

variable {rest : List Token} {out : Buffer}

theorem reads (a : Summand) (noArrow : (following rest).isOperator ["=>", "."] = false)
    (noCall : (following rest).isPunct ["("] = false) : Reads 0 1 [a.token] rest out (out ++ [a.lua]) := by
  cases a with
  | name x => exact .unit (fun _ _ _ _ => x.takes_unit noArrow noCall) rfl rfl
  | number source => exact .unit (fun _ _ _ _ => Rules.takes_number) rfl rfl
  | string source => exact .unit (fun _ _ _ _ => Rules.takes_string) rfl rfl

/-- A plus sign is a concatenation if a string stands right in front of it or behind it. -/
theorem plusSign_eq (a b : Summand) : Rules.plusSign (out ++ [a.lua] ++ [" "]).lastWritten b.token =
    sign (a.isString || b.isString) := by
  obtain ⟨c, last, solid, quoted⟩ := a.exists_last
  have ends : endsSolid a.lua = true := by simp [endsSolid, last, solid]
  -- the blank in front of the sign is passed over
  have newest : (out ++ [a.lua] ++ [" "]).lastWritten = a.lua := by
    have blank : isBlank " " = true := by decide
    simp [Buffer.lastWritten, blank, not_isBlank_of_endsSolid ends, strip_of_solid a.lua_starts ends]
  have closes : endsWith "\"" a.lua = a.isString := by
    have mark : "\"".toList = ['"'] := rfl
    obtain ⟨front, split⟩ := List.getLast?_eq_some_iff.mp last
    rw [endsWith, mark, split, ← quoted, List.isSuffixOf, List.reverse_append]
    simp [List.isPrefixOf, BEq.comm]
  have next : b.token.isStringLike = b.isString := by cases b <;> rfl
  rw [newest, Rules.plusSign, closes, next, sign]

end Reads

end Summand

/-! ### Sums -/

namespace Summand

/-- The text of further operands behind others, with a sign in front of each one. Whether it is that of a concatenation
is decided by the operands in front of it and the one behind it. -/
def weave (joins : List Summand → Summand → Bool) : List Summand → List Summand → String
  | _, [] => ""
  | earlier, a :: rest => " " ++ sign (joins earlier a) ++ " " ++ a.lua ++ weave joins (earlier ++ [a]) rest

/-- A string stands right in front of a sign or right behind it. -/
def besideString (earlier : List Summand) (a : Summand) : Bool := earlier.getLast?.any isString || a.isString

/-- A string stands anywhere in front of a sign or right behind it: what is added to a string is a string again. -/
def behindString (earlier : List Summand) (a : Summand) : Bool := earlier.any isString || a.isString

theorem besideString_concat (earlier : List Summand) (a b : Summand) :
    besideString (earlier ++ [a]) b = (a.isString || b.isString) := by
  rw [besideString, List.getLast?_concat, Option.any_some]

/-- The two differ where a string stands further in front. -/
theorem besideString_eq_iff (earlier : List Summand) (a b : Summand) :
    besideString (earlier ++ [a]) b = behindString (earlier ++ [a]) b ↔
      (earlier.any isString = true → a.isString = true ∨ b.isString = true) := by
  rw [besideString_concat, behindString, List.any_append, List.any_cons, List.any_nil, Bool.or_false, Bool.or_assoc,
    ← Bool.or_eq_true]
  generalize (a.isString || b.isString) = here
  cases earlier.any isString <;> simp

/-- The tokens of further operands. -/
def furtherTokens (others : List Summand) : List Token := others.flatMap fun a => [.blank, .sign "+", .blank, a.token]

def furtherWritten : Summand → List Summand → Buffer
  | _, [] => []
  | last, a :: rest => [" "] ++ [sign (last.isString || a.isString)] ++ [" "] ++ [a.lua] ++ furtherWritten a rest

theorem text_furtherWritten (earlier : List Summand) (last : Summand) (others : List Summand) :
    Buffer.text (furtherWritten last others) = weave besideString (earlier ++ [last]) others := by
  induction others generalizing earlier last with
  | nil => rfl
  | cons a others ih =>
    rw [furtherWritten, weave, besideString_concat, ← ih (earlier ++ [last]) a]
    simp only [text_append, text_singleton]

theorem weave_cons_inj {joins joins' : Bool} {front back back' : String}
    (same : " " ++ sign joins ++ " " ++ front ++ back = " " ++ sign joins' ++ " " ++ front ++ back') :
    joins = joins' ∧ back = back' := by
  cases joins <;> cases joins' <;> simp_all [sign, ← String.toList_inj]

/-- Two ways of writing the signs give the same text only if they agree on each sign. -/
theorem weave_eq_iff {joins joins' : List Summand → Summand → Bool} (earlier others : List Summand) :
    weave joins earlier others = weave joins' earlier others ↔ ∀ front a back, others = front ++ a :: back →
      joins (earlier ++ front) a = joins' (earlier ++ front) a := by
  induction others generalizing earlier with
  | nil => simp [weave]
  | cons b others ih =>
    rw [weave, weave]
    constructor
    · intro same front a back split
      obtain ⟨sign, later⟩ := weave_cons_inj same
      rcases List.cons_eq_append_iff.mp split with ⟨rfl, first⟩ | ⟨front', rfl, split'⟩
      · obtain ⟨rfl, -⟩ := List.cons.inj first
        simpa using sign
      · simpa using (ih (earlier ++ [b])).mp later front' a back split'
    · intro agree
      have sign : joins earlier b = joins' earlier b := by simpa using agree [] b others rfl
      have later : weave joins (earlier ++ [b]) others = weave joins' (earlier ++ [b]) others := by
        refine (ih _).mpr fun front a back split => ?_
        simpa using agree (b :: front) a back (by rw [split, List.cons_append])
      rw [sign, later]

theorem readBack_furtherTokens (others : List Summand) : ReadBack (furtherTokens others ++ ending true) ∧
    ∃ c ∈ [' ', ';'], ((furtherTokens others ++ ending true).flatMap fun t => t.text.toList).head? = some c := by
  induction others with
  | nil => exact ⟨.of_legible (alwaysLegible_nil.mark ";" rfl), ';', by decide, rfl⟩
  | cons a others ih =>
    obtain ⟨read, c, known, next⟩ := ih
    have plus : AlwaysLegible [.blank, .sign "+", .blank] := by
      intro divides
      cases divides <;> exact ⟨rfl, by rintro u ⟨⟩; rfl, rfl, by rintro u ⟨⟩; rfl, rfl, by rintro u ⟨⟩, trivial⟩
    have shape : furtherTokens (a :: others) ++ ending true =
        [Token.blank, .sign "+", .blank] ++ a.token :: (furtherTokens others ++ ending true) := by simp [furtherTokens]
    rw [shape]
    refine ⟨(a.readBack read known next).append plus fun t ht => ?_, ' ', by decide, rfl⟩
    cases ht
    exact a.endsAt_head _

variable {rest : List Token}

theorem following_furtherTokens (others : List Summand) (noArrow : (following rest).isOperator ["=>", "."] = false)
    (noCall : (following rest).isPunct ["("] = false) :
    (following (furtherTokens others ++ rest)).isOperator ["=>", "."] = false ∧
      (following (furtherTokens others ++ rest)).isPunct ["("] = false := by
  cases others with
  | nil => exact ⟨noArrow, noCall⟩
  | cons => exact ⟨rfl, rfl⟩

/-- Further operands are taken one after the other, and each sign sees the operands beside it. -/
theorem reads_further (others : List Summand) (noArrow : (following rest).isOperator ["=>", "."] = false)
    (noCall : (following rest).isPunct ["("] = false) (last : Summand) (out : Buffer) :
    Reads 0 1 (furtherTokens others) rest (out ++ [last.lua]) (out ++ [last.lua] ++ furtherWritten last others) := by
  -- the entry written last is that of the operand in front of the next sign
  induction others generalizing last out with
  | nil =>
    rw [furtherWritten, List.append_nil]
    exact .nil
  | cons a others ih =>
    obtain ⟨noArrow', noCall'⟩ := following_furtherTokens others noArrow noCall
    have plus : Reads 0 1 [.blank, .sign "+", .blank] (a.token :: (furtherTokens others ++ rest)) (out ++ [last.lua])
        (out ++ [last.lua] ++ [" "] ++ [sign (last.isString || a.isString)] ++ [" "]) := by
      refine .sign (by decide) ?_
      have next : following (.blank :: a.token :: (furtherTokens others ++ rest)) = a.token := by cases a <;> rfl
      rw [next, beq_self_eq_true, if_pos rfl]
      exact plusSign_eq last a
    have later := ih a (out ++ [last.lua] ++ [" "] ++ [sign (last.isString || a.isString)] ++ [" "])
    simpa [furtherTokens, furtherWritten] using Reads.append plus ((a.reads noArrow' noCall').append later)

end Summand

/-- `x = a + b + c;` -/
structure Chain where
  name : Identifier
  first : Summand
  others : List Summand

namespace Chain

open Summand

def operands (c : Chain) : List Summand := c.first :: c.others

def bodyTokens (c : Chain) : List Token := c.first.token :: furtherTokens c.others

def tokens (c : Chain) : List Token := (Lead.assign c.name).tokens ++ (c.bodyTokens ++ ending true)

/-- The text of the sum with its semicolon. -/
def line (c : Chain) : String := sourceText c.tokens

def written (c : Chain) : Buffer := (Lead.assign c.name).written ++ [c.first.lua] ++ furtherWritten c.first c.others

/-- The translation of the sum, given how its signs are written. -/
def lua (joins : List Summand → Summand → Bool) (c : Chain) : String :=
  c.name.text ++ " = " ++ c.first.lua ++ weave joins [c.first] c.others

theorem text_written (c : Chain) : Buffer.text c.written = c.lua besideString := by
  have further := text_furtherWritten [] c.first c.others
  rw [List.nil_append] at further
  rw [written, text_append, text_append, text_singleton, (Lead.assign c.name).text_written, further]
  rfl

theorem lua_eq_iff (c : Chain) : c.lua besideString = c.lua behindString ↔ ∀ front a b back,
    c.operands = front ++ a :: b :: back → front.any isString = true → a.isString = true ∨ b.isString = true := by
  rw [lua, lua, String.append_right_inj, weave_eq_iff]
  constructor
  · intro same front a b back split
    cases front with
    | nil => exact fun earlier => Bool.noConfusion earlier
    | cons first front =>
      obtain ⟨rfl, further⟩ := List.cons.inj split
      exact (besideString_eq_iff (c.first :: front) a b).mp (same (front ++ [a]) b back (by simp [further]))
  · intro neighbours front b back split
    rcases List.eq_nil_or_concat front with rfl | ⟨front, a, rfl⟩
    · exact (besideString_eq_iff [] c.first b).mpr fun earlier => Bool.noConfusion earlier
    · rw [List.concat_eq_append] at split ⊢
      exact (besideString_eq_iff (c.first :: front) a b).mpr (neighbours _ a b back (by simp [operands, split]))

theorem readBack (c : Chain) : ReadBack c.tokens := by
  obtain ⟨read, next, known, head⟩ := readBack_furtherTokens c.others
  have lead : AlwaysLegible ((Lead.assign c.name).tokens ++ []) := (Lead.assign c.name).legible alwaysLegible_nil rfl
  rw [List.append_nil] at lead
  refine (c.first.readBack read known head).append lead fun t ht => ?_
  cases ht
  exact c.first.endsAt_head _

theorem statements (c : Chain) (d : Nat) (loops : LoopState) :
    ∃ before, Statements (Rules.within (d + 2)) ⟨[], c.tokens ++ [Token.eof], [], loops⟩ ⟨before, [.eof], c.written, loops⟩ := by
  obtain ⟨noArrow, noCall⟩ := @following_furtherTokens (ending true ++ [Token.eof]) c.others rfl rfl
  have body := (c.first.reads noArrow noCall).append (reads_further c.others rfl rfl c.first (c.name.text :: [" ", "=", " "]))
  exact Sentence.statements_assigned c.name ((Reads.equals.append body).mono (Nat.le_add_left 1 d)) loops

end Chain

/-- A sum of names, numbers and strings is converted with the sign of a concatenation right in front of a string and right
behind one, and with a plus sign elsewhere. These are the signs by which all that is added to a string is joined to it exactly
if of two neighbours that follow a string one is a string. -/
theorem convertTokens_chain (c : Chain) (ledger : Ledger) :
    (∃ ledger', convertTokens (tokenize c.line) ledger = (.ok (c.lua Summand.besideString), ledger') ∧
      ledger'.diagnostics = ledger.diagnostics ∧ ledger'.labels = ledger.labels) ∧
      (c.lua Summand.besideString = c.lua Summand.behindString ↔ ∀ front a b back, c.operands = front ++ a :: b :: back →
        front.any (·.isString) = true → a.isString = true ∨ b.isString = true) := by
  obtain ⟨before, run⟩ := c.statements (2 * textSize (c.tokens ++ [.eof])) ⟨ledger.labels, []⟩
  have converted := run.convertTokens_readBack c.readBack
  rw [c.text_written] at converted
  exact ⟨converted, c.lua_eq_iff⟩

/-- A name behind a string and a name is added to it. -/
theorem convertTokens_string_and_names : (convertTokens (tokenize "y = \"a\" + b + c;") {}).1 = .ok "y = \"a\" .. b + c" := by
  decide +kernel

end NoteScript

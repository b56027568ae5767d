import NoteScript.Proofs.Clauses
import NoteScript.Proofs.Jumps
import NoteScript.Proofs.Script
import NoteScript.Proofs.Units

/-!
# Scripts are translated as trees

The rules work through tokens one by one and rework what they have written. On the tokens of a script this
comes to its translation as a tree.

* `Statement.Runs`, `Script.Runs`, `Branches.Runs`: what a run over the tokens of a tree does, from any place.
* `runs_assign`, `runs_branch`, …: one lemma for each form, from the runs of its parts.
* `convertTokens_script`: whole scripts. The words are those of the translation just in case no two
  statements touch, since the semicolon between them is dropped.
-/

namespace NoteScript

open Edit Buffer Token

variable {ts rest : List Token} {loops : LoopState} {ws : List String}

/-! ### Names -/

namespace Name

theorem lua_ne_empty (x : Name) : x.lua ≠ "" := by
  unfold lua
  split
  all_goals first
    | decide
    | exact (Token.solid_of_isNameText x.isName).1

theorem lua_solid (x : Name) : ∀ c ∈ x.lua.toList, Text.isSpace c = false := by
  unfold lua
  split
  all_goals first
    | decide
    | exact (Token.solid_of_isNameText x.isName).2

theorem solid_call (x : Name) {front : String} (solid : ∀ c ∈ front.toList, Text.isSpace c = false) :
    ∀ c ∈ (front ++ x.lua ++ ")").toList, Text.isSpace c = false := by
  have close : Text.isSpace ')' = false := by decide
  simpa [or_imp, forall_and, close] using And.intro solid x.lua_solid

theorem dense (x : Name) : Dense [x.lua] [x.lua] := .word x.lua_ne_empty x.lua_solid

theorem dense_between (x : Name) (first last : String) {front back : String} (opens : front = first ++ " ")
    (closes : back = " " ++ last) (starts : Text.startsSolid first = true) (ends : Text.endsSolid last = true) :
    Dense (Text.words first ++ x.lua :: Text.words last) [front ++ x.lua ++ back] :=
  .between first last opens closes starts ends x.lua_ne_empty x.lua_solid

/-- The translation of a name is that of the rules. -/
theorem lua_eq (x : Name) : (Rules.constant? x.text).getD (Rules.plainName x.text false) = x.lua := by
  unfold lua
  split
  iterate 5
    rename_i same
    rw [same]
    rfl
  have free := x.free
  have noConstant : Rules.constant? x.text = none := by
    unfold Rules.constant?
    split <;> simp_all [reservedWords]
  have asItIs : Rules.plainName x.text false = x.text := by
    unfold Rules.plainName
    split <;> simp_all
  rw [noConstant, asItIs, Option.getD_none]

theorem keyword?_eq_none (x : Name) (r : Rules) : r.keyword? x.text = none := by
  have free := x.free
  unfold Rules.keyword?
  split <;> simp_all [reservedWords]

variable {before rest : List Token} {out : Buffer} {loops : LoopState}

/-- A name is written as its translation, unless it is taken with a member behind it. -/
theorem takes_own (x : Name) {r : Rules} (noArrow : (following rest).isOperator ["=>"] = false)
    (noCall : (following rest).isPunct ["("] = false)
    (noGlobal : (Cursor.mk before (x.token :: rest) 0).member?.all (fun member => (r.global? x.text member.1).isNone) = true) :
    Takes r.unit ⟨before, x.token :: rest, out, loops⟩ () ⟨x.token :: before, rest, out ++ [x.lua], loops⟩ := by
  have lua := x.lua_eq
  rcases found : Rules.constant? x.text with _ | word
  · have plain : x.text ∉ Rules.prefixNames := by
      intro reserved
      have all : ∀ text ∈ Rules.prefixNames, text ∈ reservedWords := by decide
      exact x.free (all x.text reserved)
    have taken : Takes r.unit ⟨before, x.token :: rest, out, loops⟩ ()
        ⟨x.token :: before, rest, out ++ [Rules.plainName x.text ((following rest).isPunct ["("])], loops⟩ :=
      Rules.takes_ownName found plain noArrow noGlobal
    rwa [noCall, show Rules.plainName x.text false = x.lua from by rw [← lua, found, Option.getD_none]] at taken
  · rw [found, Option.getD_some] at lua
    rw [← lua]
    exact Rules.takes_constant found noArrow

theorem takes_unit (x : Name) {r : Rules} (noArrow : (following rest).isOperator ["=>", "."] = false)
    (noCall : (following rest).isPunct ["("] = false) :
    Takes r.unit ⟨before, x.token :: rest, out, loops⟩ () ⟨x.token :: before, rest, out ++ [x.lua], loops⟩ := by
  have arrow : (following rest).isOperator ["=>"] = false := by
    simp_all [isOperator]
  have point : (following rest).isOperator ["."] = false := by simp_all [isOperator]
  exact x.takes_own arrow noCall (by rw [Rules.member?_eq_none point, Option.all_none])

end Name

namespace Rules

variable {r : Rules} {s' : Spot} {before before' rest rest' : List Token} {out out' : Buffer} {loops loops' : LoopState}

/-! ### Simple statements -/

/-- A statement that starts with a keyword is taken by the rule for it. -/
theorem takes_keyword {text : String} {rule : Edit Unit} (found : r.keyword? text = some rule)
    (taken : Takes rule ⟨before, .word text :: rest, out, loops⟩ () s') :
    Takes r.anyStatement ⟨before, .word text :: rest, out, loops⟩ () s' := by
  refine Takes.cursor.bind ?_
  simp only [Spot.current_mk, found, Option.getD_some]
  exact taken

theorem takes_plainStatement (x : Name)
    (taken : Takes (r.expressionStatement false) ⟨before, x.token :: rest, out, loops⟩ () s') :
    Takes r.anyStatement ⟨before, x.token :: rest, out, loops⟩ () s' := by
  refine Takes.cursor.bind ?_
  simp only [Spot.current_mk, Name.token, x.keyword?_eq_none, Option.getD_none]
  exact Takes.markStatement.bind taken

theorem walk_name (x : Name) (noArrow : (following rest).isOperator ["=>", "."] = false)
    (noCall : (following rest).isPunct ["("] = false) :
    Walk r.next (endsStatement false) 0 ⟨before, x.token :: rest, out, loops⟩ 0
      ⟨x.token :: before, rest, out ++ [x.lua], loops⟩ :=
  .single (x.takes_unit noArrow noCall) rfl rfl rfl

theorem walk_blank : Walk r.next (endsStatement false) 0 ⟨before, .blank :: rest, out, loops⟩ 0
    ⟨.blank :: before, rest, out ++ [" "], loops⟩ :=
  .single (takes_trivia rfl) rfl rfl rfl

theorem takes_expressionStatement {s : Spot}
    (walk : Walk r (endsStatement false) 0 s 0 ⟨before', .mark ";" :: rest', out', loops'⟩) :
    Takes (r.expressionStatement false) s () ⟨.mark ";" :: before', rest', out', loops'⟩ :=
  (walk.takes_units (.inr rfl)).bind (.skipPunct_pos rfl)

theorem takes_assign (x y : Name) : Takes r.next.anyStatement
      ⟨before, x.token :: .blank :: .sign "=" :: .blank :: y.token :: .mark ";" :: rest, out, loops⟩ ()
      ⟨.mark ";" :: y.token :: .blank :: .sign "=" :: .blank :: x.token :: before, rest,
        out ++ [x.lua, " ", "=", " ", y.lua], loops⟩ := by
  have entries : out ++ [x.lua, " ", "=", " ", y.lua] = out ++ [x.lua] ++ [" "] ++ ["="] ++ [" "] ++ [y.lua] := by
    simp
  rw [entries]
  refine takes_plainStatement x (takes_expressionStatement ?_)
  refine (walk_name x rfl rfl).trans (walk_blank.trans (Walk.trans ?_ (walk_blank.trans (walk_name y rfl rfl))))
  exact .single (takes_binary (by decide) rfl fun spaces => absurd spaces (by decide)) rfl rfl rfl

theorem takes_giveBack (x : Name) :
    Takes r.next.anyStatement ⟨before, .word "return" :: .blank :: x.token :: .mark ";" :: rest, out, loops⟩ ()
      ⟨.mark ";" :: x.token :: .blank :: .word "return" :: before, rest, out ++ ["return", " ", x.lua], loops⟩ := by
  have entries : out ++ ["return", " ", x.lua] = out ++ ["return"] ++ [" "] ++ [x.lua] := by simp
  rw [entries]
  refine takes_keyword rfl ((Takes.skip_one _).bind ((Takes.emit "return").bind ?_))
  refine (Takes.skipSpace [.blank] rfl rfl).bind (Takes.cursor.bind ?_)
  exact (Takes.emit " ").bind (takes_expressionStatement (walk_name x rfl rfl))

theorem takes_leave : Takes r.anyStatement ⟨before, .word "break" :: .mark ";" :: rest, out, loops⟩ ()
      ⟨.mark ";" :: .word "break" :: before, rest, out ++ ["break"], loops⟩ := by
  refine takes_keyword rfl ((Takes.skip_one _).bind ((Takes.emit "break").bind ?_))
  exact (Takes.skipSpace [] rfl rfl).bind (.skipPunct_pos rfl)

/-- A jump to the end of a pass marks the loop around it. -/
theorem takes_again {label : String} {continued : Bool} {count : Nat} {outer : List Enclosure} : Takes r.anyStatement
      ⟨before, .word "continue" :: .mark ";" :: rest, out, count, .loop label continued :: outer⟩ ()
      ⟨.mark ";" :: .word "continue" :: before, rest, out ++ ["goto " ++ label], count, .loop label true :: outer⟩ := by
  have ended : Takes passEnd
      ⟨.word "continue" :: before, .mark ";" :: rest, out ++ ["goto " ++ label], count, .loop label true :: outer⟩ ()
      ⟨.mark ";" :: .word "continue" :: before, rest, out ++ ["goto " ++ label], count, .loop label true :: outer⟩ :=
    (Takes.skipSpace [] rfl rfl).bind (.skipPunct_pos rfl)
  refine takes_keyword rfl fun d start journal => ?_
  obtain ⟨start', journal', run⟩ := ended d start (journal ++ [.jumped label])
  refine ⟨start', journal', ?_⟩
  rw [continueStatement_loop rfl]
  exact run

/-! ### Values -/

/-- The value of a name, with or without a blank in front of it. -/
theorem takes_value (x : Name) (lead : List Token) (blank : lead = [] ∨ lead = [.blank]) :
    Takes (r.next.next.value (lead ++ [x.token])) ⟨before, rest, out, loops⟩ x.lua ⟨before, rest, out, loops⟩ := by
  have statement : ∀ before out, Statements r.next.next ⟨before, [x.token, .eof], out, loops⟩
      ⟨x.token :: before, [.eof], out ++ [x.lua], loops⟩ := by
    intro before out
    refine .step [x.token] rfl rfl (takes_plainStatement x ?_) rfl rfl (List.cons_ne_nil _ _) .done
    exact ((walk_name x rfl rfl).takes_units (.inl rfl)).bind (.skipPunct_neg rfl)
  have starts := Text.startsSolid_of_solid x.lua_ne_empty x.lua_solid
  have ends := Text.endsSolid_of_solid x.lua_ne_empty x.lua_solid
  rcases blank with rfl | rfl
  · have value : Takes (r.next.next.value [x.token]) ⟨before, rest, out, loops⟩ (Text.strip (text [x.lua]))
        ⟨before, rest, out, loops⟩ := (statement [] []).takes_value rfl
    rwa [text_singleton, Text.strip_of_solid starts ends] at value
  · have run : Statements r.next.next ⟨[], [Token.blank] ++ [x.token] ++ [Token.eof], [], loops⟩ _ :=
      .step [.blank] rfl rfl (takes_triviaStatement rfl) rfl rfl (List.cons_ne_nil _ _)
        (statement [.blank] [" "])
    have value : Takes (r.next.next.value ([Token.blank] ++ [x.token])) ⟨before, rest, out, loops⟩
        (Text.strip (text ([" "] ++ [x.lua]))) ⟨before, rest, out, loops⟩ := run.takes_value rfl
    have strip : Text.strip (" " ++ x.lua ++ "") = x.lua := Text.strip_between (by decide) starts ends (by decide)
    rwa [text_append, text_singleton, text_singleton, ← String.append_empty (s := " " ++ x.lua), strip] at value

theorem takes_arguments {inside : List Token} (flat : ∀ t ∈ inside, t.kind = .identifier ∨ t.kind = .space) :
    Takes arguments ⟨before, .mark "(" :: (inside ++ Token.mark ")" :: rest), out, loops⟩ inside
      ⟨.mark ")" :: (inside.reverse ++ Token.mark "(" :: before), rest, out, loops⟩ := by
  refine .arguments (.flat fun t ht => ?_)
  rcases flat t ht with kind | kind <;> simp [isEof, isPunct, kind]

theorem takes_condition (x : Name) : Takes r.next.next.condition ⟨before, x.condition ++ rest, out, loops⟩ x.lua
      ⟨x.condition.reverse ++ before, rest, out, loops⟩ := by
  have inside : ∀ t ∈ [x.token], t.kind = .identifier ∨ t.kind = .space := by simp [Name.token]
  refine (Takes.skipTrivia [.blank] rfl rfl).bind ?_
  exact (takes_arguments inside).bind (takes_value x [] (.inl rfl))

end Rules

/-! ### What a run does -/

/-- Inside a loop, that loop is the innermost enclosure. -/
def Around (inLoop : Bool) (target : Nat) (enclosures : List Enclosure) : Prop :=
  inLoop = true → ∃ continued outer, enclosures = .loop (loopLabel target) continued :: outer

theorem Around.marked {inLoop : Bool} {target : Nat} {enclosures : List Enclosure}
    (h : Around inLoop target enclosures) (jumped : Bool) :
    Around inLoop target (Enclosure.marked jumped enclosures) := by
  intro inside
  obtain ⟨continued, outer, rfl⟩ := h inside
  exact ⟨continued || jumped, outer, rfl⟩

mutual

/-- The depth of the rules that a statement needs. -/
def Statement.depth {inLoop : Bool} : Statement inLoop → Nat
  | .assign .. | .giveBack _ | .leave | .again => 2
  | .branch _ _ body others => max body.depth others.depth + 1
  | .loopWhile _ _ body | .loopUntil _ body _ _ | .loopOver _ _ _ _ body => body.depth + 1

/-- The depth of the rules that a script needs. -/
def Script.depth {inLoop : Bool} : Script inLoop → Nat
  | .last _ => 2
  | .more _ first rest => max first.depth rest.depth

/-- The depth of the rules that further branches need. -/
def Branches.depth {inLoop : Bool} : Branches inLoop → Nat
  | .none => 2
  | .otherwise _ _ body => body.depth
  | .elseIf _ _ _ body others => max body.depth others.depth

end

/-- The white space that a script starts with, as it is written. -/
def Script.lead {inLoop : Bool} : Script inLoop → Buffer
  | .last gap | .more gap _ _ => gap.tokens.map (·.text)

/-- From any place in front of a statement the rules take its tokens, write its words and count its loops. -/
def Statement.Runs {inLoop : Bool} (s : Statement inLoop) : Prop :=
  ∀ (depth count target : Nat) (enclosures : List Enclosure) (before rest : List Token) (out : Buffer),
    s.depth ≤ depth → Around inLoop target enclosures → (following rest).isWord "else" = false →
    ∃ es, Takes (Rules.within depth).statement ⟨before, s.tokens ++ rest, out, count, enclosures⟩ ()
        ⟨s.tokens.reverse ++ before, rest, out ++ es, count + s.loops, Enclosure.marked s.continues enclosures⟩ ∧
      Dense (s.words true count target) es

/-- The same for a script, statement after statement. -/
def Script.Runs {inLoop : Bool} (b : Script inLoop) : Prop :=
  ∀ (depth count target : Nat) (enclosures : List Enclosure) (before rest : List Token) (out : Buffer),
    b.depth ≤ depth → Around inLoop target enclosures → (following rest).isWord "else" = false →
    ∃ es, Statements (Rules.within depth) ⟨before, b.tokens ++ rest, out, count, enclosures⟩
        ⟨b.tokens.reverse ++ before, rest, out ++ es, count + b.loops, Enclosure.marked b.continues enclosures⟩ ∧
      Laid b.lead (b.words true count target) es

/-- The same for further branches, behind what was written for the branches before them. -/
def Branches.Runs {inLoop : Bool} (others : Branches inLoop) : Prop :=
  ∀ (depth count target limit : Nat) (enclosures : List Enclosure) (before rest : List Token) (out es : Buffer)
    (ws : List String), others.depth ≤ depth → Around inLoop target enclosures →
    (following rest).isWord "else" = false → others.tokens.length ≤ limit → Loose ws es →
    ∃ es', Takes ((Rules.within depth).elseBranches out.length limit)
        ⟨before, others.tokens ++ rest, out ++ es, count, enclosures⟩ ()
        ⟨others.tokens.reverse ++ before, rest, out ++ es', count + others.loops, Enclosure.marked others.continues enclosures⟩ ∧
      Loose (ws ++ others.words true count target) es'

/-! ### Scripts -/

theorem Gap.isTrivia_of_mem (gap : Gap) : ∀ t ∈ gap.tokens, t.isTrivia = true := by
  intro t ht
  rcases (gap.blank_of_mem t ht).1 with kind | kind <;> simp [isTrivia, kind]

theorem Gap.following_append (gap : Gap) (rest : List Token) : following (gap.tokens ++ rest) = following rest := by
  rw [following, List.dropWhile_append_of_pos gap.isTrivia_of_mem, following]

theorem Gap.blank_entries (gap : Gap) : Blank (gap.tokens.map (·.text)) := by
  intro e he
  obtain ⟨t, ht, rfl⟩ := List.mem_map.mp he
  exact (gap.blank_of_mem t ht).2

theorem Gap.tokens_ne_nil {gap : Gap} (h : gap ≠ []) : gap.tokens ≠ [] := by
  have added : ∀ c ts, Token.addSpace c ts ≠ [] := by
    intro c ts
    unfold addSpace
    split <;> simp
  rcases gap with _ | ⟨_ | _ | _ | _, gap⟩
  · exact absurd rfl h
  all_goals first | exact added _ _ | simp [Gap.tokens]

/-- White space and comments between statements are taken one by one. -/
theorem statements_trivia {r : Rules} (trivia : ∀ t ∈ ts, t.isTrivia = true) (before : List Token) (out : Buffer) :
    Statements r.next ⟨before, ts ++ rest, out, loops⟩ ⟨ts.reverse ++ before, rest, ts.foldl addTrivia out, loops⟩ := by
  induction ts generalizing before out with
  | nil => simpa using Statements.done
  | cons t ts ih =>
    obtain ⟨first, later⟩ := List.forall_mem_cons.mp trivia
    have further := ih later (t :: before) (out.addTrivia t)
    have inside : t.isEof = false ∧ t.isPunct ["\x7d"] = false := by
      rcases kind_of_isTrivia first with kind | kind | kind <;> simp [isEof, isPunct, kind]
    rw [List.reverse_cons, List.append_assoc, List.singleton_append, List.foldl_cons]
    exact .step [t] inside.1 inside.2 (Rules.takes_triviaStatement first) rfl rfl (List.cons_ne_nil _ _) further

theorem foldl_addTrivia (blank : ∀ t ∈ ts, t.kind = .space ∨ t.kind = .newline) (out : Buffer) :
    ts.foldl addTrivia out = out ++ ts.map (·.text) := by
  induction ts generalizing out with
  | nil => simp
  | cons t ts ih =>
    obtain ⟨first, later⟩ := List.forall_mem_cons.mp blank
    rw [List.foldl_cons, addTrivia_blank out first, ih later]
    simp

/-- White space between statements is written as it is. -/
theorem statements_blank {r : Rules}
    (blank : ∀ t ∈ ts, t.kind = .space ∨ t.kind = .newline) (before : List Token) (out : Buffer) :
    Statements r.next ⟨before, ts ++ rest, out, loops⟩
      ⟨ts.reverse ++ before, rest, out ++ ts.map (·.text), loops⟩ := by
  rw [← foldl_addTrivia blank]
  refine statements_trivia (fun t ht => ?_) before out
  rcases blank t ht with kind | kind <;> simp [isTrivia, kind]

namespace Script

variable {inLoop : Bool}

theorem following_append (b : Script inLoop) {rest : List Token} (h : (following rest).isWord "else" = false) :
    (following (b.tokens ++ rest)).isWord "else" = false := by
  cases b with
  | last gap => rwa [Script.tokens, gap.following_append]
  | more gap first others =>
    obtain ⟨text, tail, tokens, other⟩ := first.head_tokens
    rw [Script.tokens, List.append_assoc, List.append_assoc, gap.following_append, tokens, List.cons_append, following_cons _ rfl]
    simpa [isWord] using other

theorem two_le_depth : {inLoop : Bool} → (b : Script inLoop) → 2 ≤ b.depth
  | _, .last _ => Nat.le_refl 2
  | _, .more _ _ rest => rest.two_le_depth.trans (Nat.le_max_right _ _)

/-- What contains a script needs one depth more. -/
theorem exists_depth (b : Script inLoop) {depth : Nat} (enough : b.depth + 1 ≤ depth) : ∃ d, depth = d + 3 ∧ b.depth ≤ d + 2 := by
  have two := b.two_le_depth
  exact ⟨depth - 3, by omega, by omega⟩

theorem runs_last (gap : Gap) : (Script.last gap : Script inLoop).Runs := by
  intro depth count target enclosures before rest out enough _ _
  obtain ⟨depth, rfl⟩ := Nat.exists_eq_add_of_le' (enough : 2 ≤ depth)
  have run : Statements (Rules.within (depth + 1)).next ⟨before, gap.tokens ++ rest, out, count, enclosures⟩ _ :=
    statements_blank (fun t ht => (gap.blank_of_mem t ht).1) before out
  refine ⟨gap.tokens.map (·.text), ?_, [], [], by simp [Script.lead], gap.blank_entries, by simp [Blank], .inl ⟨rfl, rfl⟩⟩
  rw [Script.continues, Enclosure.marked_false]
  exact run

/-- A script that starts with a statement has words and no white space in front. -/
theorem lead_of_touches {b : Script inLoop} (h : b.touches = true) : b.lead = [] := by
  rcases b with gap | ⟨_ | ⟨_, _⟩, _, _⟩
  · cases h
  · rfl
  · cases h

theorem apart_of_touches {b : Script inLoop} (h : b.touches = false) (glues : Bool) (count target : Nat) :
    b.lead ≠ [] ∨ b.words glues count target = [] := by
  rcases b with gap | ⟨_ | ⟨space, gap⟩, first, rest⟩
  · exact .inr rfl
  · cases h
  · refine .inl fun empty => ?_
    have entries : (Gap.tokens (space :: gap)).map (·.text) = [] := empty
    exact Gap.tokens_ne_nil (List.cons_ne_nil space gap) (List.map_eq_nil_iff.mp entries)

theorem runs_more (gap : Gap) {first : Statement inLoop} {others : Script inLoop} (single : first.Runs)
    (further : others.Runs) : (Script.more gap first others).Runs := by
  intro depth count target enclosures before rest out enough around ends
  obtain ⟨enough, enough'⟩ := Nat.max_le.mp enough
  obtain ⟨depth, rfl⟩ : ∃ d, depth = d + 1 := ⟨depth - 1, by have := others.two_le_depth; omega⟩
  have blanks : Statements (Rules.within (depth + 1))
      ⟨before, gap.tokens ++ (first.tokens ++ (others.tokens ++ rest)), out, count, enclosures⟩ _ :=
    statements_blank (fun t ht => (gap.blank_of_mem t ht).1) before out
  obtain ⟨es, statement, dense⟩ := single (depth + 1) count target enclosures (gap.tokens.reverse ++ before)
    (others.tokens ++ rest) (out ++ gap.tokens.map (·.text)) enough around (others.following_append ends)
  obtain ⟨es', later, laid⟩ := further (depth + 1) (count + first.loops) target _
    (first.tokens.reverse ++ (gap.tokens.reverse ++ before)) rest (out ++ gap.tokens.map (·.text) ++ es) enough'
    (around.marked first.continues) ends
  obtain ⟨text, tail, tokens, _⟩ := first.head_tokens
  have step : Statements (Rules.within (depth + 1)) _ _ :=
    .step first.tokens (by rw [tokens]; rfl) (by rw [tokens]; rfl) statement rfl rfl (by rw [tokens]; simp) later
  refine ⟨gap.tokens.map (·.text) ++ es ++ es', ?_, ?_⟩
  · have run := blanks.trans step
    rw [Enclosure.marked_marked] at run
    simpa [Script.tokens, Script.loops, Script.continues, Nat.add_assoc] using run
  · rw [Script.words, Bool.true_and]
    by_cases touches : others.touches = true
    · rw [if_pos touches]
      rw [lead_of_touches touches] at laid
      exact laid.cons_glue gap.blank_entries dense (Script.words_ne_nil touches _ _ _)
    · rw [if_neg touches]
      exact laid.cons gap.blank_entries dense (apart_of_touches (by simpa using touches) _ _ _)

/-- A script in braces, as the body of a branch or a loop. -/
theorem Runs.takes_body {b : Script inLoop} (runs : b.Runs) (gap : Gap) {depth target : Nat}
    (enough : b.depth ≤ depth) {enclosures : List Enclosure} (around : Around inLoop target enclosures) (count : Nat)
    (before rest : List Token) (out : Buffer) :
    ∃ es, Takes (Rules.within depth).body
        ⟨before, gap.tokens ++ Token.mark "\x7b" :: (b.tokens ++ Token.mark "\x7d" :: rest), out, count, enclosures⟩ ()
        ⟨.mark "\x7d" :: (b.tokens.reverse ++ Token.mark "\x7b" :: (gap.tokens.reverse ++ before)), rest, out ++ es,
          count + b.loops, Enclosure.marked b.continues enclosures⟩ ∧
      Body (b.words true count target) es := by
  obtain ⟨es, run, laid⟩ := runs depth count target enclosures (.mark "\x7b" :: (gap.tokens.reverse ++ before))
    (.mark "\x7d" :: rest) out enough around rfl
  obtain ⟨es', separated, body⟩ := laid.exists_separateAt out
  refine ⟨es', ?_, body⟩
  refine (Takes.skipTrivia gap.tokens rfl (List.all_eq_true.mpr gap.isTrivia_of_mem)).bind (Takes.mark.bind (Takes.cursor.bind (.ite_pos rfl ?_)))
  rw [← separated]
  exact (run.takes_block rfl rfl).bind (.rework _)

theorem words_ne_nil_of_continues {b : Script inLoop} (h : b.continues = true) (glues : Bool) (count target : Nat) :
    b.words glues count target ≠ [] := by
  cases b with
  | last => cases h
  | more gap first rest => exact words_more_ne_nil gap first rest glues count target

end Script

/-! ### Loops -/

theorem loopLabel_solid (label : Nat) : ∀ c ∈ (loopLabel label).toList, Text.isSpace c = false := by
  intro c hc
  have chars : (loopLabel label).toList = "continue_".toList ++ Nat.toDigits 10 label := by
    simp [loopLabel]
    rfl
  rw [chars] at hc
  have front : ∀ c ∈ "continue_".toList, Text.isSpace c = false := by decide
  rcases List.mem_append.mp hc with hc | hc
  · exact front c hc
  · exact isSpace_of_continuesName (continuesName_of_isDigit (Nat.isDigit_of_mem_toDigits (by decide) (by decide) hc))

/-- A keyword that closes what was written since a mark. -/
theorem takes_clause (out : Buffer) {es : Buffer} (loose : Loose ws es) {keyword : String}
    (ends : Text.endsSolid keyword = true) :
    ∃ es', (∀ before rest loops, Takes (Rules.clause out.length keyword) ⟨before, rest, out ++ es, loops⟩ ()
        ⟨before, rest, out ++ es', loops⟩) ∧ Dense (ws ++ Text.words keyword) es' := by
  obtain ⟨es', reworked, dense⟩ := loose.exists_emitClause out ends
  refine ⟨es', fun before rest loops => ?_, dense⟩
  rw [← reworked]
  exact .rework _

/-- The body of a loop behind its head. It is wrapped if it jumps to its end. -/
theorem Script.Runs.takes_loop {b : Script true} (runs : b.Runs) (gap : Gap) {depth : Nat} (enough : b.depth ≤ depth)
    {head : String} (dense : Dense ws [head]) (count : Nat) (enclosures : List Enclosure)
    (before rest : List Token) (out : Buffer) :
    ∃ es, Takes ((Rules.within depth).loop head)
        ⟨before, gap.tokens ++ Token.mark "\x7b" :: (b.tokens ++ Token.mark "\x7d" :: rest), out, count, enclosures⟩
        (loopLabel (count + 1))
        ⟨.mark "\x7d" :: (b.tokens.reverse ++ Token.mark "\x7b" :: (gap.tokens.reverse ++ before)), rest, out ++ es,
          count + (b.loops + 1), enclosures⟩ ∧
      Loose (ws ++ labelled b.continues (count + 1) (b.words true (count + 1) (count + 1))) es := by
  obtain ⟨es, inner, body⟩ := runs.takes_body gap enough (fun _ => ⟨false, enclosures, rfl⟩) (count + 1) before rest
    (out ++ [head])
  have loops : count + (b.loops + 1) = count + 1 + b.loops := by omega
  rw [loops]
  have inLoop := Takes.inLoop inner
  rw [Bool.false_or] at inLoop
  by_cases continues : b.continues = true
  · obtain ⟨es', reworked, wrapped⟩ := body.exists_labelBody dense (words_ne_nil_of_continues continues _ _ _) out
      (isBlank_indentAt out out.length) (loopLabel_solid (count + 1))
    refine ⟨es', ?_, es', [], by simp, by simpa [labelled, continues] using wrapped, by simp [Blank]⟩
    refine Takes.nextLabel.bind (Takes.written.bind ((Takes.emit head).bind (Takes.mark.bind (inLoop.bind ?_))))
    rw [continues, ← reworked]
    exact ((Takes.rework _).bind (.record _)).bind (.pure _)
  · refine ⟨[head] ++ es, ?_, ?_⟩
    · refine Takes.nextLabel.bind (Takes.written.bind ((Takes.emit head).bind (Takes.mark.bind (inLoop.bind ?_))))
      rw [Bool.eq_false_iff.mpr continues, List.append_assoc]
      exact .pure _
    · rw [labelled, if_neg continues]
      exact body.loose dense

theorem takes_closeLoop (out : Buffer) {es : Buffer} (loose : Loose ws es) (label : String)
    {keyword : String} (ends : Text.endsSolid keyword = true) :
    ∃ es', (∀ before rest loops, Takes (Rules.closeLoop out.length label keyword) ⟨before, rest, out ++ es, loops⟩ ()
        ⟨before, rest, out ++ es', loops⟩) ∧ Dense (ws ++ Text.words keyword) es' := by
  obtain ⟨es', closed, dense⟩ := takes_clause out loose ends
  exact ⟨es', fun before rest loops => (closed before rest loops).bind (.record _), dense⟩

/-! ### Branches -/

section

variable {before rest : List Token} {out : Buffer} {loops : LoopState} {t : Token}

theorem Gap.ahead_eq (gap : Gap) (solid : t.isTrivia = false) :
    (Spot.mk before (gap.tokens ++ t :: rest) out loops).cursor.ahead 0 = (t, gap.tokens.length) := by
  have passed : (gap.tokens ++ t :: rest).takeWhile isTrivia = gap.tokens :=
    Cursor.takeWhile_exact gap.isTrivia_of_mem (by simp [solid])
  have next : following (gap.tokens ++ t :: rest) = t := by rw [gap.following_append, following_cons rest solid]
  refine Prod.ext next ?_
  simp [Cursor.ahead, Spot.cursor, passed]

theorem Gap.takes_skip (gap : Gap) : Takes (skip (gap.tokens.length + 1)) ⟨before, gap.tokens ++ t :: rest, out, loops⟩ ()
    ⟨t :: (gap.tokens.reverse ++ before), rest, out, loops⟩ := by
  have passed : Takes (skip (gap.tokens ++ [t]).length) ⟨before, (gap.tokens ++ [t]) ++ rest, out, loops⟩ ()
      ⟨(gap.tokens ++ [t]).reverse ++ before, rest, out, loops⟩ := .skip _
  simpa using passed

theorem takes_noElse {r : Rules} {start limit : Nat} (ends : (following rest).isWord "else" = false) :
    Takes (r.elseBranches start limit) ⟨before, rest, out, loops⟩ () ⟨before, rest, out, loops⟩ := by
  cases limit with
  | zero => exact .pure ()
  | succ limit => exact Takes.cursor.bind (.ite_neg (Bool.eq_false_iff.mp ends) (.pure ()))

end

namespace Branches

variable {inLoop : Bool}

theorem runs_none : (Branches.none : Branches inLoop).Runs := by
  intro depth count target limit enclosures before rest out es ws _ _ ends _ loose
  refine ⟨es, ?_, by simpa [Branches.words] using loose⟩
  rw [Branches.continues, Enclosure.marked_false, Branches.tokens, List.nil_append]
  exact takes_noElse ends

theorem runs_otherwise (gap gap' : Gap) {b : Script inLoop} (inner : b.Runs) : (Branches.otherwise gap gap' b).Runs := by
  intro depth count target limit enclosures before rest out es ws enough around _ room loose
  obtain ⟨limit, rfl⟩ : ∃ limit', limit = limit' + 1 := ⟨limit - 1, by simp [Branches.tokens] at room; omega⟩
  obtain ⟨es', closed, dense⟩ := takes_clause out loose (by decide : Text.endsSolid "else" = true)
  obtain ⟨es'', taken, body⟩ := inner.takes_body [] enough around count
    (gap'.tokens.reverse ++ Token.word "else" :: (gap.tokens.reverse ++ before)) rest (out ++ es')
  refine ⟨es' ++ es'', ?_, ?_⟩
  · simp only [Branches.tokens, List.append_assoc, List.cons_append, List.nil_append]
    refine Takes.cursor.bind ?_
    rw [gap.ahead_eq rfl]
    refine gap.takes_skip.bind ((Takes.skipTrivia gap'.tokens rfl (List.all_eq_true.mpr gap'.isTrivia_of_mem)).bind (Takes.cursor.bind ?_))
    exact (closed _ _ _).bind (by simpa [Gap.tokens, Branches.loops, Branches.continues] using taken)
  · have word : Text.words "else" = ["else"] := by decide
    rw [word] at dense
    simpa [Branches.words] using body.loose dense

theorem runs_elseIf (gap gap' : Gap) (test : Name) {b : Script inLoop} {others : Branches inLoop} (inner : b.Runs)
    (further : others.Runs) : (Branches.elseIf gap test gap' b others).Runs := by
  intro depth count target limit enclosures before rest out es ws enough around ends room loose
  obtain ⟨enough, enough'⟩ := Nat.max_le.mp enough
  obtain ⟨depth, rfl⟩ : ∃ d, depth = d + 2 := ⟨depth - 2, by have := b.two_le_depth; omega⟩
  obtain ⟨limit, rfl⟩ : ∃ limit', limit = limit' + 1 := ⟨limit - 1, by simp [Branches.tokens] at room; omega⟩
  obtain ⟨es', closed, dense⟩ := takes_clause out loose
    (Text.endsSolid_append ("elseif " ++ test.lua) (by decide : Text.endsSolid " then" = true))
  obtain ⟨es'', taken, body⟩ := inner.takes_body gap' enough around count
    (test.condition.reverse ++ Token.word "if" :: .blank :: .word "else" :: (gap.tokens.reverse ++ before))
    (others.tokens ++ rest) (out ++ es')
  rw [List.append_assoc out] at taken
  obtain ⟨all, later, loose'⟩ := further (depth + 2) (count + b.loops) target limit _ _ rest out (es' ++ es'') _
    enough' (around.marked b.continues) ends (by simp [Branches.tokens] at room; omega) (body.loose dense)
  rw [Enclosure.marked_marked, Nat.add_assoc] at later
  refine ⟨all, ?_, ?_⟩
  · simp only [Branches.tokens, List.append_assoc, List.cons_append]
    refine Takes.cursor.bind ?_
    rw [gap.ahead_eq rfl]
    refine gap.takes_skip.bind ((Takes.skipTrivia [.blank] rfl rfl).bind (Takes.cursor.bind ?_))
    refine (Takes.skip_one _).bind ((Rules.takes_condition test).bind ((closed _ _ _).bind (taken.bind ?_)))
    simpa [Branches.loops, Branches.continues] using later
  · have head : Dense ["elseif", test.lua, "then"] ["elseif " ++ test.lua ++ " then"] :=
      test.dense_between "elseif" "then" rfl rfl (by decide) (by decide)
    have words := head.words_eq
    rw [text_singleton] at words
    simpa [Branches.words, words] using loose'

end Branches

/-! ### Statements -/

namespace Statement

variable {inLoop : Bool}

theorem blank_single : Blank [" "] := by
  intro e he
  rw [List.mem_singleton.mp he]
  decide

theorem runs_assign (x y : Name) : (Statement.assign x y : Statement inLoop).Runs := by
  intro depth count target enclosures before rest out enough _ _
  obtain ⟨depth, rfl⟩ := Nat.exists_eq_add_of_le' (enough : 2 ≤ depth)
  refine ⟨[x.lua, " ", "=", " ", y.lua], ?_, ?_⟩
  · rw [Statement.continues, Enclosure.marked_false]
    exact Rules.takes_assign x y
  · have sign : Dense ["="] ["="] := .word (by decide) (by decide)
    exact (x.dense.append_blank blank_single (by simp) sign).append_blank blank_single (by simp) y.dense

theorem runs_giveBack (x : Name) : (Statement.giveBack x : Statement inLoop).Runs := by
  intro depth count target enclosures before rest out enough _ _
  obtain ⟨depth, rfl⟩ := Nat.exists_eq_add_of_le' (enough : 2 ≤ depth)
  refine ⟨["return", " ", x.lua], ?_, ?_⟩
  · rw [Statement.continues, Enclosure.marked_false]
    exact Rules.takes_giveBack x
  · have word : Dense ["return"] ["return"] := .word (by decide) (by decide)
    exact word.append_blank blank_single (by simp) x.dense

theorem runs_leave : (Statement.leave : Statement inLoop).Runs := by
  intro depth count target enclosures before rest out enough _ _
  obtain ⟨depth, rfl⟩ := Nat.exists_eq_add_of_le' (enough : 2 ≤ depth)
  refine ⟨["break"], ?_, .word (by decide) (by decide)⟩
  rw [Statement.continues, Enclosure.marked_false]
  exact Rules.takes_leave

theorem runs_again : Statement.again.Runs := by
  intro depth count target enclosures before rest out enough around _
  obtain ⟨depth, rfl⟩ := Nat.exists_eq_add_of_le' (enough : 2 ≤ depth)
  obtain ⟨continued, outer, rfl⟩ := around rfl
  refine ⟨["goto " ++ loopLabel target], ?_, .keyword "goto" rfl (by decide) (by simp [loopLabel]) (loopLabel_solid target)⟩
  rw [Statement.continues, Enclosure.marked, Bool.or_true]
  exact Rules.takes_again

theorem runs_branch (test : Name) (gap : Gap) {b : Script inLoop} {others : Branches inLoop} (inner : b.Runs)
    (further : others.Runs) : (Statement.branch test gap b others).Runs := by
  intro depth count target enclosures before rest out enough around ends
  have two := b.two_le_depth
  simp only [Statement.depth] at enough
  obtain ⟨depth, rfl⟩ : ∃ d, depth = d + 3 := ⟨depth - 3, by omega⟩
  have head : Dense ["if", test.lua, "then"] ["if " ++ test.lua ++ " then"] := test.dense_between "if" "then" rfl rfl (by decide) (by decide)
  obtain ⟨es, taken, body⟩ := inner.takes_body gap (by omega : b.depth ≤ depth + 2) around count
    (test.condition.reverse ++ Token.word "if" :: before) (others.tokens ++ rest) (out ++ ["if " ++ test.lua ++ " then"])
  rw [List.append_assoc out] at taken
  obtain ⟨es', later, loose⟩ := further (depth + 2) (count + b.loops) target (others.tokens ++ rest).length _ _ rest
    out (["if " ++ test.lua ++ " then"] ++ es) _ (by omega) (around.marked b.continues) ends (by simp) (body.loose head)
  rw [Enclosure.marked_marked, Nat.add_assoc] at later
  obtain ⟨all, closed, dense⟩ := takes_clause out loose (by decide : Text.endsSolid "end" = true)
  refine ⟨all, ?_, ?_⟩
  · simp only [Statement.tokens, List.append_assoc, List.cons_append]
    refine Rules.takes_keyword rfl (Takes.mark.bind ((Takes.skip_one _).bind ?_))
    refine (Rules.takes_condition test).bind ((Takes.emit _).bind (taken.bind (Takes.cursor.bind ?_)))
    exact later.bind (by simpa [Statement.loops, Statement.continues] using closed _ _ _)
  · have last : Text.words "end" = ["end"] := by decide
    simpa [Statement.words, last] using dense

theorem runs_loopWhile (test : Name) (gap : Gap) {b : Script true} (inner : b.Runs) :
    (Statement.loopWhile test gap b : Statement inLoop).Runs := by
  intro depth count target enclosures before rest out enough _ _
  obtain ⟨depth, rfl, room⟩ := b.exists_depth enough
  have head : Dense ["while", test.lua, "do"] ["while " ++ test.lua ++ " do"] := test.dense_between "while" "do" rfl rfl (by decide) (by decide)
  obtain ⟨es, taken, loose⟩ := inner.takes_loop gap room head count enclosures
    (test.condition.reverse ++ Token.word "while" :: before) rest out
  obtain ⟨all, closed, dense⟩ := takes_closeLoop out loose (loopLabel (count + 1)) (by decide : Text.endsSolid "end" = true)
  refine ⟨all, ?_, dense⟩
  simp only [Statement.tokens, List.append_assoc, List.cons_append, List.nil_append, Statement.loops,
    Statement.continues, Enclosure.marked_false]
  refine Rules.takes_keyword rfl (Takes.mark.bind ((Takes.skip_one _).bind ((Rules.takes_condition test).bind ?_)))
  exact taken.bind (by simpa using closed _ _ _)

theorem dense_loopHead (values : Bool) (item collection : Name) (tokens : List Token) :
    Dense (if values then ["for", "_,", item.text, "in", "ipairs(" ++ collection.lua ++ ")", "do"]
        else ["for", item.text, "in", "pairs(" ++ collection.lua ++ ")", "do"])
      [Rules.ForEach.text ⟨item.text, values, tokens⟩ collection.lua] := by
  obtain ⟨nonempty, solid⟩ := solid_of_isNameText item.isName
  have headed : ∀ first fn front middle : String, front = first ++ " " → middle = " in " ++ fn →
      Text.startsSolid first = true → (∀ c ∈ fn.toList, Text.isSpace c = false) →
      Dense (Text.words first ++ [item.text, "in", fn ++ collection.lua ++ ")", "do"])
        [front ++ item.text ++ middle ++ collection.lua ++ ") do"] := by
    rintro first fn _ _ rfl rfl starts solid'
    have call : Dense ["in", fn ++ collection.lua ++ ")", "do"] ["in " ++ (fn ++ collection.lua ++ ")") ++ " do"] :=
      .between "in" "do" rfl rfl (by decide) (by decide) (by simp) (collection.solid_call solid')
    have words := call.words_eq
    rw [text_singleton] at words
    have head := Dense.between first ("in " ++ (fn ++ collection.lua ++ ")") ++ " do") rfl rfl starts
      (Text.endsSolid_append _ (by decide)) nonempty solid
    have blank : " in " = " " ++ "in " := rfl
    have close : ") do" = ")" ++ " do" := rfl
    rw [words] at head
    simpa only [blank, close, String.append_assoc] using head
  cases values
  · exact headed "for" "pairs(" _ _ rfl rfl (by decide) (by decide)
  · exact headed "for _," "ipairs(" _ _ rfl rfl (by decide) (by decide)

theorem runs_loopOver (values : Bool) (item collection : Name) (gap : Gap) {b : Script true} (inner : b.Runs) :
    (Statement.loopOver values item collection gap b : Statement inLoop).Runs := by
  intro depth count target enclosures before rest out enough _ _
  obtain ⟨depth, rfl, room⟩ := b.exists_depth enough
  have each : Rules.forEach? (loopHead values item collection) =
      some ⟨item.text, values, [Token.blank] ++ [collection.token]⟩ := by
    cases values <;> rfl
  have flat : ∀ t ∈ loopHead values item collection, t.kind = .identifier ∨ t.kind = .space := by
    simp [loopHead, Name.token]
  obtain ⟨es, taken, loose⟩ := inner.takes_loop gap room
    (dense_loopHead values item collection ([Token.blank] ++ [collection.token])) count enclosures
    (.mark ")" :: ((loopHead values item collection).reverse ++ Token.mark "(" :: .blank :: .word "for" :: before)) rest out
  obtain ⟨all, closed, dense⟩ := takes_closeLoop out loose (loopLabel (count + 1)) (by decide : Text.endsSolid "end" = true)
  refine ⟨all, ?_, ?_⟩
  · simp only [Statement.tokens, List.append_assoc, List.cons_append, List.nil_append, Statement.loops,
      Statement.continues, Enclosure.marked_false]
    refine Rules.takes_keyword rfl (Takes.mark.bind ((Takes.skip_one _).bind ?_))
    refine (Takes.skipTrivia [.blank] rfl rfl).bind ((Rules.takes_arguments flat).bind ?_)
    rw [each]
    refine (Rules.takes_value collection [.blank] (.inr rfl)).bind (taken.bind ?_)
    simpa using closed _ _ _
  · cases values <;> exact dense

theorem runs_loopUntil (gap gap' : Gap) (test : Name) {b : Script true} (inner : b.Runs) :
    (Statement.loopUntil gap b gap' test : Statement inLoop).Runs := by
  intro depth count target enclosures before rest out enough _ _
  obtain ⟨depth, rfl, room⟩ := b.exists_depth enough
  have head : Dense ["repeat"] ["repeat"] := .word (by decide) (by decide)
  obtain ⟨es, taken, loose⟩ := inner.takes_loop gap room head count enclosures
    (.word "do" :: before) (gap'.tokens ++ Token.word "while" :: (test.condition ++ Token.mark ";" :: rest)) out
  obtain ⟨all, closed, dense⟩ := takes_closeLoop out loose (loopLabel (count + 1))
    (Text.endsSolid_append ("until not (" ++ test.lua) (by decide : Text.endsSolid ")" = true))
  refine ⟨all, ?_, ?_⟩
  · simp only [Statement.tokens, List.append_assoc, List.cons_append, List.nil_append, Statement.loops,
      Statement.continues, Enclosure.marked_false]
    refine Rules.takes_keyword rfl (Takes.mark.bind ((Takes.skip_one _).bind (taken.bind (Takes.cursor.bind ?_))))
    rw [gap'.ahead_eq rfl]
    refine gap'.takes_skip.bind ((Rules.takes_condition test).bind ((closed _ _ _).bind ?_))
    refine (Takes.skipSpace [] rfl rfl).bind ?_
    simpa using Takes.skipPunct_pos rfl
  · have close : Dense ["until", "not", "(" ++ test.lua ++ ")"] ["until not " ++ ("(" ++ test.lua ++ ")")] :=
      .keyword "until not" rfl (by decide) (by simp) (test.solid_call (by decide))
    have words := close.words_eq
    have opens : "until not (" = "until not " ++ "(" := rfl
    rw [text_singleton, ← String.append_assoc, ← String.append_assoc, ← opens] at words
    rwa [words] at dense

end Statement

mutual

theorem Statement.runs {inLoop : Bool} : (s : Statement inLoop) → s.Runs
  | .assign x y => Statement.runs_assign x y
  | .giveBack x => Statement.runs_giveBack x
  | .leave => Statement.runs_leave
  | .again => Statement.runs_again
  | .branch test gap body others => Statement.runs_branch test gap body.runs others.runs
  | .loopWhile test gap body => Statement.runs_loopWhile test gap body.runs
  | .loopUntil gap body gap' test => Statement.runs_loopUntil gap gap' test body.runs
  | .loopOver values item collection gap body => Statement.runs_loopOver values item collection gap body.runs

theorem Script.runs {inLoop : Bool} : (b : Script inLoop) → b.Runs
  | .last gap => Script.runs_last gap
  | .more gap first rest => Script.runs_more gap first.runs rest.runs

theorem Branches.runs {inLoop : Bool} : (others : Branches inLoop) → others.Runs
  | .none => Branches.runs_none
  | .otherwise gap gap' body => Branches.runs_otherwise gap gap' body.runs
  | .elseIf gap test gap' body others => Branches.runs_elseIf gap gap' test body.runs others.runs

end

/-! ### Whole scripts -/

mutual

theorem Statement.depth_le {inLoop : Bool} : (s : Statement inLoop) → s.depth ≤ s.tokens.length + 2
  | .assign .. | .giveBack _ | .leave | .again => by simp [Statement.depth]
  | .branch _ _ body others => by
    have inner := body.depth_le
    have further := others.depth_le
    simp only [Statement.depth, Statement.tokens, List.length_append, List.length_cons]
    omega
  | .loopWhile _ _ body | .loopUntil _ body _ _ | .loopOver _ _ _ _ body => by
    have inner := body.depth_le
    simp only [Statement.depth, Statement.tokens, List.length_append, List.length_cons]
    omega

theorem Script.depth_le {inLoop : Bool} : (b : Script inLoop) → b.depth ≤ b.tokens.length + 2
  | .last _ => by simp [Script.depth]
  | .more _ first rest => by
    have single := first.depth_le
    have others := rest.depth_le
    simp only [Script.depth, Script.tokens, List.length_append]
    omega

theorem Branches.depth_le {inLoop : Bool} : (others : Branches inLoop) → others.depth ≤ others.tokens.length + 2
  | .none => by simp [Branches.depth]
  | .otherwise _ _ body => by
    have inner := body.depth_le
    simp only [Branches.depth, Branches.tokens, List.length_append, List.length_cons]
    omega
  | .elseIf _ _ _ body others => by
    have inner := body.depth_le
    have further := others.depth_le
    simp only [Branches.depth, Branches.tokens, List.length_append, List.length_cons]
    omega

end

/-- What the rules do with all statements is what becomes of the script. -/
theorem convertTokens_of_statements {tokens : List Token} {ledger : Ledger} {outcome : Except Fault Unit} {s : Spot}
    {start : Option (Nat × Nat)} {journal : List Event}
    (run : (Rules.within (2 * textSize tokens + 2)).statements
        ((Desk.ofTokens tokens ledger).put ⟨[], tokens, [], ledger.labels, []⟩ none ledger.journal) =
      (outcome, (Desk.ofTokens tokens ledger).put s start journal)) :
    convertTokens tokens ledger = (outcome.map fun _ => s.out.text, { ledger.nextScript with
      labels := s.loops.labels, enclosures := s.loops.enclosures, journal := journal }) := by
  have here : (Desk.ofTokens tokens ledger).put ⟨[], tokens, [], ledger.labels, []⟩ none ledger.journal =
      Desk.ofTokens tokens ledger := rfl
  have budget : (Desk.ofTokens tokens ledger).budget = 2 * textSize tokens + 2 := rfl
  have started : Edit.statements (Desk.ofTokens tokens ledger) =
      (Rules.within (Desk.ofTokens tokens ledger).budget).statements (Desk.ofTokens tokens ledger) := bind_ok rfl
  rw [here] at run
  rw [convertTokens, started, budget, run]
  rfl

/-- A run over all tokens of a desk, with the budget of that desk. -/
theorem Statements.convertTokens_eq {tokens before : List Token} {ledger : Ledger} {out : Buffer}
    (run : Statements (Rules.within (2 * textSize tokens + 2)) ⟨[], tokens, [], ledger.labels, []⟩
      ⟨before, rest, out, loops⟩)
    (ended : (Spot.mk before rest out loops).cursor.atEnd = true) :
    ∃ journal, convertTokens tokens ledger = (.ok out.text, { ledger.nextScript with
        labels := loops.labels, enclosures := loops.enclosures, journal := journal }) := by
  obtain ⟨start, journal, result⟩ := run.takes_statements ended (Desk.ofTokens tokens ledger) none ledger.journal
  exact ⟨journal, convertTokens_of_statements result⟩

/-- Scripts are translated as trees, where no two statements touch: the words written for a script are
those of its translation, but that a statement right behind another one shares a word with it. Labels go
on from those handed out before, and there is nothing to report. -/
theorem convertTokens_script (b : Script false) (ledger : Ledger) :
    ∃ text ledger', convertTokens (tokenize (sourceText b.tokens)) ledger = (.ok text, ledger') ∧
      ledger'.diagnostics = ledger.diagnostics ∧ ledger'.labels = ledger.labels + b.loops ∧
      Text.words text = b.words true ledger.labels 0 ∧
      (Text.words text = b.words false ledger.labels 0 ↔ b.contacts = 0) := by
  have legible : AlwaysLegible b.tokens := by simpa using Script.legible alwaysLegible_nil rfl b
  have enough : b.depth ≤ 2 * textSize (b.tokens ++ [.eof]) + 2 := by
    have depth := b.depth_le
    have size := length_le_textSize (legible false)
    rw [textSize_append]
    omega
  obtain ⟨es, run, laid⟩ := b.runs _ ledger.labels 0 [] [] [.eof] [] enough (by simp [Around]) rfl
  obtain ⟨journal, converted⟩ := run.convertTokens_eq rfl
  rw [tokenize_legible (legible false)]
  refine ⟨_, _, converted, rfl, rfl, ?_⟩
  have words : Text.words (Buffer.text es) = b.words true ledger.labels 0 := laid.words_eq
  rw [List.nil_append, words]
  exact ⟨rfl, b.words_glued_iff ledger.labels 0⟩

-- The semicolon is dropped, and nothing else keeps the two statements apart.
example : (convertTokens (tokenize "x = y;z = w;") {}).1 = .ok "x = yz = w" := by decide +kernel

end NoteScript

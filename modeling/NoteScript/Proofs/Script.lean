import NoteScript.Proofs.Course
import NoteScript.Proofs.Spelling
import NoteScript.Proofs.Words

/-!
# Scripts as trees

The statements that shape the flow of a script, as trees: assignments of names, jumps, branches and loops. A
tree is written in one way but for the white space between statements and around blocks, which is part of it.
Beside the tokens of a tree stands its translation, word by word and by recursion on the tree.

* `Script.tokens`: how a script is spelled.
* `Script.words`: its translation. Where two statements touch, their words may grow together or not; both are
  considered, since only one of them is what a script means.
* `Script.legible`: the tokens of a script are cut back from their text.
* `Script.words_glued_iff`: which scripts have one translation for both.
-/

namespace NoteScript

variable {inLoop : Bool} {rest : List Token}

/-! ### Names and white space -/

/-- The words that are no names. -/
def reservedWords : List String :=
  ["break", "case", "catch", "class", "const", "continue", "debugger", "default", "delete", "do", "else", "enum",
   "export", "extends", "false", "finally", "for", "function", "if", "import", "in", "instanceof", "let", "new",
   "null", "return", "super", "switch", "this", "throw", "true", "try", "typeof", "var", "void", "while", "with"]

/-- A name that is not reserved. -/
structure Name where
  text : String
  isName : Token.isNameText text = true
  free : text ∉ reservedWords

/-- The name of a value in Lua. Five names stand for something that Lua knows by another name. -/
def Name.lua (x : Name) : String := match x.text with
  | "undefined" => "nil"
  | "NaN" => "(0/0)"
  | "Infinity" => "math.huge"
  | "parseInt" | "parseFloat" => "tonumber"
  | text => text

/-- One character of white space. -/
inductive Space where
  | blank
  | tab
  | carriageReturn
  | feed

/-- Any white space, also none. -/
abbrev Gap := List Space

namespace Token

/-- A single blank as a token. -/
abbrev blank : Token := ⟨.space, " "⟩

/-- Put a character of the line in front of some tokens: a run of them is one token. -/
def addSpace (c : Char) : List Token → List Token
  | ⟨.space, text⟩ :: rest => ⟨.space, String.singleton c ++ text⟩ :: rest
  | rest => ⟨.space, String.singleton c⟩ :: rest

theorem blank_of_mem_addSpace {c : Char} (space : Text.isSpace c = true) {ts : List Token}
    (blank : ∀ t ∈ ts, (t.kind = .space ∨ t.kind = .newline) ∧ Text.isBlank t.text = true ∧ t.text ≠ "") :
    ∀ t ∈ addSpace c ts, (t.kind = .space ∨ t.kind = .newline) ∧ Text.isBlank t.text = true ∧ t.text ≠ "" := by
  unfold addSpace
  split
  · rename_i text rest
    rw [List.forall_mem_cons] at blank ⊢
    refine ⟨⟨.inl rfl, ?_, by simp⟩, blank.2⟩
    simpa [Text.isBlank, space] using blank.1.2.1
  · rw [List.forall_mem_cons]
    exact ⟨⟨.inl rfl, by simp [Text.isBlank, space], by simp⟩, blank⟩

end Token

/-- The tokens of some white space. -/
def Gap.tokens : Gap → List Token
  | [] => []
  | .blank :: rest => Token.addSpace ' ' (tokens rest)
  | .tab :: rest => Token.addSpace '\t' (tokens rest)
  | .carriageReturn :: rest => Token.addSpace '\r' (tokens rest)
  | .feed :: rest => ⟨.newline, "\n"⟩ :: tokens rest

/-- White space is cut into blanks and line feeds. -/
theorem Gap.blank_of_mem : (gap : Gap) → ∀ t ∈ gap.tokens,
    (t.kind = .space ∨ t.kind = .newline) ∧ Text.isBlank t.text = true ∧ t.text ≠ ""
  | [] => by simp [Gap.tokens]
  | .feed :: gap => by
    intro t ht
    rcases List.mem_cons.mp ht with rfl | later
    · exact ⟨.inr rfl, by decide, by decide⟩
    · exact blank_of_mem gap t later
  | .blank :: gap | .tab :: gap | .carriageReturn :: gap => Token.blank_of_mem_addSpace (by decide) (blank_of_mem gap)

/-! ### Trees -/

mutual

/-- A statement, inside a loop or not: only there the next pass can be started. The white space of a
compound statement stands in front of its blocks, and in front of the `while` behind a block. -/
inductive Statement : Bool → Type where
  /-- `x = y;` -/
  | assign {inLoop : Bool} (target value : Name) : Statement inLoop
  /-- `return x;` -/
  | giveBack {inLoop : Bool} (value : Name) : Statement inLoop
  /-- `break;` -/
  | leave {inLoop : Bool} : Statement inLoop
  /-- `continue;` -/
  | again : Statement true
  /-- `if (x) {…}` and what follows -/
  | branch {inLoop : Bool} (test : Name) (gap : Gap) (body : Script inLoop) (others : Branches inLoop) : Statement inLoop
  /-- `while (x) {…}` -/
  | loopWhile {inLoop : Bool} (test : Name) (gap : Gap) (body : Script true) : Statement inLoop
  /-- `do {…} while (x);` -/
  | loopUntil {inLoop : Bool} (gap : Gap) (body : Script true) (gap' : Gap) (test : Name) : Statement inLoop
  /-- `for (const x of y) {…}` over the values or `for (const x in y) {…}` over the keys -/
  | loopOver {inLoop : Bool} (values : Bool) (item collection : Name) (gap : Gap) (body : Script true) : Statement inLoop

/-- Statements one after the other, with the white space in front of each and behind the last. -/
inductive Script : Bool → Type where
  | last {inLoop : Bool} (gap : Gap) : Script inLoop
  | more {inLoop : Bool} (gap : Gap) (first : Statement inLoop) (rest : Script inLoop) : Script inLoop

/-- The further branches of an `if` statement, with the white space in front of each and of its block. -/
inductive Branches : Bool → Type where
  | none {inLoop : Bool} : Branches inLoop
  /-- `else {…}` -/
  | otherwise {inLoop : Bool} (gap gap' : Gap) (body : Script inLoop) : Branches inLoop
  /-- `else if (x) {…}` and what follows -/
  | elseIf {inLoop : Bool} (gap : Gap) (test : Name) (gap' : Gap) (body : Script inLoop) (others : Branches inLoop) :
      Branches inLoop

end

/-! ### Spelling -/

/-- A name as a token. -/
def Name.token (x : Name) : Token := .word x.text

/-- A name in round brackets behind a blank. -/
def Name.condition (x : Name) : List Token := [.blank, .mark "(", x.token, .mark ")"]

/-- The head of a loop over a collection, inside its brackets. -/
def loopHead (values : Bool) (item collection : Name) : List Token :=
  [.word "const", .blank, item.token, .blank, .word (if values then "of" else "in"), .blank, collection.token]

mutual

/-- The tokens of a statement. -/
def Statement.tokens {inLoop : Bool} : Statement inLoop → List Token
  | .assign x y => [x.token, .blank, ⟨.operator, "="⟩, .blank, y.token, .mark ";"]
  | .giveBack x => [.word "return", .blank, x.token, .mark ";"]
  | .leave => [.word "break", .mark ";"]
  | .again => [.word "continue", .mark ";"]
  | .branch test gap body others =>
    .word "if" :: test.condition ++ gap.tokens ++ .mark "\x7b" :: body.tokens ++ .mark "\x7d" :: others.tokens
  | .loopWhile test gap body =>
    .word "while" :: test.condition ++ gap.tokens ++ .mark "\x7b" :: body.tokens ++ [.mark "\x7d"]
  | .loopUntil gap body gap' test =>
    .word "do" :: gap.tokens ++ .mark "\x7b" :: body.tokens ++ .mark "\x7d" :: gap'.tokens ++
      .word "while" :: test.condition ++ [.mark ";"]
  | .loopOver values item collection gap body =>
    .word "for" :: .blank :: .mark "(" :: loopHead values item collection ++ .mark ")" :: gap.tokens ++
      .mark "\x7b" :: body.tokens ++ [.mark "\x7d"]

/-- The tokens of a script. -/
def Script.tokens {inLoop : Bool} : Script inLoop → List Token
  | .last gap => gap.tokens
  | .more gap first rest => gap.tokens ++ first.tokens ++ rest.tokens

/-- The tokens of further branches. -/
def Branches.tokens {inLoop : Bool} : Branches inLoop → List Token
  | .none => []
  | .otherwise gap gap' body => gap.tokens ++ .word "else" :: gap'.tokens ++ .mark "\x7b" :: body.tokens ++ [.mark "\x7d"]
  | .elseIf gap test gap' body others =>
    gap.tokens ++ .word "else" :: .blank :: .word "if" :: test.condition ++ gap'.tokens ++
      .mark "\x7b" :: body.tokens ++ .mark "\x7d" :: others.tokens

end

/-! ### Loops and jumps of a tree -/

mutual

/-- The number of loops in a statement. -/
def Statement.loops {inLoop : Bool} : Statement inLoop → Nat
  | .assign .. | .giveBack _ | .leave | .again => 0
  | .branch _ _ body others => body.loops + others.loops
  | .loopWhile _ _ body | .loopUntil _ body _ _ | .loopOver _ _ _ _ body => body.loops + 1

/-- The number of loops in a script. -/
def Script.loops {inLoop : Bool} : Script inLoop → Nat
  | .last _ => 0
  | .more _ first rest => first.loops + rest.loops

/-- The number of loops in further branches. -/
def Branches.loops {inLoop : Bool} : Branches inLoop → Nat
  | .none => 0
  | .otherwise _ _ body => body.loops
  | .elseIf _ _ _ body others => body.loops + others.loops

end

mutual

/-- Does a statement start the next pass of the loop around it? -/
def Statement.continues {inLoop : Bool} : Statement inLoop → Bool
  | .assign .. | .giveBack _ | .leave => false
  | .again => true
  | .branch _ _ body others => body.continues || others.continues
  | .loopWhile .. | .loopUntil .. | .loopOver .. => false

/-- Does a script start the next pass of the loop around it? -/
def Script.continues {inLoop : Bool} : Script inLoop → Bool
  | .last _ => false
  | .more _ first rest => first.continues || rest.continues

/-- Do further branches start the next pass of the loop around them? -/
def Branches.continues {inLoop : Bool} : Branches inLoop → Bool
  | .none => false
  | .otherwise _ _ body => body.continues
  | .elseIf _ _ _ body others => body.continues || others.continues

end

/-! ### Translation -/

/-- Does a script start with a statement and not with white space? -/
def Script.touches {inLoop : Bool} : Script inLoop → Bool
  | .more [] _ _ => true
  | _ => false

/-- The words of a loop's body: in a scope of its own with the label behind it, if there is a jump to it. -/
def labelled (continues : Bool) (label : Nat) (body : List String) : List String :=
  if continues then "do" :: body ++ ["end", "::" ++ Edit.loopLabel label ++ "::"] else body

mutual

/-- The words of a statement in Lua, where `count` loops have begun before it and `target` is the number of
the loop around it. If `glues`, the last word of a statement and the first of one that touches it are one. -/
def Statement.words {inLoop : Bool} (glues : Bool) (count target : Nat) : Statement inLoop → List String
  | .assign x y => [x.lua, "=", y.lua]
  | .giveBack x => ["return", x.lua]
  | .leave => ["break"]
  | .again => ["goto", Edit.loopLabel target]
  | .branch test _ body others =>
    ["if", test.lua, "then"] ++ body.words glues count target ++ others.words glues (count + body.loops) target ++ ["end"]
  | .loopWhile test _ body =>
    ["while", test.lua, "do"] ++ labelled body.continues (count + 1) (body.words glues (count + 1) (count + 1)) ++ ["end"]
  | .loopUntil _ body _ test =>
    ["repeat"] ++ labelled body.continues (count + 1) (body.words glues (count + 1) (count + 1)) ++
      ["until", "not", "(" ++ test.lua ++ ")"]
  | .loopOver true item collection _ body =>
    ["for", "_,", item.text, "in", "ipairs(" ++ collection.lua ++ ")", "do"] ++
      labelled body.continues (count + 1) (body.words glues (count + 1) (count + 1)) ++ ["end"]
  | .loopOver false item collection _ body =>
    ["for", item.text, "in", "pairs(" ++ collection.lua ++ ")", "do"] ++
      labelled body.continues (count + 1) (body.words glues (count + 1) (count + 1)) ++ ["end"]

/-- The words of a script in Lua. -/
def Script.words {inLoop : Bool} (glues : Bool) (count target : Nat) : Script inLoop → List String
  | .last _ => []
  | .more _ first rest =>
    if glues && rest.touches then
      Text.glue (first.words glues count target) (rest.words glues (count + first.loops) target)
    else first.words glues count target ++ rest.words glues (count + first.loops) target

/-- The words of further branches in Lua. -/
def Branches.words {inLoop : Bool} (glues : Bool) (count target : Nat) : Branches inLoop → List String
  | .none => []
  | .otherwise _ _ body => "else" :: body.words glues count target
  | .elseIf _ test _ body others =>
    ["elseif", test.lua, "then"] ++ body.words glues count target ++ others.words glues (count + body.loops) target

end

/-! ### Where the words grow together -/

mutual

/-- The number of places in a statement where two statements touch. -/
def Statement.contacts {inLoop : Bool} : Statement inLoop → Nat
  | .assign .. | .giveBack _ | .leave | .again => 0
  | .branch _ _ body others => body.contacts + others.contacts
  | .loopWhile _ _ body | .loopUntil _ body _ _ | .loopOver _ _ _ _ body => body.contacts

/-- The number of places in a script where two statements touch. -/
def Script.contacts {inLoop : Bool} : Script inLoop → Nat
  | .last _ => 0
  | .more _ first rest => first.contacts + rest.contacts + if rest.touches then 1 else 0

/-- The number of places in further branches where two statements touch. -/
def Branches.contacts {inLoop : Bool} : Branches inLoop → Nat
  | .none => 0
  | .otherwise _ _ body => body.contacts
  | .elseIf _ _ _ body others => body.contacts + others.contacts

end

theorem length_labelled (continues : Bool) (label : Nat) (body : List String) :
    (labelled continues label body).length = body.length + if continues then 3 else 0 := by
  cases continues <;> simp [labelled]

theorem Statement.words_ne_nil (s : Statement inLoop) (glues : Bool) (count target : Nat) : s.words glues count target ≠ [] := by
  cases s with
  | loopOver values => cases values <;> simp [Statement.words]
  | _ => simp [Statement.words]

theorem Script.words_more_ne_nil (gap : Gap) (first : Statement inLoop) (rest : Script inLoop)
    (glues : Bool) (count target : Nat) : (Script.more gap first rest).words glues count target ≠ [] := by
  rw [Script.words]
  split_ifs
  · simp [Text.glue]
  · exact List.append_ne_nil_of_left_ne_nil (first.words_ne_nil glues count target) _

theorem Script.words_ne_nil {b : Script inLoop} (h : b.touches = true) (glues : Bool)
    (count target : Nat) : b.words glues count target ≠ [] := by
  cases b with
  | last => cases h
  | more gap first rest => exact words_more_ne_nil gap first rest glues count target

mutual

/-- Each place where statements touch costs one word. -/
theorem Statement.length_words {inLoop : Bool} (count target : Nat) : (s : Statement inLoop) →
    (s.words true count target).length + s.contacts = (s.words false count target).length
  | .assign .. | .giveBack _ | .leave | .again => rfl
  | .branch test _ body others => by
    have inner := body.length_words count target
    have further := others.length_words (count + body.loops) target
    simp only [Statement.words, Statement.contacts, List.length_append]
    omega
  | .loopWhile _ _ body | .loopUntil _ body _ _ => by
    have inner := body.length_words (count + 1) (count + 1)
    simp only [Statement.words, Statement.contacts, List.length_append, length_labelled]
    omega
  | .loopOver values _ _ _ body => by
    have inner := body.length_words (count + 1) (count + 1)
    cases values <;>
    · simp only [Statement.words, Statement.contacts, List.length_append, length_labelled]
      omega

theorem Script.length_words {inLoop : Bool} (count target : Nat) : (b : Script inLoop) →
    (b.words true count target).length + b.contacts = (b.words false count target).length
  | .last _ => rfl
  | .more _ first rest => by
    have single := first.length_words count target
    have others := rest.length_words (count + first.loops) target
    simp only [Script.words, Script.contacts, Bool.true_and, Bool.false_and]
    by_cases touches : rest.touches = true
    · have glued := Text.length_glue (first.words_ne_nil true count target)
        (Script.words_ne_nil touches true (count + first.loops) target)
      simp only [touches, if_true, if_false, List.length_append, Bool.false_eq_true]
      omega
    · simp only [touches, if_false, List.length_append, Bool.false_eq_true]
      omega

theorem Branches.length_words {inLoop : Bool} (count target : Nat) : (others : Branches inLoop) →
    (others.words true count target).length + others.contacts = (others.words false count target).length
  | .none => rfl
  | .otherwise _ _ body => by
    have inner := body.length_words count target
    simp only [Branches.words, Branches.contacts, List.length_cons]
    omega
  | .elseIf _ _ _ body others => by
    have inner := body.length_words count target
    have further := others.length_words (count + body.loops) target
    simp only [Branches.words, Branches.contacts, List.length_append]
    omega

end

mutual

theorem Statement.words_eq {inLoop : Bool} (count target : Nat) : (s : Statement inLoop) → s.contacts = 0 →
    s.words true count target = s.words false count target
  | .assign .., _ | .giveBack _, _ | .leave, _ | .again, _ => rfl
  | .branch test _ body others, apart => by
    obtain ⟨inner, further⟩ := Nat.add_eq_zero_iff.mp apart
    rw [Statement.words, Statement.words, body.words_eq _ _ inner, others.words_eq _ _ further]
  | .loopWhile _ _ body, apart | .loopUntil _ body _ _, apart => by
    rw [Statement.words, Statement.words, body.words_eq _ _ apart]
  | .loopOver values _ _ _ body, apart => by
    cases values <;> rw [Statement.words, Statement.words, body.words_eq _ _ apart]

theorem Script.words_eq {inLoop : Bool} (count target : Nat) : (b : Script inLoop) → b.contacts = 0 →
    b.words true count target = b.words false count target
  | .last _, _ => rfl
  | .more _ first rest, apart => by
    obtain ⟨parts, touches⟩ := Nat.add_eq_zero_iff.mp apart
    obtain ⟨single, others⟩ := Nat.add_eq_zero_iff.mp parts
    have separate : rest.touches = false := by simpa using touches
    rw [Script.words, Script.words, first.words_eq _ _ single, rest.words_eq _ _ others, separate]
    rfl

theorem Branches.words_eq {inLoop : Bool} (count target : Nat) : (others : Branches inLoop) → others.contacts = 0 →
    others.words true count target = others.words false count target
  | .none, _ => rfl
  | .otherwise _ _ body, apart => by
    rw [Branches.words, Branches.words, body.words_eq _ _ apart]
  | .elseIf _ _ _ body others, apart => by
    obtain ⟨inner, further⟩ := Nat.add_eq_zero_iff.mp apart
    rw [Branches.words, Branches.words, body.words_eq _ _ inner, others.words_eq _ _ further]

end

/-- The words of a script are those of its translation just in case no two statements touch. -/
theorem Script.words_glued_iff (b : Script inLoop) (count target : Nat) :
    b.words true count target = b.words false count target ↔ b.contacts = 0 := by
  constructor
  · intro same
    have lengths := b.length_words count target
    rw [same] at lengths
    omega
  · exact b.words_eq count target

/-! ### Legibility -/

namespace Token

variable {rest : List Token}

/-- The tokens of a list are cut back from their text, whatever stands in front of them. -/
def AlwaysLegible (ts : List Token) : Prop := ∀ divides, Legible divides ts

theorem alwaysLegible_nil : AlwaysLegible [] := fun _ => trivial

theorem AlwaysLegible.cons {t : Token} (legible : AlwaysLegible rest)
    (readable : ∀ divides, Readable divides t = true) (apart : ∀ u ∈ rest.head?, Apart t u = true) :
    AlwaysLegible (t :: rest) :=
  fun divides => ⟨readable divides, apart, legible _⟩

/-- A mark keeps apart from everything. -/
theorem AlwaysLegible.mark (legible : AlwaysLegible rest) (text : String)
    (readable : Readable false (.mark text) = true) : AlwaysLegible (.mark text :: rest) :=
  legible.cons (fun _ => readable) fun u _ => by simp [Apart]

/-- A word keeps apart from what is neither a word nor a number. -/
theorem AlwaysLegible.word (legible : AlwaysLegible rest) (text : String) (readable : isNameText text = true)
    (apart : rest.head?.all (fun u => u.kind != .identifier && u.kind != .number) = true) :
    AlwaysLegible (.word text :: rest) := by
  refine legible.cons (fun _ => readable) fun u hu => ?_
  rw [Option.mem_def] at hu
  simp only [hu, Option.all_some, Bool.and_eq_true, bne_iff_ne] at apart
  unfold Apart
  split <;> simp_all

theorem apart_space {text : String} {u : Token} (h : u.kind ≠ .space) : Apart ⟨.space, text⟩ u = true := by
  unfold Apart
  split <;> simp_all

/-- A blank keeps apart from what is no white space. -/
theorem AlwaysLegible.blank (legible : AlwaysLegible rest)
    (solid : rest.head?.all (!·.isTrivia) = true) : AlwaysLegible (.blank :: rest) := by
  refine legible.cons (fun _ => rfl) fun u hu => apart_space ?_
  rintro space
  rw [Option.mem_def] at hu
  simp [hu, isTrivia, space] at solid

theorem AlwaysLegible.addSpace {c : Char} {ts : List Token} (legible : AlwaysLegible (ts ++ rest))
    (inline : isInlineSpace c = true) (solid : rest.head?.all (!·.isTrivia) = true) :
    AlwaysLegible (addSpace c ts ++ rest) := by
  unfold Token.addSpace
  split
  · rename_i text ts
    intro divides
    obtain ⟨readable, apart, further⟩ := legible divides
    refine ⟨?_, fun u hu => apart_space ?_, further⟩
    · simp only [Readable, Bool.and_eq_true, List.all_eq_true] at readable
      simpa [Readable, inline] using readable.2
    · rintro space
      have := apart u hu
      simp [Apart, space] at this
  · rename_i other
    refine legible.cons (fun _ => ?_) fun u hu => apart_space ?_
    · simp [Readable, inline]
    · rintro space
      rw [Option.mem_def] at hu
      rcases ts with _ | ⟨⟨kind, text⟩, ts⟩
      · simp only [List.nil_append] at hu
        simp [hu, isTrivia, space] at solid
      · simp only [List.cons_append, List.head?_cons, Option.some.injEq] at hu
        subst hu
        subst space
        exact other text ts rfl

end Token

open Token

theorem Gap.legible (legible : AlwaysLegible rest) (solid : rest.head?.all (!·.isTrivia) = true) :
    (gap : Gap) → AlwaysLegible (gap.tokens ++ rest)
  | [] => legible
  | .blank :: gap | .tab :: gap | .carriageReturn :: gap => (Gap.legible legible solid gap).addSpace (by decide) solid
  | .feed :: gap => (Gap.legible legible solid gap).cons (fun _ => rfl) fun u _ => by simp [Apart]

theorem Name.legible_token (x : Name) (legible : AlwaysLegible rest)
    (apart : rest.head?.all (fun u => u.kind != .identifier && u.kind != .number) = true) :
    AlwaysLegible (x.token :: rest) :=
  legible.word x.text x.isName apart

theorem Name.legible_condition (x : Name) (legible : AlwaysLegible rest) : AlwaysLegible (x.condition ++ rest) :=
  ((x.legible_token (legible.mark ")" rfl) rfl).mark "(" rfl).blank rfl

/-- A block behind white space, which a word may stand in front of. -/
theorem Gap.legible_block (gap : Gap) (legible : AlwaysLegible rest) : AlwaysLegible (gap.tokens ++ Token.mark "\x7b" :: rest) ∧
      (gap.tokens ++ Token.mark "\x7b" :: rest).head?.all (fun u => u.kind != .identifier && u.kind != .number) = true := by
  refine ⟨Gap.legible (legible.mark "\x7b" rfl) rfl gap, ?_⟩
  rcases tokens : gap.tokens with _ | ⟨t, ts⟩
  · rfl
  · have kind := (gap.blank_of_mem t (by simp [tokens])).1
    rcases kind with kind | kind <;> simp [kind]

/-- A statement starts with a word. -/
theorem Statement.head_tokens (s : Statement inLoop) : ∃ text rest, s.tokens = .word text :: rest ∧ text ≠ "else" := by
  have names : ∀ x : Name, x.text ≠ "else" := fun x same => x.free (by rw [same]; decide)
  cases s <;> rw [Statement.tokens] <;> first
    | exact ⟨_, _, rfl, names _⟩
    | exact ⟨_, _, rfl, by decide⟩

mutual

theorem Statement.legible {inLoop : Bool} {rest : List Token} (legible : AlwaysLegible rest) :
    (s : Statement inLoop) → AlwaysLegible (s.tokens ++ rest)
  | .assign x y => by
    have value : AlwaysLegible (⟨.operator, "="⟩ :: .blank :: y.token :: .mark ";" :: rest) :=
      ((y.legible_token (legible.mark ";" rfl) rfl).blank rfl).cons (by decide) fun u hu => by cases hu; rfl
    exact x.legible_token (value.blank rfl) rfl
  | .giveBack x => ((x.legible_token (legible.mark ";" rfl) rfl).blank rfl).word "return" rfl rfl
  | .leave => (legible.mark ";" rfl).word "break" rfl rfl
  | .again => (legible.mark ";" rfl).word "continue" rfl rfl
  | .branch test gap body others => by
    have block := gap.legible_block (Script.legible ((others.legible legible).mark "\x7d" rfl) rfl body)
    simpa [Statement.tokens] using (test.legible_condition block.1).word "if" rfl rfl
  | .loopWhile test gap body => by
    have block := gap.legible_block (Script.legible (legible.mark "\x7d" rfl) rfl body)
    simpa [Statement.tokens] using (test.legible_condition block.1).word "while" rfl rfl
  | .loopUntil gap body gap' test => by
    have condition := (test.legible_condition (legible.mark ";" rfl)).word "while" rfl rfl
    have block := gap.legible_block (Script.legible ((Gap.legible condition rfl gap').mark "\x7d" rfl) rfl body)
    simpa [Statement.tokens] using block.1.word "do" rfl block.2
  | .loopOver values item collection gap body => by
    have block := gap.legible_block (Script.legible (legible.mark "\x7d" rfl) rfl body)
    have ranged := (collection.legible_token (block.1.mark ")" rfl) rfl).blank rfl
    have each := ranged.word (if values then "of" else "in") (by cases values <;> rfl) rfl
    have head := ((item.legible_token (each.blank rfl) rfl).blank rfl).word "const" rfl rfl
    simpa [Statement.tokens, loopHead] using ((head.mark "(" rfl).blank rfl).word "for" rfl rfl

theorem Script.legible {inLoop : Bool} {rest : List Token} (legible : AlwaysLegible rest)
    (solid : rest.head?.all (!·.isTrivia) = true) : (b : Script inLoop) → AlwaysLegible (b.tokens ++ rest)
  | .last gap => Gap.legible legible solid gap
  | .more gap first others => by
    have further := first.legible (Script.legible legible solid others)
    obtain ⟨text, tail, tokens, _⟩ := first.head_tokens
    rw [Script.tokens, List.append_assoc, List.append_assoc]
    exact Gap.legible further (by rw [tokens]; rfl) gap

theorem Branches.legible {inLoop : Bool} {rest : List Token} (legible : AlwaysLegible rest) :
    (others : Branches inLoop) → AlwaysLegible (others.tokens ++ rest)
  | .none => legible
  | .otherwise gap gap' body => by
    have block := gap'.legible_block (Script.legible (legible.mark "\x7d" rfl) rfl body)
    simpa [Branches.tokens] using Gap.legible (block.1.word "else" rfl block.2) rfl gap
  | .elseIf gap test gap' body others => by
    have block := gap'.legible_block (Script.legible ((others.legible legible).mark "\x7d" rfl) rfl body)
    have branch := (test.legible_condition block.1).word "if" rfl rfl
    simpa [Branches.tokens] using Gap.legible ((branch.blank rfl).word "else" rfl rfl) rfl gap

end

end NoteScript

import NoteScript.Proofs.Passage
import NoteScript.Proofs.Smooth

/-!
# Comments between sentences

A comment of a script becomes a comment of Lua, and what is no comment does not depend on it: leaving the comments out of
the Lua text gives the words that the script without its comments is converted to. That is so for comments between
sentences. Inside a sentence a comment can be taken for an operand, and the end of its line can be lost.

* `Lua.withoutComments`: a Lua text without its comments, which are told from strings.
* `Token.withoutComments`: a script without its comments.
* `convertTokens_withoutComments`: leaving comments out before and after the conversion comes to the same.
-/

namespace NoteScript

open Buffer Text Token

/-! ### Comments of Lua -/

namespace Lua

variable {cs : List Char} {c : Char}

/-- The number of characters up to a mark and with it, or all of them. -/
def sizeTo (mark : List Char) : List Char → Nat
  | [] => 0
  | c :: cs => if mark.isPrefixOf (c :: cs) then mark.length else sizeTo mark cs + 1

/-- The size of the text in long brackets, such as `[[…]]` or `[=[…]=]`, that some characters start with; 0 if there is
none. -/
def longSize : List Char → Nat
  | '[' :: rest =>
    let signs := rest.takeWhile (· == '=')
    match rest.drop signs.length with
    | '[' :: inside => 2 + signs.length + sizeTo (']' :: signs ++ [']']) inside
    | _ => 0
  | _ => 0

/-- The size of the inside of a string in quotes, with the quote that ends it. A backslash takes the next character along. -/
def quotedSize (quote : Char) : List Char → Nat
  | [] => 0
  | '\\' :: _ :: rest => quotedSize quote rest + 2
  | c :: rest => if c == quote then 1 else quotedSize quote rest + 1

/-- The size of the string that some characters start with; 0 if there is none. -/
def stringSize : List Char → Nat
  | '"' :: rest => quotedSize '"' rest + 1
  | '\'' :: rest => quotedSize '\'' rest + 1
  | cs => longSize cs

/-- The size of the comment that some characters start with; 0 if there is none. A comment is in long brackets, or it goes up
to the end of its line. -/
def commentSize : List Char → Nat
  | '-' :: '-' :: rest =>
    if longSize rest = 0 then 2 + (rest.takeWhile fun c => c != '\n' && c != '\r').length else 2 + longSize rest
  | _ => 0

/-- Characters without the comments in them, where the next `left` ones belong to a string, if they are kept, or to a
comment. -/
def codeFrom (kept : Bool) (left : Nat) : List Char → List Char
  | [] => []
  | c :: cs =>
    match left with
    | left + 1 => if kept then c :: codeFrom kept left cs else codeFrom kept left cs
    | 0 =>
      if commentSize (c :: cs) = 0 then c :: codeFrom true (stringSize (c :: cs) - 1) cs
      else codeFrom false (commentSize (c :: cs) - 1) cs

/-- Characters without the comments in them. -/
def code (cs : List Char) : List Char := codeFrom true 0 cs

/-- A text without its comments. -/
def withoutComments (s : String) : String := String.ofList (code s.toList)

example : withoutComments "f(\"--\", [=[ -- ]] ]=]) --[[ a\n]] g() -- b\nh()" = "f(\"--\", [=[ -- ]] ]=])  g() \nh()" := by
  decide

theorem codeFrom_zero (kept : Bool) (cs : List Char) : codeFrom kept 0 cs = code cs := by
  cases cs <;> rfl

theorem codeFrom_drop (left : Nat) (cs : List Char) : codeFrom false left cs = code (cs.drop left) := by
  induction cs generalizing left with
  | nil => simp [code, codeFrom]
  | cons c cs ih =>
    cases left with
    | zero => exact codeFrom_zero false _
    | succ left => exact ih left

/-- A comment is left out. -/
theorem code_comment {size : Nat} (found : commentSize cs = size + 1) : code cs = code (cs.drop (size + 1)) := by
  cases cs with
  | nil => cases found
  | cons c cs =>
    have some : commentSize (c :: cs) ≠ 0 := by omega
    rw [code, codeFrom, if_neg some, found, codeFrom_drop]
    rfl

theorem longSize_eq_zero (pair : ∀ d, cs.head? = some d → (c, d) ∉ doubleMarks) : longSize (c :: cs) = 0 := by
  unfold longSize
  split
  · rename_i rest same
    obtain ⟨rfl, rfl⟩ := List.cons.inj same
    cases cs with
    | nil => rfl
    | cons d cs =>
      have marks : ∀ d ∈ ['=', '['], ('[', d) ∈ doubleMarks := by decide
      have other : d ≠ '=' ∧ d ≠ '[' := by
        constructor <;> rintro rfl <;> exact pair _ rfl (marks _ (by decide))
      simp [other]
  · rfl

theorem code_cons (noComment : commentSize (c :: cs) = 0) (noString : stringSize (c :: cs) = 0) :
    code (c :: cs) = c :: code cs := by
  rw [code, codeFrom, if_pos noComment, noString]
  rfl

/-- Where no string and no comment starts, a character is copied. -/
theorem code_plain (quote : c ∉ ['"', '\''])
    (pair : ∀ d, cs.head? = some d → (c, d) ∉ doubleMarks) : code (c :: cs) = c :: code cs := by
  apply code_cons
  · unfold commentSize
    split
    · rename_i rest same
      obtain ⟨rfl, rfl⟩ := List.cons.inj same
      exact absurd (by decide) (pair '-' rfl)
    · rfl
  · unfold stringSize
    split
    · rename_i rest same
      obtain ⟨rfl, -⟩ := List.cons.inj same
      exact absurd (by decide) quote
    · rename_i rest same
      obtain ⟨rfl, -⟩ := List.cons.inj same
      exact absurd (by decide) quote
    · exact longSize_eq_zero pair

/-- A text without quotes and double marks is copied, whatever follows. -/
theorem code_append (quotes : ∀ c ∈ cs, c ∉ ['"', '\'']) (pairs : NoDoubleMark cs)
    (ends : cs.getLast?.all (!firstMarks.contains ·) = true) (rest : List Char) : code (cs ++ rest) = cs ++ code rest := by
  induction cs with
  | nil => rfl
  | cons c cs ih =>
    obtain ⟨quote, later⟩ := List.forall_mem_cons.mp quotes
    cases cs with
    | nil =>
      refine code_plain quote fun d _ double => ?_
      have first := (mem_of_doubleMarks (c, d) double).1
      simp [first] at ends
    | cons d cs =>
      obtain ⟨pair, others⟩ := List.isChain_cons_cons.mp pairs
      have first : code (c :: (d :: cs ++ rest)) = c :: code (d :: cs ++ rest) := by
        refine code_plain quote fun e head => ?_
        cases head
        exact pair
      rw [List.cons_append, first, ih later others (by simpa using ends)]
      rfl

theorem code_smooth {s : String} (h : Smooth s) (rest : List Char) : code (s.toList ++ rest) = s.toList ++ code rest :=
  code_append h.quotes h.pairs h.ends rest

/-! A comment of one line. -/

theorem code_blank {blanks : List Char} (blank : ∀ c ∈ blanks, isSpace c = true) (rest : List Char) :
    code (blanks ++ rest) = blanks ++ code rest := by
  have marks : ∀ c ∈ outerMarks ++ firstMarks ++ secondMarks, isSpace c = false := by decide
  have smooth : Smooth (String.ofList blanks) := by
    refine .flat fun c mem mark => ?_
    rw [String.toList_ofList] at mem
    have space := blank c mem
    simp [marks c mark] at space
  simpa using code_smooth smooth rest

theorem code_lineComment (head : cs.head? ≠ some '[') :
    code ('-' :: '-' :: cs) = code (cs.dropWhile fun c => c != '\n' && c != '\r') := by
  have short : longSize cs = 0 := by
    unfold longSize
    split
    · simp at head
    · rfl
  have size : commentSize ('-' :: '-' :: cs) = (cs.takeWhile fun c => c != '\n' && c != '\r').length + 1 + 1 := by
    rw [commentSize, if_pos short]
    omega
  have behind : cs.drop (cs.takeWhile fun c => c != '\n' && c != '\r').length = cs.dropWhile fun c => c != '\n' && c != '\r' :=
    (congrArg (List.drop _) List.takeWhile_append_dropWhile.symm).trans List.drop_left
  rw [code_comment size, List.drop_succ_cons, List.drop_succ_cons, behind]

/-- Nothing but white space is left of a comment up to the end of its line. -/
theorem code_line {body : List Char} (inside : ∀ c ∈ body, c ≠ '\n') (head : body.head? ≠ some '[')
    (returns : ∀ c ∈ body.dropWhile (· != '\r'), isSpace c = true) (rest : List Char) :
    code ('-' :: '-' :: (body ++ '\n' :: rest)) = body.dropWhile (· != '\r') ++ '\n' :: code rest := by
  have ends : (body ++ '\n' :: rest).dropWhile (fun c => c != '\n' && c != '\r') =
      body.dropWhile (· != '\r') ++ '\n' :: rest := by
    clear head returns
    induction body with
    | nil => rfl
    | cons c body ih =>
      obtain ⟨other, later⟩ := List.forall_mem_cons.mp inside
      by_cases same : c = '\r'
      · simp [same]
      · simp [same, other, ih later]
  have starts : (body ++ '\n' :: rest).head? ≠ some '[' := by
    cases body with
    | nil => simp
    | cons => exact head
  have feed : code ('\n' :: rest) = '\n' :: code rest := (code_blank (List.forall_mem_singleton.mpr (by decide)) rest)
  rw [code_lineComment starts, ends, code_blank returns, feed]

/-! A comment in brackets. -/

theorem sizeTo_cons (other : c = ']' → cs.head? ≠ some ']') : sizeTo [']', ']'] (c :: cs) = sizeTo [']', ']'] cs + 1 := by
  rw [sizeTo, if_neg]
  intro found
  cases cs with
  | nil => simp [List.isPrefixOf] at found
  | cons d cs =>
    obtain ⟨rfl, rfl⟩ : ']' = c ∧ ']' = d := by simpa [List.isPrefixOf] using found
    exact other rfl rfl

/-- The closing mark broken up. -/
abbrev broken (cs : List Char) : List Char := replaceFrom [']', ']'] [']', ' ', ']'] 0 cs

theorem broken_double (cs : List Char) : broken (']' :: ']' :: cs) = ']' :: ' ' :: ']' :: broken cs := rfl

theorem broken_cons {d : Char} (cs : List Char) (single : ¬ (c = ']' ∧ d = ']')) :
    broken (c :: d :: cs) = c :: broken (d :: cs) := by
  rw [broken, replaceFrom, if_neg]
  intro found
  obtain ⟨rfl, rfl⟩ : ']' = c ∧ ']' = d := by simpa [List.isPrefixOf] using found
  exact single ⟨rfl, rfl⟩

theorem head?_broken (c : Char) (cs : List Char) : (broken (c :: cs)).head? = some c := by
  rw [broken, replaceFrom]
  split
  · rename_i found
    cases cs with
    | nil => simp [List.isPrefixOf] at found
    | cons d cs =>
      obtain ⟨rfl, -⟩ : ']' = c ∧ ']' = d := by simpa [List.isPrefixOf] using found
      rfl
  · rfl

/-- With its closing mark broken up, the text of a comment does not end before its brackets do. -/
theorem sizeTo_broken (rest : List Char) : (cs : List Char) → occursIn [']', ']', ']'] cs = false → cs.getLast? ≠ some ']' →
    sizeTo [']', ']'] (broken cs ++ ']' :: ']' :: rest) = (broken cs).length + 2
  | [], _, _ => rfl
  | [c], _, ends => by
    have other : c ≠ ']' := by simpa using ends
    have shape : broken [c] = [c] := by simp [broken, replaceFrom, List.isPrefixOf]
    rw [shape, List.singleton_append, sizeTo_cons fun same => absurd same other]
    rfl
  | c :: d :: cs, tidy, ends => by
    simp only [occursIn, Bool.or_eq_false_iff] at tidy
    obtain ⟨triple, inside, tidy⟩ := tidy
    by_cases double : c = ']' ∧ d = ']'
    · obtain ⟨rfl, rfl⟩ := double
      cases cs with
      | nil => simp at ends
      | cons e cs =>
        have other : e ≠ ']' := by
          rintro rfl
          cases triple
        have next : (broken (e :: cs) ++ ']' :: ']' :: rest).head? ≠ some ']' := by
          rw [List.head?_append, head?_broken]
          simpa using other
        rw [broken_double, List.cons_append, List.cons_append, List.cons_append, sizeTo_cons (by simp), sizeTo_cons (by simp),
          sizeTo_cons fun _ => next, sizeTo_broken rest (e :: cs) tidy (by simpa using ends)]
        rfl
    · have next : c = ']' → (broken (d :: cs) ++ ']' :: ']' :: rest).head? ≠ some ']' := by
        intro same
        rw [List.head?_append, head?_broken]
        simpa using fun other => double ⟨same, other⟩
      have whole : occursIn [']', ']', ']'] (d :: cs) = false := by simp [occursIn, inside, tidy]
      rw [broken_cons cs double, List.cons_append, sizeTo_cons next, sizeTo_broken rest (d :: cs) whole (by simpa using ends)]
      rfl

/-- Nothing is left of a comment in brackets. -/
theorem code_block {body : List Char} (tidy : occursIn [']', ']', ']'] body = false) (ends : body.getLast? ≠ some ']')
    (rest : List Char) : code ('-' :: '-' :: '[' :: '[' :: (broken body ++ ']' :: ']' :: rest)) = code rest := by
  have long : longSize ('[' :: '[' :: (broken body ++ ']' :: ']' :: rest)) = (broken body).length + 4 := by
    have closes := sizeTo_broken rest body tidy ends
    change 2 + 0 + sizeTo [']', ']'] (broken body ++ ']' :: ']' :: rest) = _
    omega
  have size : commentSize ('-' :: '-' :: '[' :: '[' :: (broken body ++ ']' :: ']' :: rest)) = (broken body).length + 5 + 1 := by
    rw [commentSize, long, if_neg (by omega)]
    omega
  rw [code_comment size]
  simp

end Lua

/-! ### Texts that differ in white space -/

namespace Text

/-- Two texts with the same words, also right behind the characters of a word. -/
def Alike (cs ds : List Char) : Prop := ∀ word, wordsFrom word cs = wordsFrom word ds

theorem Alike.append {cs ds : List Char} (h : Alike cs ds) (front : List Char) : Alike (front ++ cs) (front ++ ds) := by
  induction front with
  | nil => exact h
  | cons c front ih =>
    intro word
    rw [List.cons_append, List.cons_append, wordsFrom, wordsFrom, ih, ih]

theorem wordsFrom_blanks {blanks : List Char} (blank : ∀ c ∈ blanks, isSpace c = true) (nonempty : blanks ≠ [])
    (cs word : List Char) : wordsFrom word (blanks ++ cs) = wordOf word ++ wordsFrom [] cs := by
  have space : (blanks ++ cs).head?.all isSpace = true := by
    cases blanks with
    | nil => exact absurd rfl nonempty
    | cons c blanks => exact blank c List.mem_cons_self
  rw [wordsFrom_space space, wordsFrom_blank (List.all_eq_true.mpr blank)]

/-- White space does not matter, but for whether there is some. -/
theorem Alike.behind_blanks {blanks blanks' cs ds : List Char} (h : Alike cs ds) (blank : ∀ c ∈ blanks, isSpace c = true)
    (blank' : ∀ c ∈ blanks', isSpace c = true) (same : blanks = [] ↔ blanks' = []) : Alike (blanks ++ cs) (blanks' ++ ds) := by
  by_cases empty : blanks = []
  · rw [empty, same.mp empty]
    exact h
  · intro word
    rw [wordsFrom_blanks blank empty, wordsFrom_blanks blank' (mt same.mpr empty), h]

end Text

/-! ### Comments left out of a script -/

namespace Token

/-- What is left of a token without comments: of a comment in brackets a blank, and nothing of one that ends with its line. -/
def bareText (t : Token) : String := if t.kind == .comment then if beginsWith "//" t.text then "" else " " else t.text

def bareSource (ts : List Token) : String := String.join (ts.map bareText)

/-- A script without its comments. -/
def withoutComments (source : String) : String := bareSource (tokenize source)

theorem bareSource_append (ts ts' : List Token) : bareSource (ts ++ ts') = bareSource ts ++ bareSource ts' := by
  simp [bareSource, String.join_append]

theorem bareSource_of_kind {ts : List Token} (other : ∀ t ∈ ts, t.kind ≠ .comment) : bareSource ts = sourceText ts := by
  have same : ts.map bareText = ts.map (·.text) := by
    refine List.map_congr_left fun t mem => ?_
    rw [bareText, if_neg (by simpa using other t mem)]
  rw [bareSource, same, sourceText]

/-- A comment is not legible by itself. -/
theorem Legible.kind_ne {divides : Bool} {ts : List Token} (h : Legible divides ts) : ∀ t ∈ ts, t.kind ≠ .comment := by
  induction ts generalizing divides with
  | nil => simp
  | cons t ts ih =>
    obtain ⟨readable, -, later⟩ := h
    refine List.forall_mem_cons.mpr ⟨fun kind => ?_, ih later⟩
    simp [Readable, kind] at readable

end Token

namespace Comment

/-- The white space that is left of a comment and of the end of its line. -/
def bare : Comment → Gap
  | line _ _ _ => [.feed]
  | block _ _ _ => [.blank]

theorem bare_ne_nil (c : Comment) : c.bare ≠ [] := by cases c <;> simp [bare]

theorem exists_bare (c : Comment) : ∃ front, c.bare = front ++ c.feeds := by
  cases c with
  | line => exact ⟨[], rfl⟩
  | block => exact ⟨[.blank], rfl⟩

theorem text_bare (c : Comment) : (c.token.bareText ++ sourceText c.feeds.tokens).toList = c.bare.map Space.char := by
  rw [bareText, if_pos c.kind_token, String.toList_append, Gap.toList_text]
  cases c with
  | line body =>
    have starts : beginsWith "//" ("//" ++ body) = true := by simp [beginsWith]
    rw [token, if_pos starts]
    rfl
  | block body =>
    have starts : ¬ beginsWith "//" ("/*" ++ body ++ "*/") = true := by simp [beginsWith, List.isPrefixOf]
    rw [token, if_neg starts]
    rfl

/-- Lua reads the text of a comment as one comment, up to the end of its line. -/
theorem code_lua (c : Comment) : ∃ blanks : List Char, (∀ b ∈ blanks, isSpace b = true) ∧
    ∀ rest, Lua.code ((Literal.comment c.token.text ++ sourceText c.feeds.tokens).toList ++ rest) = blanks ++ Lua.code rest := by
  cases c with
  | line body inside returns =>
    refine ⟨body.toList.dropWhile (· != '\r') ++ ['\n'], ?_, fun rest => ?_⟩
    · intro b mem
      rcases List.mem_append.mp mem with mem | mem
      · exact returns b mem
      · rw [List.mem_singleton.mp mem]
        decide
    · change Lua.code ((Literal.comment ("//" ++ body) ++ "\n").toList ++ rest) = _
      rw [Literal.comment_line]
      cases opens : beginsWith "[" body with
      | true =>
        have lines : ∀ c ∈ ' ' :: body.toList, c ≠ '\n' := List.forall_mem_cons.mpr ⟨by decide, inside⟩
        simpa using Lua.code_line lines (by simp) returns rest
      | false =>
        have head : body.toList.head? ≠ some '[' := by
          intro first
          obtain ⟨others, shape⟩ := List.head?_eq_some_iff.mp first
          simp [beginsWith, shape] at opens
        simpa using Lua.code_line inside head returns rest
  | block body inside tidy =>
    refine ⟨[], by simp, fun rest => ?_⟩
    have ends : body.toList.getLast? ≠ some ']' := by
      intro last
      obtain ⟨front, shape⟩ := List.getLast?_eq_some_iff.mp last
      have closes : endsWith "]" body = true := by
        rw [endsWith, List.isSuffixOf_iff_suffix]
        exact ⟨front, shape.symm⟩
      simp [tidy.2] at closes
    change Lua.code ((Literal.comment ("/*" ++ body ++ "*/") ++ "").toList ++ rest) = _
    rw [Literal.comment_block, Literal.inBlockComment, Text.replace]
    simpa using Lua.code_block tidy.1 ends rest

end Comment

theorem Gap.isSpace_of_mem (g : Gap) : ∀ b ∈ (sourceText g.tokens).toList, isSpace b = true := by
  rw [g.toList_text]
  refine List.forall_mem_map.mpr fun space _ => ?_
  cases space <;> decide

namespace Interlude

/-- The white space of an interlude without its comments. -/
def bare : Interlude → Gap
  | gap g => g
  | remark g c rest => g ++ c.bare ++ rest.bare

theorem bareSource_tokens (i : Interlude) : bareSource i.tokens = sourceText i.bare.tokens := by
  have plain (g : Gap) : bareSource g.tokens = sourceText g.tokens := by
    refine bareSource_of_kind fun t mem => ?_
    rcases (g.blank_of_mem t mem).1 with kind | kind <;> simp [kind]
  induction i with
  | gap g => exact plain g
  | remark g c rest ih =>
    have shape : (remark g c rest).tokens = g.tokens ++ ([c.token] ++ c.feeds.tokens) ++ rest.tokens := by simp [tokens]
    have comment : bareSource ([c.token] ++ c.feeds.tokens) = c.token.bareText ++ sourceText c.feeds.tokens := by
      rw [bareSource_append, plain]
      simp [bareSource]
    apply String.toList_injective
    rw [shape, bareSource_append, bareSource_append, plain, comment, ih, String.toList_append, String.toList_append, c.text_bare,
      Gap.toList_text, Gap.toList_text, Gap.toList_text, bare, List.map_append, List.map_append]

/-- Without the comments the white space behind the last one stays. -/
theorem exists_trail_bare : (i : Interlude) → (fed : Gap) → ∃ front, fed ++ i.bare = front ++ i.trail fed
  | gap g, fed => ⟨[], rfl⟩
  | remark g c rest, fed => by
    obtain ⟨front, shape⟩ := rest.exists_trail_bare c.feeds
    obtain ⟨first, split⟩ := c.exists_bare
    refine ⟨fed ++ g ++ first ++ front, ?_⟩
    rw [bare, trail, split, List.append_assoc _ front, ← shape]
    simp

theorem clears_bare {i : Interlude} {atStart isChoice : Bool} (clear : i.clears atStart isChoice = true) :
    (gap i.bare).clears atStart isChoice = true := by
  obtain ⟨front, shape⟩ := i.exists_trail_bare []
  have trail : (gap i.bare).trail [] = front ++ i.trail [] := shape
  rw [clears, Bool.or_eq_true, Bool.and_eq_true] at clear ⊢
  rcases clear with ⟨first, -⟩ | clear
  · exact .inl ⟨first, rfl⟩
  · right
    rw [trail]
    cases isChoice with
    | true =>
      rw [if_pos rfl, Gap.hasFeed] at clear ⊢
      rw [List.any_append, clear, Bool.or_true]
    | false =>
      have room : i.trail [] ≠ [] := by simpa using clear
      simp [room]

/-- Lua reads nothing in an interlude but white space. -/
theorem code_lua (i : Interlude) (glued : Bool) : ∃ blanks : List Char, (∀ b ∈ blanks, isSpace b = true) ∧
    (glued = true → (blanks = [] ↔ (sourceText i.bare.tokens).toList = [])) ∧
    ∀ rest, Lua.code ((i.lua glued).toList ++ rest) = blanks ++ Lua.code rest := by
  induction i generalizing glued with
  | gap g => exact ⟨(sourceText g.tokens).toList, g.isSpace_of_mem, fun _ => Iff.rfl, Lua.code_blank g.isSpace_of_mem⟩
  | remark g c rest ih =>
    obtain ⟨comment, blank, read⟩ := c.code_lua
    obtain ⟨others, blank', -, read'⟩ := ih c.feeds.isEmpty
    set space := if glued && g.isEmpty then " " else "" with kept
    have apart : ∀ b ∈ space.toList, isSpace b = true := by
      rw [kept]
      cases glued && g.isEmpty <;> decide
    refine ⟨(sourceText g.tokens).toList ++ space.toList ++ comment ++ others, ?_, ?_, fun behind => ?_⟩
    · simp only [List.forall_mem_append]
      exact ⟨⟨⟨g.isSpace_of_mem, apart⟩, blank⟩, blank'⟩
    · rintro rfl
      have room : (sourceText g.tokens).toList ++ space.toList ≠ [] := by
        rw [kept, g.toList_text]
        cases g <;> simp
      have left : (sourceText (remark g c rest).bare.tokens).toList ≠ [] := by
        rw [Gap.toList_text]
        simp [bare, c.bare_ne_nil]
      exact iff_of_false (by simpa using fun empty blank => absurd (by simp [empty, blank]) room) left
    · have shape : ((remark g c rest).lua glued).toList ++ behind = (sourceText g.tokens).toList ++ (space.toList ++
          ((Literal.comment c.token.text ++ sourceText c.feeds.tokens).toList ++ ((rest.lua c.feeds.isEmpty).toList ++ behind))) := by
        simp [lua, kept]
      rw [shape, Lua.code_blank g.isSpace_of_mem, Lua.code_blank apart, read, read']
      simp

end Interlude

/-! ### Passages without comments -/

namespace Passage

/-- A passage without its comments. -/
def bare {atStart : Bool} : Passage atStart → Passage atStart
  | closing i => closing (.gap i.bare)
  | more i s clear rest => more (.gap i.bare) s (fun alone => Interlude.clears_bare (clear alone)) rest.bare

theorem bareSource_tokens {atStart : Bool} : (p : Passage atStart) → bareSource p.tokens = sourceText p.bare.tokens
  | closing i => i.bareSource_tokens
  | more i s clear rest => by
    have sentence : bareSource (s.tokens ++ ending true) = sourceText (s.tokens ++ ending true) :=
      bareSource_of_kind (Legible.kind_ne (s.legible_ending true false))
    have shape : (more i s clear rest).tokens = i.tokens ++ (s.tokens ++ ending true) ++ rest.tokens := by simp [tokens]
    have shape' : (more i s clear rest).bare.tokens = i.bare.tokens ++ (s.tokens ++ ending true) ++ rest.bare.tokens := by
      simp [tokens, bare, Interlude.tokens]
    rw [shape, shape', bareSource_append, bareSource_append, sentence, i.bareSource_tokens, rest.bareSource_tokens,
      ← sourceText_append, ← sourceText_append]

theorem withoutComments_sourceText (p : Passage true) : withoutComments (sourceText p.tokens) = sourceText p.bare.tokens := by
  have nothing : bareSource [Token.eof] = "" := rfl
  rw [withoutComments, p.readBack.tokenize_eq, bareSource_append, nothing, String.append_empty, p.bareSource_tokens]

/-- The texts of a passage with and without its comments: white space, and the same words behind it. -/
theorem exists_alike {atStart : Bool} : (p : Passage atStart) → (glued : Bool) → ∃ blanks blanks' cs ds : List Char,
    Lua.code (p.lua glued).toList = blanks ++ cs ∧ (p.bare.lua glued).toList = blanks' ++ ds ∧
    (∀ b ∈ blanks, isSpace b = true) ∧ (∀ b ∈ blanks', isSpace b = true) ∧ (glued = true → (blanks = [] ↔ blanks' = [])) ∧
    Alike cs ds
  | closing i, glued => by
    obtain ⟨blanks, blank, room, read⟩ := i.code_lua glued
    have ends : Lua.code (i.lua glued).toList = blanks ++ [] := by
      have whole := read []
      rwa [List.append_nil] at whole
    have ends' : ((closing i : Passage atStart).bare.lua glued).toList = (sourceText i.bare.tokens).toList ++ [] := by
      rw [List.append_nil]
      rfl
    exact ⟨blanks, _, [], [], ends, ends', blank, Gap.isSpace_of_mem _, room, fun _ => rfl⟩
  | more i s clear rest, glued => by
    obtain ⟨blanks, blank, room, read⟩ := i.code_lua glued
    obtain ⟨between, between', cs, ds, code, text, blank₁, blank₂, room', alike⟩ := rest.exists_alike true
    have further : Alike (Lua.code (rest.lua true).toList) (rest.bare.lua true).toList := by
      rw [code, text]
      exact alike.behind_blanks blank₁ blank₂ (room' rfl)
    have shape : Lua.code ((more i s clear rest).lua glued).toList =
        blanks ++ (s.lua.toList ++ Lua.code (rest.lua true).toList) := by
      rw [lua, String.toList_append, String.toList_append, List.append_assoc, read, Lua.code_smooth s.smooth_lua]
    have shape' : ((more i s clear rest).bare.lua glued).toList =
        (sourceText i.bare.tokens).toList ++ (s.lua.toList ++ (rest.bare.lua true).toList) := by
      rw [bare, lua, String.toList_append, String.toList_append, List.append_assoc]
      rfl
    exact ⟨blanks, _, _, _, shape, shape', blank, Gap.isSpace_of_mem _, room, further.append s.lua.toList⟩

theorem words_withoutComments (p : Passage true) : words (Lua.withoutComments (p.lua false)) = words (p.bare.lua false) := by
  obtain ⟨blanks, blanks', cs, ds, code, text, blank, blank', -, alike⟩ := p.exists_alike false
  rw [words, words, Lua.withoutComments, String.toList_ofList, code, text, wordsFrom_blank (List.all_eq_true.mpr blank),
    wordsFrom_blank (List.all_eq_true.mpr blank'), alike]

end Passage

/-- Comments between sentences do not matter. Such a script is converted to the text of its sentences with a Lua comment for
each comment. The words that are left of it without the Lua comments are those of the script without its comments, and there
is nothing to report of both. -/
theorem convertTokens_withoutComments (p : Passage true) (ledger : Ledger) :
    ∃ code code' ledger₁ ledger₂,
      convertTokens (tokenize (sourceText p.tokens)) ledger = (.ok code, ledger₁) ∧
      convertTokens (tokenize (withoutComments (sourceText p.tokens))) ledger = (.ok code', ledger₂) ∧
      code = p.lua false ∧ words (Lua.withoutComments code) = words code' ∧
      ledger₁.diagnostics = ledger₂.diagnostics := by
  obtain ⟨ledger₁, converted₁, reported₁⟩ := p.convertTokens_eq ledger
  obtain ⟨ledger₂, converted₂, reported₂⟩ := p.bare.convertTokens_eq ledger
  rw [← p.withoutComments_sourceText] at converted₂
  exact ⟨_, _, ledger₁, ledger₂, converted₁, converted₂, rfl, p.words_withoutComments, reported₁.trans reported₂.symm⟩

/-- The end of a line is lost behind an argument: Lua takes the closing bracket for the comment. -/
theorem convertTokens_comment_in_argument :
    (convertTokens (tokenize "x.push(a // k\n);") {}).1 = .ok "table.insert(x, a -- k)" ∧
    (convertTokens (tokenize (withoutComments "x.push(a // k\n);")) {}).1 = .ok "table.insert(x, a)" ∧
    words (Lua.withoutComments "table.insert(x, a -- k)") ≠ words "table.insert(x, a)" := by
  decide +kernel

end NoteScript

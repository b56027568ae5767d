import NoteScript.Proofs.Comments
import NoteScript.Proofs.Lossless

/-!
# Comments that stay closed

The text of a comment of a script becomes the text of a Lua comment, and so does a regular expression that has no Lua pattern.
A closing mark inside is broken up by one replacement, which does not look at what it has made: of three closing brackets in a
row two are left together, and a bracket at the very end grows together with the mark that closes the comment.

* `Lua.isLineComment`, `Lua.isLongComment`: a text that is one comment of Lua from its first to its last character.
* `Token.Remark`: how the comments of a script are spelled.
* `comments_closed_iff`: a comment up to the end of its line stays closed, and one in brackets exactly if its text neither holds
  three closing brackets in a row nor ends in one.
-/

namespace NoteScript

open Text Token

namespace Lua

/-- A comment up to the end of its line: it opens no long brackets, and there is no line feed in it. -/
def isLineComment (s : String) : Bool := match s.toList with
  | '-' :: '-' :: inside => longSize inside == 0 && inside.all (· != '\n')
  | _ => false

/-- A comment in long brackets: the first closing mark behind the opening one is at the very end. -/
def isLongComment (s : String) : Bool := match s.toList with
  | '-' :: '-' :: '[' :: '[' :: inside => [']', ']'].isSuffixOf inside && !occursIn [']', ']'] inside.dropLast
  | _ => false

/-! ### Closing marks that were broken up -/

/-- Where no two closing brackets stand together, nothing that starts with two of them is found. -/
theorem occursIn_cons_single {c : Char} {cs : List Char} (single : c = ']' → cs.head? ≠ some ']') (part : List Char) :
    occursIn (']' :: ']' :: part) (c :: cs) = occursIn (']' :: ']' :: part) cs := by
  have other : (']' :: ']' :: part).isPrefixOf (c :: cs) = false := by
    rw [Bool.eq_false_iff]
    intro found
    cases cs with
    | nil => simp [List.isPrefixOf] at found
    | cons d cs =>
      simp only [List.isPrefixOf, Bool.and_eq_true, beq_iff_eq] at found
      obtain ⟨rfl, rfl, -⟩ := found
      exact single rfl rfl
  rw [occursIn, other, Bool.false_or]

/-- What is left together: two closing brackets behind a third one, or one in front of the bracket that follows. -/
theorem occursIn_broken : (cs : List Char) →
    occursIn [']', ']'] (broken cs ++ [']']) = (occursIn [']', ']', ']'] cs || cs.getLast? == some ']')
  | [] => rfl
  | [c] => by
    by_cases bracket : c = ']'
    · subst bracket
      rfl
    · have shape : broken [c] = [c] := by simp [broken, replaceFrom, List.isPrefixOf]
      rw [shape, List.singleton_append, occursIn_cons_single fun same => absurd same bracket,
        occursIn_cons_single fun same => absurd same bracket]
      simp [occursIn, List.isPrefixOf, bracket]
  | c :: d :: cs => by
    by_cases double : c = ']' ∧ d = ']'
    · obtain ⟨rfl, rfl⟩ := double
      cases cs with
      | nil => rfl
      | cons e cs =>
        have later := occursIn_broken (e :: cs)
        obtain ⟨others, shape⟩ := List.head?_eq_some_iff.mp (head?_broken e cs)
        rw [shape] at later
        rw [broken_double, shape, List.cons_append, List.cons_append, List.cons_append, occursIn_cons_single (by simp),
          occursIn_cons_single (by simp), List.getLast?_cons_cons, List.getLast?_cons_cons]
        by_cases triple : e = ']'
        · subst triple
          rfl
        · have next : ']' = ']' → some e ≠ some ']' := fun _ same => triple (Option.some.inj same)
          have first : occursIn [']', ']', ']'] (']' :: ']' :: e :: cs) = occursIn [']', ']', ']'] (']' :: e :: cs) := by
            have other : [']', ']', ']'].isPrefixOf (']' :: ']' :: e :: cs) = false := by
              simpa [List.isPrefixOf] using Ne.symm triple
            rw [occursIn, other, Bool.false_or]
          have second : occursIn [']', ']', ']'] (']' :: e :: cs) = occursIn [']', ']', ']'] (e :: cs) :=
            occursIn_cons_single next _
          rw [first, second, ← later]
          exact occursIn_cons_single next _
    · have later := occursIn_broken (d :: cs)
      have single : c = ']' → some d ≠ some ']' := fun same other => double ⟨same, Option.some.inj other⟩
      have first : occursIn [']', ']'] (c :: (broken (d :: cs) ++ [']'])) = occursIn [']', ']'] (broken (d :: cs) ++ [']']) := by
        refine occursIn_cons_single ?_ _
        rw [List.head?_append, head?_broken]
        exact single
      have second : occursIn [']', ']', ']'] (c :: d :: cs) = occursIn [']', ']', ']'] (d :: cs) := occursIn_cons_single single _
      rw [broken_cons cs double, List.cons_append, first, second, later, List.getLast?_cons_cons]

/-- A text in long brackets, with its closing marks broken up. -/
theorem isLongComment_broken (s : String) : isLongComment ("--[[" ++ Literal.inBlockComment s ++ "]]") = true ↔
    contains "]]]" s = false ∧ endsWith "]" s = false := by
  have chars : ("--[[" ++ Literal.inBlockComment s ++ "]]").toList =
      '-' :: '-' :: '[' :: '[' :: (broken s.toList ++ [']', ']']) := by
    simp [Literal.inBlockComment, Text.replace]
  have closed : [']', ']'].isSuffixOf (broken s.toList ++ [']', ']']) = true := by
    rw [List.isSuffixOf_iff_suffix]
    exact List.suffix_append _ _
  have shorter : (broken s.toList ++ [']', ']']).dropLast = broken s.toList ++ [']'] := List.dropLast_append_of_ne_nil (by simp)
  have ends : endsWith "]" s = (s.toList.getLast? == some ']') := by
    change [']'].isSuffixOf s.toList = _
    rw [List.isSuffixOf, ← List.head?_reverse, List.reverse_singleton]
    cases s.toList.reverse with
    | nil => rfl
    | cons c cs => simp [List.isPrefixOf, eq_comm]
  simp only [isLongComment, chars, closed, shorter, Bool.true_and, Bool.not_eq_true', occursIn_broken, ends, Bool.or_eq_false_iff]
  rfl

/-! ### Other text around the closing marks -/

theorem broken_append {front : List Char} (plain : ']' ∉ front) (cs : List Char) : broken (front ++ cs) = front ++ broken cs := by
  induction front with
  | nil => rfl
  | cons c front ih =>
    rw [List.mem_cons, not_or] at plain
    rw [List.cons_append, List.cons_append, ← ih plain.2]
    cases shape : front ++ cs with
    | nil => simp [broken, replaceFrom, List.isPrefixOf]
    | cons d others => exact broken_cons others fun double => plain.1 double.1.symm

theorem broken_concat {c : Char} (plain : c ≠ ']') : (cs : List Char) → broken (cs ++ [c]) = broken cs ++ [c]
  | [] => by simp [broken, replaceFrom, List.isPrefixOf]
  | [d] => by
    have alone : broken [d] = [d] := by simp [broken, replaceFrom, List.isPrefixOf]
    have alone' : broken [c] = [c] := by simp [broken, replaceFrom, List.isPrefixOf]
    rw [alone, List.singleton_append, broken_cons [] fun double => plain double.2, alone']
  | d :: e :: cs => by
    by_cases double : d = ']' ∧ e = ']'
    · obtain ⟨rfl, rfl⟩ := double
      rw [List.cons_append, List.cons_append, broken_double, broken_double, broken_concat plain cs]
      rfl
    · have later := broken_concat plain (e :: cs)
      rw [List.cons_append] at later
      rw [List.cons_append, List.cons_append, broken_cons _ double, broken_cons _ double, later]
      rfl

theorem occursIn_append_plain {front : List Char} (plain : ']' ∉ front) (part cs : List Char) :
    occursIn (']' :: ']' :: part) (front ++ cs) = occursIn (']' :: ']' :: part) cs := by
  induction front with
  | nil => rfl
  | cons c front ih =>
    rw [List.mem_cons, not_or] at plain
    rw [List.cons_append, occursIn_cons_single (fun same => absurd same.symm plain.1), ih plain.2]

theorem isPrefixOf_concat {c : Char} {part : List Char} (plain : c ∉ part) (cs : List Char) :
    part.isPrefixOf (cs ++ [c]) = part.isPrefixOf cs := by
  induction part generalizing cs with
  | nil => simp
  | cons d part ih =>
    rw [List.mem_cons, not_or] at plain
    cases cs with
    | nil => simpa [List.isPrefixOf] using fun same => absurd same.symm plain.1
    | cons e cs => rw [List.cons_append, List.isPrefixOf, List.isPrefixOf, ih plain.2]

theorem occursIn_concat {c : Char} {part : List Char} (plain : c ∉ part) (nonempty : part ≠ []) (cs : List Char) :
    occursIn part (cs ++ [c]) = occursIn part cs := by
  induction cs with
  | nil =>
    have other := isPrefixOf_concat plain []
    cases part with
    | nil => exact absurd rfl nonempty
    | cons d part => simpa [occursIn] using other
  | cons d cs ih => rw [List.cons_append, occursIn, occursIn, ih, ← List.cons_append, isPrefixOf_concat plain]

end Lua

/-! ### How comments are spelled -/

namespace Token

/-- The comments of a script: one up to the end of its line, and one in brackets, which may be closed or go on to the end of
the script. -/
inductive Remark : String → Prop where
  | line (body : String) : '\n' ∉ body.toList → Remark ("//" ++ body)
  | block (body : String) : contains "*/" body = false → Remark ("/*" ++ body ++ "*/")
  | unclosed (body : String) : contains "*/" body = false → Remark ("/*" ++ body)

theorem first_comment {divides : Bool} {c : Char} {rest : List Char} (found : (first divides c rest).1 = .comment) :
    c = '/' ∧ (rest.head? = some '/' ∧ (first divides c rest).2 = run (· != '\n') (c :: rest) ∨
      rest.head? = some '*' ∧ (first divides c rest).2 = 2 + blockCommentExtent rest.tail) := by
  revert found
  apply first_induction divides c rest (P := fun found => found.1 = .comment → c = '/' ∧
    (rest.head? = some '/' ∧ found.2 = run (· != '\n') (c :: rest) ∨
      rest.head? = some '*' ∧ found.2 = 2 + blockCommentExtent rest.tail)) <;> try simp
  case line => exact fun slash further => ⟨slash, .inl further⟩
  case block => exact fun slash further => ⟨slash, .inr further⟩
  case symbol => exact fun found => absurd (by simp [found]) (symbol_kind_notMem c rest)

/-- The text of a comment in brackets, up to its closing mark or the end. -/
theorem blockCommentExtent_cases (cs : List Char) :
    (∃ body after, cs = body ++ '*' :: '/' :: after ∧ occursIn ['*', '/'] body = false ∧
      blockCommentExtent cs = body.length + 2) ∨
    occursIn ['*', '/'] cs = false ∧ blockCommentExtent cs = cs.length := by
  fun_induction blockCommentExtent cs with
  | case1 => exact .inr ⟨rfl, rfl⟩
  | case2 after => exact .inl ⟨[], after, rfl, rfl, rfl⟩
  | case3 c rest further ih =>
    have open' : ['*', '/'].isPrefixOf (c :: rest) = false := by
      rw [Bool.eq_false_iff]
      intro found
      cases rest with
      | nil => simp [List.isPrefixOf] at found
      | cons d rest =>
        obtain ⟨rfl, rfl⟩ : '*' = c ∧ '/' = d := by simpa [List.isPrefixOf] using found
        exact further rest rfl rfl
    rcases ih with ⟨body, after, rfl, inside, extent⟩ | ⟨inside, extent⟩
    · refine .inl ⟨c :: body, after, rfl, ?_, by rw [extent, List.length_cons]; omega⟩
      have shorter : ['*', '/'].isPrefixOf (c :: body) = false := by
        rw [Bool.eq_false_iff] at open' ⊢
        intro found
        exact open' (List.isPrefixOf_iff_prefix.mpr ((List.isPrefixOf_iff_prefix.mp found).trans (List.prefix_append (c :: body) _)))
      rw [occursIn, shorter, inside, Bool.or_self]
    · exact .inr ⟨by rw [occursIn, open', inside, Bool.or_self], by rw [extent, List.length_cons, Nat.add_comm]⟩

theorem Cut.remark {divides : Bool} {cs : List Char} {ts : List Token} (h : Cut divides cs ts) :
    ∀ t ∈ ts, t.kind = .comment → Remark t.text := by
  induction h with
  | done => simp
  | @token divides c rest after t ts kind size split _ ih =>
    refine List.forall_mem_cons.mpr ⟨fun comment => ?_, ih⟩
    rw [kind] at comment
    have taken := congrArg (List.take t.text.toList.length) split
    rw [List.take_left, String.length_toList, size] at taken
    obtain ⟨rfl, ⟨head, extent⟩ | ⟨head, extent⟩⟩ := first_comment comment
    · obtain ⟨others, rfl⟩ := List.head?_eq_some_iff.mp head
      have whole : t.text.toList = ('/' :: '/' :: others).takeWhile (· != '\n') := by
        rw [taken, extent, run, ← List.prefix_iff_eq_take.mp (List.takeWhile_prefix _)]
      have text : t.text = "//" ++ String.ofList (others.takeWhile (· != '\n')) := by
        apply String.toList_inj.mp
        rw [whole]
        simp
      rw [text]
      refine .line _ fun mem => ?_
      rw [String.toList_ofList] at mem
      simpa using List.mem_takeWhile_imp mem
    · obtain ⟨others, rfl⟩ := List.head?_eq_some_iff.mp head
      rw [extent, List.tail_cons] at taken
      rcases blockCommentExtent_cases others with ⟨body, behind, rfl, inside, size⟩ | ⟨inside, size⟩
      · have text : t.text = "/*" ++ String.ofList body ++ "*/" := by
          have shape : '/' :: '*' :: (body ++ '*' :: '/' :: behind) = '/' :: '*' :: (body ++ ['*', '/']) ++ behind := by simp
          apply String.toList_inj.mp
          rw [taken, size, shape, List.take_left' (by simp; omega)]
          simp
        rw [text]
        exact .block _ (by simpa [contains] using inside)
      · have text : t.text = "/*" ++ String.ofList others := by
          apply String.toList_inj.mp
          rw [taken, size, List.take_of_length_le (by simp; omega)]
          simp
        rw [text]
        exact .unclosed _ (by simpa [contains] using inside)

theorem remark_of_mem_tokenize {source : String} {t : Token} (mem : t ∈ tokenize source) (comment : t.kind = .comment) :
    Remark t.text := by
  rcases List.mem_append.mp mem with inside | last
  · exact (scanFrom_cut false source.toList).remark t inside comment
  · rw [List.mem_singleton.mp last] at comment
    cases comment

end Token

/-! ### What is written for them -/

theorem occursIn_append_self (front part : List Char) : occursIn part (front ++ part) = true := by
  induction front with
  | nil =>
    cases part with
    | nil => rfl
    | cons c part =>
      have whole : (c :: part).isPrefixOf (c :: part) = true := List.isPrefixOf_iff_prefix.mpr (List.prefix_refl _)
      rw [List.nil_append, occursIn, whole, Bool.true_or]
  | cons c front ih => rw [List.cons_append, occursIn, ih, Bool.or_true]

/-- A comment that is not closed becomes one that is. -/
theorem Literal.comment_unclosed {body : String} (inside : contains "*/" body = false) :
    comment ("/*" ++ body) = "--[[" ++ inBlockComment body ++ "]]" := by
  have starts : beginsWith "//" ("/*" ++ body) = false := by simp [beginsWith, List.isPrefixOf]
  have unclosed : (endsWith "*/" ("/*" ++ body) && decide (4 ≤ ("/*" ++ body).length)) = false := by
    rw [Bool.eq_false_iff]
    intro closed
    rw [Bool.and_eq_true, endsWith, List.isSuffixOf_iff_suffix, decide_eq_true_eq] at closed
    obtain ⟨suffix, long⟩ := closed
    have size : 2 ≤ body.toList.length := by
      rw [← String.length_toList] at long
      simpa using long
    have within : "*/".toList <:+ body.toList := by
      have whole : body.toList <:+ ("/*" ++ body).toList := ⟨"/*".toList, by simp⟩
      exact List.suffix_of_suffix_length_le suffix whole size
    obtain ⟨front, shape⟩ := within
    simp [contains, ← shape, occursIn_append_self] at inside
  have behind : String.ofList (("/*" ++ body).toList.drop 2) = body := by simp
  simp only [comment, starts, unclosed, behind, Bool.false_eq_true, if_false]

namespace Lua

/-- What is written behind the two signs: it starts with no bracket, and a blank is all that may be added. -/
theorem exists_comment_line (body : String) : ∃ inside : List Char,
    (Literal.comment ("//" ++ body)).toList = '-' :: '-' :: inside ∧ inside.head? ≠ some '[' ∧
    ∀ c, c ≠ ' ' → (c ∈ inside ↔ c ∈ body.toList) := by
  rw [Literal.comment_line]
  cases opens : beginsWith "[" body with
  | true => exact ⟨' ' :: body.toList, by simp, by simp, fun c other => by simp [other]⟩
  | false =>
    refine ⟨body.toList, by simp, fun first => ?_, fun c _ => Iff.rfl⟩
    obtain ⟨others, shape⟩ := List.head?_eq_some_iff.mp first
    simp [beginsWith, shape] at opens

theorem longSize_eq_zero_of_head {cs : List Char} (head : cs.head? ≠ some '[') : longSize cs = 0 := by
  unfold longSize
  split
  · simp at head
  · rfl

theorem isLineComment_line {body : String} (inside : '\n' ∉ body.toList) :
    isLineComment (Literal.comment ("//" ++ body)) = true := by
  obtain ⟨written, shape, head, same⟩ := exists_comment_line body
  have lines : ∀ c ∈ written, (c != '\n') = true := by
    intro c mem
    rw [bne_iff_ne]
    rintro rfl
    exact inside ((same '\n' (by decide)).mp mem)
  rw [isLineComment, shape]
  simp only [longSize_eq_zero_of_head head, List.all_eq_true.mpr lines, beq_self_eq_true, Bool.and_self]

/-- Lua reads it as one comment, unless a carriage return ends the line earlier. -/
theorem commentSize_line {body : String} (inside : '\n' ∉ body.toList) :
    commentSize (Literal.comment ("//" ++ body)).toList = (Literal.comment ("//" ++ body)).length ↔ '\r' ∉ body.toList := by
  obtain ⟨written, shape, head, same⟩ := exists_comment_line body
  have noFeed : '\n' ∉ written := fun mem => inside ((same _ (by decide)).mp mem)
  rw [← String.length_toList, shape, commentSize, if_pos (longSize_eq_zero_of_head head), ← same '\r' (by decide),
    List.length_cons, List.length_cons]
  constructor
  · intro size mem
    have all : written.takeWhile (fun c => c != '\n' && c != '\r') = written := (List.takeWhile_prefix _).eq_of_length (by omega)
    rw [← all] at mem
    simpa using List.mem_takeWhile_imp mem
  · intro noReturn
    have all : written.takeWhile (fun c => c != '\n' && c != '\r') = written := by
      rw [List.takeWhile_eq_self_iff]
      intro c mem
      have feed : c ≠ '\n' := fun same => noFeed (same ▸ mem)
      have carriage : c ≠ '\r' := fun same => noReturn (same ▸ mem)
      simp [feed, carriage]
    rw [all]
    omega

theorem toList_inBlockComment (s : String) : (Literal.inBlockComment s).toList = broken s.toList := String.toList_ofList

/-- Text without closing brackets in front and a blank behind: the mark at the end stays apart. -/
theorem isLongComment_between {front : String} (plain : ']' ∉ front.toList) (s : String) :
    isLongComment ("--[[" ++ (front ++ Literal.inBlockComment s ++ " ") ++ "]]") = true ↔ contains "]]]" s = false := by
  have blank : " ".toList = [' '] := rfl
  have whole : front ++ Literal.inBlockComment s ++ " " = Literal.inBlockComment (front ++ s ++ " ") := by
    apply String.toList_inj.mp
    rw [toList_inBlockComment, String.toList_append, String.toList_append, toList_inBlockComment, String.toList_append,
      String.toList_append, blank, broken_concat (by decide), broken_append plain]
  have brackets : contains "]]]" (front ++ s ++ " ") = contains "]]]" s := by
    have mark : "]]]".toList = [']', ']', ']'] := rfl
    rw [contains, contains, mark, String.toList_append, String.toList_append, blank, occursIn_concat (by decide) (by simp),
      occursIn_append_plain plain]
  have ends : endsWith "]" (front ++ s ++ " ") = false := by
    simp [endsWith, List.isSuffixOf, List.isPrefixOf]
  rw [whole, isLongComment_broken, brackets, ends]
  exact and_iff_left rfl

theorem isLongComment_regex (literal : String) :
    isLongComment ("--[[ REGEX NOT CONVERTED: " ++ Literal.inBlockComment literal ++ " ]]") = true ↔
      contains "]]]" literal = false := by
  have opening : "--[[ REGEX NOT CONVERTED: " = "--[[" ++ " REGEX NOT CONVERTED: " := rfl
  have closing : " ]]" = " " ++ "]]" := rfl
  have shape := @isLongComment_between " REGEX NOT CONVERTED: " (by decide) literal
  rw [opening, closing]
  simpa only [String.append_assoc] using shape

end Lua

/-- Comments and regular expressions as comments of Lua. One up to the end of its line opens no brackets and has no line feed;
Lua takes all of it for the comment, unless there is a carriage return in it. One in brackets ends at its last two characters,
and not before, exactly if its text holds no three closing brackets in a row and does not end in one, whether it was closed in
the script or not. A regular expression in such a comment must not hold three closing brackets in a row. -/
theorem comments_closed_iff (source : String) :
    (∀ t ∈ tokenize source, t.kind = .comment → beginsWith "//" t.text = true →
      Lua.isLineComment (Literal.comment t.text) = true ∧
      (Lua.commentSize (Literal.comment t.text).toList = (Literal.comment t.text).length ↔ '\r' ∉ t.text.toList)) ∧
    (∀ t ∈ tokenize source, t.kind = .comment → beginsWith "//" t.text = false →
      ∃ body, (t.text = "/*" ++ body ++ "*/" ∨ t.text = "/*" ++ body) ∧ contains "*/" body = false ∧
        (Lua.isLongComment (Literal.comment t.text) = true ↔ contains "]]]" body = false ∧ endsWith "]" body = false)) ∧
    ∀ t ∈ tokenize source, t.kind = .regex → (Pattern.ofRegex t.text).lua = none → ∀ d : Desk, ∃ remark,
      (Rules.regexLiteral t.text d).1 = .ok ("\"\" " ++ remark) ∧
      (Lua.isLongComment remark = true ↔ contains "]]]" t.text = false) := by
  refine ⟨fun t mem comment starts => ?_, fun t mem comment starts => ?_, fun t _ _ none d => ?_⟩
  · have spelled := remark_of_mem_tokenize mem comment
    generalize t.text = text at spelled starts
    cases spelled with
    | line body inside => exact ⟨Lua.isLineComment_line inside, by simpa using Lua.commentSize_line inside⟩
    | block body => simp [beginsWith, List.isPrefixOf] at starts
    | unclosed body => simp [beginsWith, List.isPrefixOf] at starts
  · have spelled := remark_of_mem_tokenize mem comment
    generalize t.text = text at spelled starts
    cases spelled with
    | line body => simp [beginsWith, List.isPrefixOf] at starts
    | block body inside =>
      rw [Literal.comment_block]
      exact ⟨body, .inl rfl, inside, Lua.isLongComment_broken body⟩
    | unclosed body inside =>
      rw [Literal.comment_unclosed inside]
      exact ⟨body, .inr rfl, inside, Lua.isLongComment_broken body⟩
  · refine ⟨_, ?_, Lua.isLongComment_regex t.text⟩
    unfold Rules.regexLiteral
    rw [none]
    rfl

/-- A bracket at the end of a comment, and three in a row in a regular expression. -/
theorem comments_closed_iff_brackets :
    Lua.isLineComment (Literal.comment "//[k") = true ∧ Lua.isLongComment (Literal.comment "/*x[0]*/") = false ∧
    ∀ d : Desk, ∃ remark, (Rules.regexLiteral "/a|b]]]/" d).1 = .ok ("\"\" " ++ remark) ∧ Lua.isLongComment remark = false := by
  obtain ⟨lines, blocks, patterns⟩ := comments_closed_iff "//[k\n/*x[0]*/ /a|b]]]/"
  have line := lines ⟨.comment, "//[k"⟩ (by decide +kernel) rfl (by decide)
  obtain ⟨body, spelled, inside, closed⟩ := blocks ⟨.comment, "/*x[0]*/"⟩ (by decide +kernel) rfl (by decide)
  refine ⟨line.1, Bool.eq_false_iff.mpr fun whole => ?_, fun d => ?_⟩
  · rcases spelled with spelled | spelled
    · have index : body = "x[0]" := by
        have cut := congrArg String.toList spelled
        simp only [String.toList_append, List.append_assoc] at cut
        exact String.toList_inj.mp (List.append_cancel_right (List.append_cancel_left cut.symm))
      exact absurd (closed.mp whole).2 (by rw [index]; decide)
    · have rest : body = "x[0]*/" := by
        have cut := congrArg String.toList spelled
        simp only [String.toList_append] at cut
        exact String.toList_inj.mp (List.append_cancel_left cut.symm)
      exact absurd inside (by rw [rest]; decide)
  · obtain ⟨remark, written, closed⟩ := patterns ⟨.regex, "/a|b]]]/"⟩ (by decide +kernel) rfl (by decide +kernel) d
    refine ⟨remark, written, Bool.eq_false_iff.mpr fun whole => ?_⟩
    exact absurd (closed.mp whole) (by decide)

/-- The bracket that ends an index grows together with the mark that closes the comment. -/
theorem comment_closes_early :
    ⟨.comment, "/*x[0]*/"⟩ ∈ tokenize "/*x[0]*/" ∧ Literal.comment "/*x[0]*/" = "--[[x[0]]]" ∧
    Lua.isLongComment (Literal.comment "/*x[0]*/") = false := by
  decide +kernel

end NoteScript

import NoteScript.Proofs.Polishing

/-!
# Spelling compound assignments out

A pass over the finished text writes `x = x + y` for `x += y`. It reads the target back from the text: the longest run of
word characters, points, square brackets and quotes in front of the operator. Where there is none, the text stays.

* `Polish.reach`: what is read as the target.
* `Polish.replaceHits_compound`, `run_compound`: what the pass writes.
* `polish_compound`: all passes together on a line that is a compound assignment.
-/

namespace NoteScript

open Text

namespace Polish

/-! ### The pass on characters -/

/-- The characters at the end of a text that a target is read from. -/
def reach (cs : List Char) : List Char := (cs.reverse.takeWhile isTargetChar).reverse

theorem all_reach (cs : List Char) : (reach cs).all isTargetChar = true := by
  rw [reach, List.all_reverse, List.all_takeWhile]

/-- In front of what is read stands a character that belongs to no target, if anything. -/
theorem exists_reach (cs : List Char) :
    ∃ front, cs = front ++ reach cs ∧ ∀ c, front.getLast? = some c → isTargetChar c = false := by
  refine ⟨(cs.reverse.dropWhile isTargetChar).reverse, ?_, ?_⟩
  · rw [reach, ← List.reverse_append, List.takeWhile_append_dropWhile, List.reverse_reverse]
  · intro c last
    rw [List.getLast?_reverse] at last
    have first := List.head?_dropWhile_not isTargetChar cs.reverse
    rw [last] at first
    exact first

theorem reach_eq_iff (cs : List Char) : reach cs = cs ↔ cs.all isTargetChar = true := by
  constructor
  · intro whole
    rw [← whole]
    exact all_reach cs
  · intro all
    have own : cs.reverse.takeWhile isTargetChar = cs.reverse :=
      List.takeWhile_eq_self_iff.mpr fun c hc => List.all_eq_true.mp all c (List.mem_reverse.mp hc)
    rw [reach, own, List.reverse_reverse]

theorem reach_suffix (cs : List Char) : reach cs <:+ cs := by
  obtain ⟨front, split, -⟩ := exists_reach cs
  exact ⟨front, split.symm⟩

theorem drop_blanks_bare (cs : List Char) : (bare cs).drop (blanks (bare cs)) = bare (cs.dropWhile isTabOrBlank) := by
  have size : blanks (bare cs) = (cs.takeWhile isTabOrBlank).length := by
    simp [blanks, bare, List.takeWhile_map, Function.comp_def]
  have rest : cs.drop (cs.takeWhile isTabOrBlank).length = cs.dropWhile isTabOrBlank := by
    nth_rewrite 2 [← List.takeWhile_append_dropWhile (p := isTabOrBlank) (l := cs)]
    rw [List.drop_left]
  rw [size, bare, ← List.map_drop, rest, bare]

/-- An operator between blanks is found. -/
theorem compoundOperator?_sign {op : Char} (known : op ∈ ['+', '-']) {c : Char} (solid : isTabOrBlank c = false)
    (value : List Char) :
    compoundOperator? (bare (' ' :: op :: '=' :: ' ' :: c :: value)) = some ⟨[op], false, 4⟩ := by
  have behind : blanks (bare (' ' :: c :: value)) = 1 := by
    rw [blanks, bare]
    simp [isTabOrBlank] at solid ⊢
    simp [solid]
  rcases List.mem_pair.mp known with rfl | rfl
  · have shape : compoundOperator? (bare (' ' :: '+' :: '=' :: ' ' :: c :: value)) =
        some ⟨['+'], false, 3 + blanks (bare (' ' :: c :: value))⟩ := rfl
    rw [shape, behind]
  · have shape : compoundOperator? (bare (' ' :: '-' :: '=' :: ' ' :: c :: value)) =
        some ⟨['-'], false, 3 + blanks (bare (' ' :: c :: value))⟩ := rfl
    rw [shape, behind]

/-- No operator is found inside a text without double marks, in front of a blank. -/
theorem compoundOperator?_inside {cs : List Char} (pairs : NoDoubleMark (cs ++ [' '])) {last : Char}
    (ends : cs.getLast? = some last) (solid : isTabOrBlank last = false) (rest : List Char) :
    compoundOperator? (bare (cs ++ ' ' :: rest)) = none := by
  obtain ⟨c, cs', inner⟩ : ∃ c cs', cs.dropWhile isTabOrBlank = c :: cs' := by
    refine List.exists_cons_of_ne_nil fun nothing => ?_
    have blank := List.dropWhile_eq_nil_iff.mp nothing last (List.mem_of_getLast? ends)
    simp [solid] at blank
  have suffix : c :: cs' ++ [' '] <:+ cs ++ [' '] := by
    rw [← inner]
    exact ⟨cs.takeWhile isTabOrBlank, by rw [← List.append_assoc, List.takeWhile_append_dropWhile]⟩
  have chain : NoDoubleMark (c :: (cs' ++ [' '])) := List.IsChain.suffix pairs suffix
  obtain ⟨d, tail, next⟩ : ∃ d tail, cs' ++ [' '] = d :: tail := List.exists_cons_of_ne_nil (by simp)
  rw [next] at chain
  have apart : (c, d) ∉ doubleMarks := (List.isChain_cons_cons.mp chain).1
  have whole : (cs ++ ' ' :: rest).dropWhile isTabOrBlank = c :: d :: (tail ++ rest) := by
    rw [List.dropWhile_append, inner]
    have shape : cs' ++ ' ' :: rest = d :: (tail ++ rest) := by
      rw [← List.cons_append, ← next, List.append_assoc]
      rfl
    simp [shape]
  unfold compoundOperator?
  dsimp only
  rw [drop_blanks_bare, whole]
  split
  · rename_i shape
    obtain ⟨rfl, rfl⟩ : c = '+' ∧ d = '=' := by simp_all [bare]
    exact absurd apart (by decide)
  · rename_i shape
    obtain ⟨rfl, rfl⟩ : c = '-' ∧ d = '=' := by simp_all [bare]
    exact absurd apart (by decide)
  · rename_i shape
    obtain ⟨rfl, rfl⟩ : c = '.' ∧ d = '.' := by simp_all [bare]
    exact absurd apart (by decide)
  · rfl

/-- A text in front of an operator is read as its target if all its characters may stand in one. -/
theorem compoundFrom_eq {cs rest : List Char} (pairs : NoDoubleMark (cs ++ [' '])) {last : Char}
    (ends : cs.getLast? = some last) (solid : isTabOrBlank last = false) {op : CompoundOperator}
    (found : compoundOperator? (bare (' ' :: rest)) = some op) (target : List Char) :
    compoundFrom target (bare (cs ++ ' ' :: rest)) = if cs.all isTargetChar then some (target.reverse ++ cs, op) else none := by
  induction cs generalizing target with
  | nil => cases ends
  | cons c cs ih =>
    have shape : bare (c :: cs ++ ' ' :: rest) = ⟨c, false⟩ :: bare (cs ++ ' ' :: rest) := rfl
    rw [shape, compoundFrom, List.all_cons]
    by_cases inside : isTargetChar c = true
    · rw [if_pos inside, inside, Bool.true_and]
      cases cs with
      | nil =>
        rw [List.nil_append, found, List.reverse_cons]
        rfl
      | cons d cs =>
        have further : NoDoubleMark (d :: cs ++ [' ']) := (List.isChain_cons.mp pairs).2
        have ends' : (d :: cs).getLast? = some last := by rwa [List.getLast?_cons_cons] at ends
        rw [compoundOperator?_inside further ends' solid, ih further ends', List.reverse_cons, List.append_assoc]
        rfl
    · rw [if_neg inside, Bool.eq_false_iff.mpr inside, Bool.false_and]
      rfl

/-- Characters at which nothing matches are written as they are. -/
theorem replaceHits_append {hit? : Option Char → List Glyph → Option Hit} {front rest : List Char}
    (nothing : ∀ before cs, cs <:+ front → cs ≠ [] → hit? before (bare (cs ++ rest)) = none) (before : Option Char) :
    ∃ before', replaceHits hit? before 0 (bare (front ++ rest)) = front ++ replaceHits hit? before' 0 (bare rest) := by
  induction front generalizing before with
  | nil => exact ⟨before, rfl⟩
  | cons c front ih =>
    have hit := nothing before (c :: front) (List.suffix_refl _) (List.cons_ne_nil _ _)
    have shape : bare (c :: front ++ rest) = ⟨c, false⟩ :: bare (front ++ rest) := rfl
    rw [shape] at hit ⊢
    rw [replaceHits, hit]
    have nothing' := fun before cs (suffix : cs <:+ front) => nothing before cs (suffix.trans (List.suffix_cons c front))
    obtain ⟨before', later⟩ := ih nothing' (some c)
    exact ⟨before', congrArg (c :: ·) later⟩

theorem replaceHits_value {value : List Char} (smooth : NoDoubleMark value) (before : Option Char) :
    replaceHits compoundHit? before 0 (bare value) = value := by
  have whole : NoDoubleMark (unmark (bare value)) := by rwa [unmark_bare]
  rw [replaceHits_none fun before rest suffix => compoundHit?_eq_none (isChain_suffix whole suffix) before, unmark_bare]

/-- What is written for an operator between blanks, given the target that is read in front of it. -/
def spelledOut (op : Char) (target : List Char) : List Char :=
  if target = [] then [' ', op, '=', ' '] else [' ', '=', ' '] ++ target ++ [' ', op, ' ']

section

variable {cs value : List Char} {c op last : Char} (known : op ∈ ['+', '-']) (pairs : NoDoubleMark (cs ++ [' ']))
  (ends : cs.getLast? = some last) (solid : isTabOrBlank last = false) (solid' : isTabOrBlank c = false)
include known pairs ends solid solid'

/-- A text with a character that belongs to no target is not read. -/
theorem compoundHit?_spoilt {bad : Char} (inside : bad ∈ cs) (other : isTargetChar bad = false) (before : Option Char) :
    compoundHit? before (bare (cs ++ ' ' :: op :: '=' :: ' ' :: c :: value)) = none := by
  have spoilt : ¬ cs.all isTargetChar = true := by
    intro all
    simp [List.all_eq_true.mp all bad inside] at other
  rw [compoundHit?, compoundFrom_eq pairs ends solid (compoundOperator?_sign known solid' value), if_neg spoilt]
  rfl

variable (smooth : NoDoubleMark (c :: value))
include smooth

/-- What is read as a target is written twice. -/
theorem replaceHits_target (all : cs.all isTargetChar = true) (before : Option Char) :
    replaceHits compoundHit? before 0 (bare (cs ++ ' ' :: op :: '=' :: ' ' :: c :: value)) =
      assign cs [op] ++ [' '] ++ c :: value := by
  cases cs with
  | nil => cases ends
  | cons t ts =>
    have hit : compoundHit? before (bare (t :: ts ++ ' ' :: op :: '=' :: ' ' :: c :: value)) =
        some ⟨assign (t :: ts) [op] ++ [' '], ts.length + 4⟩ := by
      rw [compoundHit?, compoundFrom_eq pairs ends solid (compoundOperator?_sign known solid' value), if_pos all]
      rfl
    have shape : bare (t :: ts ++ ' ' :: op :: '=' :: ' ' :: c :: value) =
        ⟨t, false⟩ :: (bare (ts ++ [' ', op, '=']) ++ ⟨' ', false⟩ :: bare (c :: value)) := by simp [bare]
    have size : ts.length + 4 = (bare (ts ++ [' ', op, '='])).length + 1 := by simp [bare]
    rw [shape] at hit ⊢
    rw [replaceHits, hit]
    dsimp only
    rw [size, replaceHits_skip, replaceHits_value smooth]

/-- Behind a character that belongs to no target the operator stays. -/
theorem replaceHits_unread (unread : isTargetChar last = false) (before : Option Char) :
    replaceHits compoundHit? before 0 (bare (cs ++ ' ' :: op :: '=' :: ' ' :: c :: value)) =
      cs ++ [' ', op, '=', ' '] ++ c :: value := by
  have inside : ∀ before ds, ds <:+ cs → ds ≠ [] →
      compoundHit? before (bare (ds ++ ' ' :: op :: '=' :: ' ' :: c :: value)) = none := by
    rintro before ds ⟨rest, rfl⟩ nonempty
    have ends' : ds.getLast? = some last := by rwa [List.getLast?_append_of_ne_nil _ nonempty] at ends
    have pairs' : NoDoubleMark (ds ++ [' ']) := List.IsChain.suffix pairs ⟨rest, by simp⟩
    exact compoundHit?_spoilt known pairs' ends' solid solid' (List.mem_of_getLast? ends') unread before
  have fixed : ∀ x ∈ [' ', op, '=', ' '], isTargetChar x = false := by
    rcases List.mem_pair.mp known with rfl | rfl <;> decide
  have behind : ∀ before ds, ds <:+ [' ', op, '=', ' '] → ds ≠ [] → compoundHit? before (bare (ds ++ c :: value)) = none := by
    intro before ds suffix nonempty
    obtain ⟨x, xs, rfl⟩ := List.exists_cons_of_ne_nil nonempty
    have shape : bare (x :: xs ++ c :: value) = ⟨x, false⟩ :: bare (xs ++ c :: value) := rfl
    rw [compoundHit?, shape, compoundFrom, fixed x (suffix.subset List.mem_cons_self)]
    rfl
  obtain ⟨before', first⟩ := replaceHits_append inside before
  obtain ⟨before'', second⟩ := replaceHits_append behind before'
  have shape : ' ' :: op :: '=' :: ' ' :: c :: value = [' ', op, '=', ' '] ++ c :: value := rfl
  rw [first, shape, second, replaceHits_value smooth, List.append_assoc]

/-- The pass spells a compound assignment out with as much of the text in front of the operator as a target may have. -/
theorem replaceHits_compound (before : Option Char) :
    replaceHits compoundHit? before 0 (bare (cs ++ ' ' :: op :: '=' :: ' ' :: c :: value)) =
      cs ++ spelledOut op (reach cs) ++ c :: value := by
  obtain ⟨front, split, other⟩ := exists_reach cs
  by_cases nothing : reach cs = []
  · rw [nothing, List.append_nil] at split
    have unread : isTargetChar last = false := other last (split ▸ ends)
    rw [replaceHits_unread known pairs ends solid solid' smooth unread, nothing, spelledOut, if_pos rfl]
  · have read : (reach cs).getLast? = some last := by
      have whole := congrArg List.getLast? split
      rwa [List.getLast?_append_of_ne_nil _ nothing, ends, eq_comm] at whole
    -- from each place in front of what is read, a character that belongs to no target is in the way
    have inside : ∀ before ds, ds <:+ front → ds ≠ [] →
        compoundHit? before (bare (ds ++ (reach cs ++ ' ' :: op :: '=' :: ' ' :: c :: value))) = none := by
      rintro before ds ⟨rest, rfl⟩ nonempty
      obtain ⟨bad, badLast⟩ : ∃ bad, ds.getLast? = some bad := ⟨_, List.getLast?_eq_some_getLast nonempty⟩
      have ends' : (ds ++ reach cs).getLast? = some last := by rw [List.getLast?_append_of_ne_nil _ nothing, read]
      have pairs' : NoDoubleMark (ds ++ reach cs ++ [' ']) :=
        List.IsChain.suffix pairs ⟨rest, by rw [← List.append_assoc, ← List.append_assoc, ← split]⟩
      have unread := other bad (by rw [List.getLast?_append_of_ne_nil _ nonempty, badLast])
      rw [← List.append_assoc]
      apply compoundHit?_spoilt known pairs' ends' solid solid' _ unread
      exact List.mem_append_left _ (List.mem_of_getLast? badLast)
    have pairs' : NoDoubleMark (reach cs ++ [' ']) := List.IsChain.suffix pairs ⟨front, by rw [← List.append_assoc, ← split]⟩
    obtain ⟨before', first⟩ := replaceHits_append inside before
    rw [← List.append_assoc, ← split] at first
    rw [first, replaceHits_target known pairs' read solid solid' smooth (all_reach cs), spelledOut, if_neg nothing, assign]
    nth_rewrite 3 [split]
    simp

end

end Polish

/-! ### The pass on texts -/

/-- What is done to the target. -/
inductive Change where
  | add
  | subtract

namespace Change

def char : Change → Char
  | add => '+'
  | subtract => '-'

/-- The sign in Lua. -/
def sign : Change → String
  | add => "+"
  | subtract => "-"

def operator : Change → String
  | add => "+="
  | subtract => "-="

theorem toList_sign (change : Change) : change.sign.toList = [change.char] := by cases change <;> rfl

theorem toList_operator (change : Change) : change.operator.toList = [change.char, '='] := by cases change <;> rfl

theorem char_mem (change : Change) : change.char ∈ ['+', '-'] := by cases change <;> decide

end Change

/-- The end of a text that a target is read from. -/
def reachText (s : String) : String := String.ofList (Polish.reach s.toList)

/-- What stands between the target and the value, given what is read as the target. -/
def Change.lua (change : Change) (read : String) : String :=
  if read = "" then " " ++ change.operator ++ " " else " = " ++ read ++ " " ++ change.sign ++ " "

theorem Change.toList_lua (change : Change) (read : String) :
    (change.lua read).toList = Polish.spelledOut change.char read.toList := by
  rw [Change.lua, Polish.spelledOut]
  by_cases nothing : read = ""
  · rw [if_pos nothing, if_pos (String.toList_eq_nil_iff.mpr nothing)]
    simp [change.toList_operator]
  · rw [if_neg nothing, if_neg (mt String.toList_eq_nil_iff.mp nothing)]
    simp [change.toList_sign]

open Polish

/-- A piece of a line outside strings and comments, and what the passes behind this one leave of it. -/
structure Settles (cs out : List Char) : Prop where
  quotes : ∀ c ∈ cs, c ∉ ['"', '\'']
  strong : NoStrongMark cs
  line : '\n' ∉ cs
  shifts : Shifts none cs out

namespace Settles

variable {cs out cs' out' : List Char}

theorem suffix {s : String} (h : IsLine s) (suffix : cs <:+ s.toList) :
    Settles cs (Pass.indices.run (String.ofList cs)).toList := by
  have quotes : ∀ c ∈ cs, c ∉ ['"', '\''] := fun c hc => h.smooth.quotes c (suffix.subset hc)
  have strong : NoStrongMark cs := List.IsChain.suffix (noStrongMark_of_noDoubleMark h.smooth.pairs) suffix
  refine ⟨quotes, strong, fun feed => h.line (suffix.subset feed), ?_⟩
  rw [Pass.run, Pass.runOn, String.toList_ofList, String.toList_ofList, replaceIn, Polish.mark, markFrom_bare quotes strong]
  exact shifts_replaceHits cs none

theorem mark (known : cs ∈ [['='], ['+'], ['-'], ['+', '='], ['-', '=']]) : Settles cs cs := by
  have marks : ∀ cs ∈ [['='], ['+'], ['-'], ['+', '='], ['-', '=']],
      (∀ c ∈ cs, c ∉ ['"', '\'']) ∧ NoStrongMark cs ∧ '\n' ∉ cs ∧ '[' ∉ cs := by decide
  obtain ⟨quotes, strong, line, opening⟩ := marks cs known
  exact ⟨quotes, strong, line, .refl opening none⟩

theorem whole {s : String} (h : IsLine s) : Settles s.toList (Pass.indices.run s).toList := by
  have all := suffix h (List.suffix_refl s.toList)
  rwa [String.ofList_toList] at all

theorem blank (h : Settles cs out) (h' : Settles cs' out') : Settles (cs ++ ' ' :: cs') (out ++ ' ' :: out') := by
  have beside : ∀ c, (c, ' ') ∉ strongMarks ∧ (' ', c) ∉ strongMarks := by simp [strongMarks]
  constructor
  · intro c hc
    rcases List.mem_append.mp hc with hc | hc
    · exact h.quotes c hc
    · rcases List.mem_cons.mp hc with rfl | hc
      · decide
      · exact h'.quotes c hc
  · refine List.isChain_append.mpr ⟨h.strong, List.isChain_cons.mpr ⟨fun c _ => (beside c).2, h'.strong⟩, ?_⟩
    rintro a - b ⟨⟩
    exact (beside a).1
  · simp [h.line, h'.line]
  · exact h.shifts.space (by decide) h'.shifts

theorem runAll_eq {s : String} (h : Settles s.toList out) (starts : startsSolid s = true) (ends : endsSolid s = true) :
    Pass.runAll [.increments, .indices, .whitespace] s = String.ofList out := by
  obtain ⟨out', shifts, rest⟩ := runAll_of_noStrongMark h.quotes h.strong
  have tidy : Tidy out' := .of_shifts h.line starts ends shifts
  rw [rest, tidy.tidyWhitespace_eq, shifts.eq h.shifts]

end Settles

/-! ### Whole lines -/

theorem isTabOrBlank_of_solid {c : Char} (solid : isSpace c = false) : isTabOrBlank c = false := by
  have spaces : ∀ c ∈ [' ', '\t'], isSpace c = true := by decide
  rw [Bool.eq_false_iff]
  intro blank
  have mem : c ∈ [' ', '\t'] := by simpa [isTabOrBlank] using blank
  simp [spaces c mem] at solid

theorem IsLine.exists_first {s : String} (h : IsLine s) : ∃ c cs, s.toList = c :: cs ∧ isTabOrBlank c = false := by
  have starts := h.starts
  rw [startsSolid] at starts
  cases shape : s.toList with
  | nil => simp [shape] at starts
  | cons c cs =>
    rw [shape, List.head?_cons, Option.any_some, Bool.not_eq_true'] at starts
    exact ⟨c, cs, rfl, isTabOrBlank_of_solid starts⟩

theorem IsLine.exists_last {s : String} (h : IsLine s) : ∃ c, s.toList.getLast? = some c ∧ isTabOrBlank c = false := by
  have ends := h.ends
  rw [endsSolid, Option.any_eq_true] at ends
  obtain ⟨c, found, solid⟩ := ends
  rw [Bool.not_eq_true'] at solid
  exact ⟨c, found, isTabOrBlank_of_solid solid⟩

theorem IsLine.polish_eq {s : String} (h : IsLine s) : polish s = Pass.indices.run s :=
  String.toList_inj.mp (h.shifts_polish.eq (Settles.whole h).shifts)

section

variable {target value : String} (change : Change) (h : IsLine target) (h' : IsLine value)
include h h'

theorem run_compound : Pass.compound.run (target ++ " " ++ (change.operator ++ " " ++ value)) =
    target ++ change.lua (reachText target) ++ value := by
  obtain ⟨c, cs, chars, solid⟩ := h'.exists_first
  obtain ⟨last, ends, solid'⟩ := h.exists_last
  have sign : Settles [change.char, '='] [change.char, '='] := .mark (by cases change <;> decide)
  have still := (Settles.whole h).blank (sign.blank (.whole h'))
  have pairs : NoDoubleMark (target.toList ++ [' ']) := h.smooth.pairs.append (by decide) (.inr (by decide))
  have replaced := replaceHits_compound change.char_mem pairs ends solid' solid (chars ▸ h'.smooth.pairs) none
  rw [← chars] at replaced
  have code : (target ++ " " ++ (change.operator ++ " " ++ value)).toList =
      target.toList ++ ' ' :: ([change.char, '='] ++ ' ' :: value.toList) := by simp [change.toList_operator]
  rw [← String.toList_inj, Pass.run, Pass.runOn, replaceIn, code, Polish.mark, markFrom_bare still.quotes still.strong]
  rw [String.toList_ofList, String.toList_append, String.toList_append, change.toList_lua, reachText, String.toList_ofList]
  exact replaced

/-- What is written for a compound assignment settles part by part. -/
theorem settles_compound : Settles (target ++ change.lua (reachText target) ++ value).toList
    (Pass.indices.run target ++ change.lua (Pass.indices.run (reachText target)) ++ Pass.indices.run value).toList := by
  have read := Settles.suffix h (reach_suffix target.toList)
  have empty : (Pass.indices.run (reachText target)).toList = [] ↔ reach target.toList = [] := by
    rw [← List.head?_eq_none_iff, ← List.head?_eq_none_iff, ← read.shifts.head?, reachText]
  simp only [String.toList_append, change.toList_lua, reachText, String.toList_ofList] at empty ⊢
  by_cases nothing : reach target.toList = []
  · have sign : Settles [change.char, '='] [change.char, '='] := .mark (by cases change <;> decide)
    have parts := (Settles.whole h).blank (sign.blank (.whole h'))
    rw [spelledOut, if_pos nothing, spelledOut, if_pos (empty.mpr nothing)]
    simpa using parts
  · have sign : Settles [change.char] [change.char] := .mark (by cases change <;> decide)
    have assign : Settles ['='] ['='] := .mark (by decide)
    have parts := (Settles.whole h).blank (assign.blank (read.blank (sign.blank (.whole h'))))
    rw [spelledOut, if_neg nothing, spelledOut, if_neg (mt empty.mp nothing)]
    simpa using parts

/-- A compound assignment is polished part by part. -/
theorem polish_compound : polish (target ++ " " ++ (change.operator ++ " " ++ value)) =
    Pass.indices.run target ++ change.lua (Pass.indices.run (reachText target)) ++ Pass.indices.run value := by
  have starts : startsSolid (target ++ change.lua (reachText target) ++ value) = true := by
    rw [String.append_assoc]
    exact startsSolid_append h.starts _
  rw [polish, Pass.runAll, Pass.all, List.foldl_cons, run_compound change h h']
  have settled := (settles_compound change h h').runAll_eq starts (endsSolid_append _ h'.ends)
  exact settled.trans String.ofList_toList

end

end NoteScript

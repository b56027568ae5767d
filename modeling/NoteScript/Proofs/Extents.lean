import NoteScript.Proofs.Pairing
import NoteScript.Proofs.Templates

/-!
# How far each token goes

Which token a text starts with is settled by its first characters, and for a slash by the tokens in front of it as well. How far
the token goes is said here without reading it step by step: a run goes on as long as it can, and a literal or a comment goes up
to the first mark that closes it.

* `IsRun`, `GoesTo`: the longest run of a class, and a text up to the first mark that is not hidden.
* `Unhidden`, `Outside`: texts behind which a mark is not hidden by a backslash, or by a set of a regular expression.
* `Opening`: the class of the first token of a text, with all that is known there.
* `Described`: what is asked of a token at its place; `tokenize_extents`: every token of a script is so.
-/

namespace NoteScript.Token

open Text

variable {c : Char} {divides : Bool} {rest : List Char} {t : Token}

/-! ### Runs and marks -/

/-- The longest run of a class of characters in front of the text `after`. -/
structure IsRun (p : Char → Bool) (cs after : List Char) : Prop where
  inside : ∀ c ∈ cs, p c = true
  ends : ∀ c ∈ after.head?, p c = false

/-- A mark in a text, between `front` and `back`, that counts since the text in front of it is free. -/
def Marked (mark : List Char) (free : List Char → Prop) (text front back : List Char) : Prop :=
  text = front ++ mark ++ back ∧ free front

/-- A text that ends with the first mark in it. -/
structure EndsAt (mark : List Char) (free : List Char → Prop) (text : List Char) : Prop where
  closed : ∃ front, Marked mark free text front []
  first : ∀ front back, Marked mark free text front back → back = []

/-- A text, with `after` behind it, that goes up to the first mark. Where there is none it is cut by the end of the source. -/
def GoesTo (mark : List Char) (free : List Char → Prop) (text after : List Char) : Prop :=
  EndsAt mark free text ∨ after = [] ∧ ∀ front back, ¬Marked mark free text front back

/-- Texts that end in no half of a pair: what follows is not hidden by a backslash. -/
inductive Unhidden : List Char → Prop where
  | nil : Unhidden []
  | pair {c : Char} {cs : List Char} : Unhidden cs → Unhidden ('\\' :: c :: cs)
  | char {c : Char} {cs : List Char} : c ≠ '\\' → Unhidden cs → Unhidden (c :: cs)

/-- Texts behind which a character is neither hidden by a backslash nor in a set. A set goes from an opening bracket up to the
next closing one that is not hidden. -/
inductive Outside : List Char → Prop where
  | nil : Outside []
  | pair {c : Char} {cs : List Char} : Outside cs → Outside ('\\' :: c :: cs)
  | char {c : Char} {cs : List Char} : c ≠ '\\' → c ≠ '[' → Outside cs → Outside (c :: cs)
  | set {set cs : List Char} : EndsAt [']'] Unhidden set → Outside cs → Outside ('[' :: (set ++ cs))

/-! ### Characters in front of a text -/

section Marks

variable {mark : List Char} {free free' : List Char → Prop} {first second : Char} {text after : List Char}

/-- Some characters in front of a text, with no mark that starts in them: the marks are those of the text. What is free may be
another question behind them. -/
def Leads (mark : List Char) (free free' : List Char → Prop) (lead text : List Char) : Prop :=
  ∀ front back, Marked mark free (lead ++ text) front back ↔ ∃ front', front = lead ++ front' ∧ Marked mark free' text front' back

theorem Leads.endsAt_iff {lead : List Char} (h : Leads mark free free' lead text) :
    EndsAt mark free (lead ++ text) ↔ EndsAt mark free' text := by
  constructor
  · rintro ⟨⟨front, marked⟩, only⟩
    obtain ⟨front', -, marked'⟩ := (h _ _).mp marked
    exact ⟨⟨front', marked'⟩, fun front back marked => only _ back ((h _ _).mpr ⟨front, rfl, marked⟩)⟩
  · rintro ⟨⟨front, marked⟩, only⟩
    refine ⟨⟨_, (h _ _).mpr ⟨front, rfl, marked⟩⟩, fun front back marked => ?_⟩
    obtain ⟨front', -, marked'⟩ := (h _ _).mp marked
    exact only front' back marked'

theorem Leads.goesTo {lead : List Char} (h : Leads mark free free' lead text) (goes : GoesTo mark free' text after) :
    GoesTo mark free (lead ++ text) after := by
  refine goes.imp h.endsAt_iff.mpr (And.imp_right fun none front back marked => ?_)
  obtain ⟨front', -, marked'⟩ := (h _ _).mp marked
  exact none front' back marked'

/-- One character that is not the mark, or is none that counts. -/
theorem leads_one {m : Char} (other : first ≠ m ∨ ¬free []) (step : ∀ front, free (first :: front) ↔ free' front)
    (text : List Char) : Leads [m] free free' [first] text := by
  intro front back
  constructor
  · rintro ⟨shape, isFree⟩
    rcases front with _ | ⟨c, front⟩
    · exact (other.elim (fun apart => apart (List.cons.inj shape).1) fun bound => bound isFree).elim
    · obtain ⟨rfl, behind⟩ := List.cons.inj shape
      exact ⟨front, rfl, behind, (step front).mp isFree⟩
  · rintro ⟨front, rfl, rfl, isFree⟩
    exact ⟨rfl, (step front).mpr isFree⟩

/-- Two characters that belong together. -/
theorem leads_two {m : Char} (other : first ≠ m ∨ ¬free []) (half : ¬free [first])
    (step : ∀ front, free (first :: second :: front) ↔ free' front) (text : List Char) :
    Leads [m] free free' [first, second] text := by
  have lead : Leads [m] free (fun front => free (first :: front)) [first] (second :: text) := leads_one other (fun _ => Iff.rfl) _
  have further : Leads [m] (fun front => free (first :: front)) free' [second] text := leads_one (.inr half) step _
  intro front back
  constructor
  · intro whole
    obtain ⟨_, rfl, half⟩ := (lead _ _).mp whole
    obtain ⟨front, rfl, marked⟩ := (further _ _).mp half
    exact ⟨front, rfl, marked⟩
  · rintro ⟨front, rfl, marked⟩
    exact (lead _ _).mpr ⟨_, rfl, (further _ _).mpr ⟨front, rfl, marked⟩⟩

theorem endsAt_singleton {c : Char} (nothing : free []) : EndsAt [c] free [c] := by
  refine ⟨⟨[], rfl, nothing⟩, fun front back marked => ?_⟩
  have size := congrArg List.length marked.1
  simp only [List.length_append, List.length_cons, List.length_nil] at size
  exact List.length_eq_zero_iff.mp (by omega)

/-- A text without the mark, up to the end of the source. -/
theorem goesTo_end {c : Char} (none : c ∉ text) : GoesTo [c] free text [] := by
  refine .inr ⟨rfl, fun front back marked => none ?_⟩
  rw [marked.1]
  simp

end Marks

/-! ### Strings -/

theorem unhidden_pair {cs : List Char} : Unhidden ('\\' :: c :: cs) ↔ Unhidden cs := by
  refine ⟨fun h => ?_, .pair⟩
  cases h with
  | pair h => exact h
  | char other => exact absurd rfl other

theorem unhidden_char (other : c ≠ '\\') (cs : List Char) : Unhidden (c :: cs) ↔ Unhidden cs := by
  refine ⟨fun h => ?_, .char other⟩
  cases h with
  | pair => exact absurd rfl other
  | char _ h => exact h

theorem not_unhidden_backslash : ¬Unhidden ['\\'] := by
  intro h
  cases h with
  | char other => exact other rfl

/-- A string goes up to the first quote that is not hidden. -/
theorem goesTo_stringExtent {quote : Char} (other : quote ≠ '\\') (cs : List Char) :
    GoesTo [quote] Unhidden (cs.take (stringExtent quote cs)) (cs.drop (stringExtent quote cs)) := by
  fun_induction stringExtent quote cs with
  | case1 => exact goesTo_end List.not_mem_nil
  | case2 c rest ends =>
    obtain rfl := eq_of_beq ends
    exact .inl (endsAt_singleton .nil)
  | case3 c open' escapes => exact goesTo_end (by simpa using Ne.symm (by simpa using open'))
  | case4 c open' escapes d rest ih =>
    obtain rfl := eq_of_beq escapes
    rw [Nat.add_comm, List.take_succ_cons, List.take_succ_cons, List.drop_succ_cons, List.drop_succ_cons]
    exact (leads_two (.inl other.symm) not_unhidden_backslash (fun _ => unhidden_pair) _).goesTo ih
  | case5 c rest open' plain ih =>
    rw [Nat.add_comm, List.take_succ_cons, List.drop_succ_cons]
    exact (leads_one (.inl (by simpa using open')) (unhidden_char (by simpa using plain)) _).goesTo ih

/-! ### Regular expressions -/

/-- Texts behind which a character is outside, where a set may be open in front of them. -/
def Leaves : Bool → List Char → Prop
  | false, cs => Outside cs
  | true, cs => ∃ set rest, cs = set ++ rest ∧ EndsAt [']'] Unhidden set ∧ Outside rest

theorem not_leaves_nil : ¬Leaves true [] := by
  rintro ⟨set, rest, shape, ⟨⟨front, closed, -⟩, -⟩, -⟩
  simp [closed] at shape

theorem not_leaves_backslash (inSet : Bool) : ¬Leaves inSet ['\\'] := by
  intro h
  cases inSet with
  | false =>
    cases h with
    | char other => exact other rfl
  | true =>
    obtain ⟨set, rest, shape, ⟨⟨front, closed, -⟩, -⟩, -⟩ := h
    have mem : ']' ∈ ['\\'] := by simp [shape, closed]
    exact absurd mem (by decide)

/-- In a set, characters in front that do not close it. -/
theorem leaves_lead {lead : List Char} (leads : ∀ text, Leads [']'] Unhidden Unhidden lead text) (cs : List Char) :
    Leaves true (lead ++ cs) ↔ Leaves true cs := by
  constructor
  · rintro ⟨set, rest, shape, ends, outside⟩
    obtain ⟨front, rfl, isFree⟩ := ends.closed
    obtain ⟨front, rfl, behind, -⟩ := (leads cs front rest).mp ⟨by simpa using shape, isFree⟩
    exact ⟨front ++ [']'], rest, behind, (leads _).endsAt_iff.mp (by simpa using ends), outside⟩
  · rintro ⟨set, rest, rfl, ends, outside⟩
    exact ⟨lead ++ set, rest, (List.append_assoc ..).symm, (leads set).endsAt_iff.mpr ends, outside⟩

theorem leaves_pair (inSet : Bool) (cs : List Char) : Leaves inSet ('\\' :: c :: cs) ↔ Leaves inSet cs := by
  cases inSet with
  | false =>
    refine ⟨fun h => ?_, .pair⟩
    cases h with
    | pair h => exact h
    | char other => exact absurd rfl other
  | true => exact leaves_lead (leads_two (.inl (by decide)) not_unhidden_backslash fun _ => unhidden_pair) cs

theorem leaves_char (plain : c ≠ '\\') (inSet : Bool) (cs : List Char) :
    Leaves inSet (c :: cs) ↔ Leaves (c == '[' || (inSet && c != ']')) cs := by
  cases inSet with
  | false =>
    rw [Bool.false_and, Bool.or_false]
    by_cases opens : c = '['
    · subst opens
      constructor
      · intro h
        generalize shape : '[' :: cs = text at h
        cases h with
        | nil | pair => cases shape
        | char _ other =>
          cases shape
          exact absurd rfl other
        | set ends outside =>
          cases shape
          exact ⟨_, _, rfl, ends, outside⟩
      · rintro ⟨set, rest, rfl, ends, outside⟩
        exact .set ends outside
    · rw [beq_eq_false_iff_ne.mpr opens]
      refine ⟨fun h => ?_, .char plain opens⟩
      cases h with
      | pair => exact absurd rfl plain
      | char _ _ h => exact h
      | set => exact absurd rfl opens
  | true =>
    rw [Bool.true_and]
    by_cases closes : c = ']'
    · subst closes
      constructor
      · rintro ⟨set, rest, shape, ends, outside⟩
        obtain ⟨front, closed, -⟩ := ends.closed
        rcases set with _ | ⟨a, set⟩
        · simp at closed
        · obtain ⟨rfl, behind⟩ := List.cons.inj shape
          cases ends.first [] set ⟨rfl, .nil⟩
          rw [behind]
          exact outside
      · exact fun outside => ⟨[']'], cs, rfl, endsAt_singleton .nil, outside⟩
    · rw [bne_iff_ne.mpr closes, Bool.or_true]
      exact leaves_lead (leads_one (.inl closes) (unhidden_char plain)) cs

/-- The body of a regular expression goes up to the first slash outside. -/
theorem goesTo_regexBodyExtent (inSet : Bool) (cs : List Char) :
    GoesTo ['/'] (Leaves inSet) (cs.take (regexBodyExtent inSet cs)) (cs.drop (regexBodyExtent inSet cs)) := by
  fun_induction regexBodyExtent inSet cs with
  | case1 => exact goesTo_end List.not_mem_nil
  | case2 inSet c escapes =>
    obtain rfl := eq_of_beq escapes
    exact goesTo_end (by decide)
  | case3 inSet c escapes d rest ih =>
    obtain rfl := eq_of_beq escapes
    rw [Nat.add_comm, List.take_succ_cons, List.take_succ_cons, List.drop_succ_cons, List.drop_succ_cons]
    exact (leads_two (.inl (by decide)) (not_leaves_backslash inSet) (leaves_pair inSet) _).goesTo ih
  | case4 inSet c rest plain ends =>
    obtain ⟨slash, outside⟩ := Bool.and_eq_true_iff.mp ends
    obtain rfl := eq_of_beq slash
    rw [Bool.not_eq_true'] at outside
    subst outside
    exact .inl (endsAt_singleton .nil)
  | case5 inSet c rest plain open' ih =>
    have inside : c ≠ '/' ∨ ¬Leaves inSet [] := by
      cases inSet with
      | false => exact .inl (by simpa using open')
      | true => exact .inr not_leaves_nil
    rw [Nat.add_comm, List.take_succ_cons, List.drop_succ_cons]
    exact (leads_one inside (leaves_char (by simpa using plain) inSet) _).goesTo ih

/-! ### Comments -/

/-- A comment in brackets goes up to its first closing mark. -/
theorem goesTo_blockCommentExtent (cs : List Char) :
    GoesTo ['*', '/'] (fun _ => True) (cs.take (blockCommentExtent cs)) (cs.drop (blockCommentExtent cs)) := by
  fun_induction blockCommentExtent cs with
  | case1 => exact .inr ⟨rfl, fun front back marked => by simp [Marked] at marked⟩
  | case2 rest =>
    refine .inl ⟨⟨[], rfl, trivial⟩, fun front back marked => ?_⟩
    have size := congrArg List.length marked.1
    simp only [List.take_succ_cons, List.take_zero, List.length_append, List.length_cons, List.length_nil] at size
    exact List.length_eq_zero_iff.mp (by omega)
  | case3 c rest other ih =>
    rw [Nat.add_comm, List.take_succ_cons, List.drop_succ_cons]
    have leads : Leads ['*', '/'] (fun _ => True) (fun _ => True) [c] (rest.take (blockCommentExtent rest)) := by
      intro front back
      constructor
      · rintro ⟨shape, -⟩
        rcases front with _ | ⟨d, front⟩
        · -- the mark would start at the first character, but the text goes on as the source does
          obtain ⟨rfl, further⟩ : c = '*' ∧ rest.take (blockCommentExtent rest) = '/' :: back := List.cons.inj shape
          have split := List.take_append_drop (blockCommentExtent rest) rest
          rw [further] at split
          exact (other _ rfl split.symm).elim
        · obtain ⟨rfl, behind⟩ := List.cons.inj shape
          exact ⟨front, rfl, behind, trivial⟩
      · rintro ⟨front, rfl, shape, -⟩
        exact ⟨congrArg (c :: ·) shape, trivial⟩
    exact leads.goesTo ih

/-! ### Runs and operators -/

theorem isRun_run (p : Char → Bool) (cs : List Char) : IsRun p (cs.take (run p cs)) (cs.drop (run p cs)) := by
  induction cs with
  | nil => exact ⟨by simp, by simp⟩
  | cons c cs ih =>
    by_cases inside : p c = true
    · have size : run p (c :: cs) = run p cs + 1 := by simp [run, inside]
      rw [size, List.take_succ_cons, List.drop_succ_cons]
      exact ⟨List.forall_mem_cons.mpr ⟨inside, ih.inside⟩, ih.ends⟩
    · have size : run p (c :: cs) = 0 := by simp [run, inside]
      rw [size]
      exact ⟨by simp, by simpa using inside⟩

/-- An operator has several characters or one. -/
theorem mem_operators_iff {op : String} : op ∈ operators ↔ op.toList ∈ longOperators ∨ ∃ c ∈ shortOperators, op.toList = [c] := by
  have known : ∀ op ∈ operators, op.toList ∈ longOperators ∨ op.toList ∈ shortOperators.map fun c => [c] := by decide
  have long : ∀ cs ∈ longOperators, String.ofList cs ∈ operators := by decide
  have short : ∀ c ∈ shortOperators, String.ofList [c] ∈ operators := by decide
  refine ⟨fun listed => (known op listed).imp_right fun single => ?_, ?_⟩
  · obtain ⟨c, mem, same⟩ := List.mem_map.mp single
    exact ⟨c, mem, same.symm⟩
  rw [← String.ofList_toList (s := op), String.toList_ofList]
  rintro (several | ⟨c, single, same⟩)
  · exact long _ several
  · rw [same]
    exact short c single

/-- A symbol is an operator if there is one at the start, and then it is the longest. -/
theorem symbol_cases (c : Char) (rest : List Char) :
    (∃ op ∈ operators, symbol c rest = (.operator, op.length) ∧ op.toList <+: c :: rest ∧
        ∀ op' ∈ operators, op'.toList <+: c :: rest → op'.length ≤ op.length) ∨
      (symbol c rest = (.punctuation, 1) ∧ c ∈ punctuation ∨ symbol c rest = (.space, 1)) ∧
        ∀ op ∈ operators, ¬op.toList <+: c :: rest := by
  unfold symbol
  split
  · rename_i found search
    obtain ⟨begins, longer, shorter, shape, none⟩ := List.find?_eq_some_iff_append.mp search
    have listed : String.ofList found ∈ operators := by
      rw [mem_operators_iff, String.toList_ofList, shape]
      exact .inl (by simp)
    refine .inl ⟨_, listed, by simp, by simpa using begins, fun op' mem here => ?_⟩
    rw [String.length_ofList, ← String.length_toList]
    rcases mem_operators_iff.mp mem with several | ⟨d, -, single⟩
    · -- an operator that is listed earlier would have been found, and those listed later are not longer
      have sorted : longOperators.Pairwise fun a b => b.length ≤ a.length := by decide
      rw [shape] at several sorted
      rcases List.mem_append.mp several with earlier | later
      · have other := none _ earlier
        rw [Bool.not_eq_true', ← Bool.not_eq_true, List.isPrefixOf_iff_prefix] at other
        exact absurd here other
      · rcases List.mem_cons.mp later with same | later
        · rw [same]
        · exact (List.pairwise_cons.mp (List.pairwise_append.mp sorted).2.1).1 _ later
    · rw [single]
      exact longOperators_pos (by rw [shape]; simp)
  · rename_i search
    have none : ∀ op : String, op.toList ∈ longOperators → ¬op.toList <+: c :: rest := by
      intro op mem here
      exact List.find?_eq_none.mp search _ mem (List.isPrefixOf_iff_prefix.mpr here)
    split_ifs with short mark
    · have listed : String.ofList [c] ∈ operators :=
        mem_operators_iff.mpr (.inr ⟨c, List.contains_iff_mem.mp short, String.toList_ofList⟩)
      refine .inl ⟨_, listed, by simp, by simp, fun op mem here => ?_⟩
      rcases mem_operators_iff.mp mem with several | ⟨d, -, single⟩
      · exact absurd here (none op several)
      · rw [← String.length_toList, single]
        simp
    all_goals
      refine .inr ⟨?_, fun op mem here => ?_⟩
      · simp_all
      · rcases mem_operators_iff.mp mem with several | ⟨d, listed, single⟩
        · exact none op several here
        · rw [single, List.cons_prefix_cons] at here
          exact short (List.contains_iff_mem.mpr (here.1 ▸ listed))

/-! ### What a text starts with -/

/-- A slash in front of this text starts a comment. -/
def OpensComment (rest : List Char) : Prop := rest.head? = some '/' ∨ rest.head? = some '*'

/-- A number starts with a digit, or with a point in front of one. -/
def startsNumber (c : Char) (rest : List Char) : Bool := c.isDigit || (c == '.' && rest.head?.any Char.isDigit)

/-- No class but those of the symbols starts here. -/
structure StartsSymbol (divides : Bool) (c : Char) (rest : List Char) : Prop where
  quote : c ∉ ['\'', '"']
  number : startsNumber c rest = false
  name : startsName c = false
  slash : c = '/' → ¬OpensComment rest ∧ divides = true

/-- The kind and the size of the token that a text starts with, where `divides` says whether a slash divides there. -/
inductive Opening (divides : Bool) (c : Char) (rest : List Char) : Kind → Nat → Prop where
  | newline : c = '\n' → Opening divides c rest .newline 1
  | space : isInlineSpace c = true → Opening divides c rest .space (run isInlineSpace (c :: rest))
  | line : c = '/' → rest.head? = some '/' → Opening divides c rest .comment (run (· != '\n') (c :: rest))
  | block : c = '/' → rest.head? = some '*' → Opening divides c rest .comment (2 + blockCommentExtent rest.tail)
  | template : c = backtick → Opening divides c rest (.template (templateBody 0 [] rest).1) (1 + (templateBody 0 [] rest).2)
  | string : c ∈ ['\'', '"'] → Opening divides c rest .string (1 + stringExtent c rest)
  | regex : c = '/' → ¬OpensComment rest → divides = false → Opening divides c rest .regex (1 + regexExtent rest)
  | number : startsNumber c rest = true → Opening divides c rest .number (numberExtent (c :: rest))
  | name : startsName c = true → Opening divides c rest .identifier (run continuesName (c :: rest))
  | operator {op : String} : StartsSymbol divides c rest → op ∈ operators → op.toList <+: c :: rest →
      (∀ op' ∈ operators, op'.toList <+: c :: rest → op'.length ≤ op.length) → Opening divides c rest .operator op.length
  | mark : c ∈ punctuation → (∀ op ∈ operators, ¬op.toList <+: c :: rest) → StartsSymbol divides c rest →
      Opening divides c rest .punctuation 1
  | other : (∀ op ∈ operators, ¬op.toList <+: c :: rest) → StartsSymbol divides c rest → Opening divides c rest .space 1

theorem opening_symbol (starts : StartsSymbol divides c rest) : Opening divides c rest (symbol c rest).1 (symbol c rest).2 := by
  rcases symbol_cases c rest with ⟨op, listed, shape, here, longest⟩ | ⟨⟨shape, mark⟩ | shape, none⟩ <;> rw [shape]
  · exact .operator starts listed here longest
  · exact .mark mark none starts
  · exact .other none starts

theorem opening_first (divides : Bool) (c : Char) (rest : List Char) :
    Opening divides c rest (first divides c rest).1 (first divides c rest).2 := by
  unfold first
  split_ifs with newline space line block mark quote regex number name
  · exact .newline (eq_of_beq newline)
  · exact .space space
  · rw [Bool.and_eq_true, beq_iff_eq, beq_iff_eq] at line
    exact .line line.1 line.2
  · rw [Bool.and_eq_true, beq_iff_eq, beq_iff_eq] at block
    exact .block block.1 block.2
  · exact .template (eq_of_beq mark)
  · exact .string (by simpa using quote)
  · rw [Bool.and_eq_true, beq_iff_eq, Bool.not_eq_true'] at regex
    refine .regex regex.1 ?_ regex.2
    rintro (further | further) <;> simp [regex.1, further] at line block
  · exact .number number
  · exact .name name
  · refine opening_symbol ⟨by simpa using quote, by simpa [startsNumber] using number, by simpa using name, fun slash => ⟨?_, ?_⟩⟩
    · rintro (further | further) <;> simp [slash, further] at line block
    · simpa [slash] using regex

namespace Opening

variable {divides : Bool} {c : Char} {rest : List Char} {kind : Kind} {n : Nat}

section

variable (h : Opening divides c rest kind n)
include h

theorem name_iff : kind = .identifier ↔ startsName c = true := by
  refine ⟨?_, fun starts => ?_⟩
  · rintro rfl
    cases h with
    | name starts => exact starts
  · have marks : ∀ d ∈ ['\n', '/', backtick, '\'', '"', '.'], startsName d = false := by decide
    have other : ∀ d ∈ ['\n', '/', backtick, '\'', '"', '.'], c ≠ d := by
      rintro d listed rfl
      simp [marks c listed] at starts
    cases h with
    | name => rfl
    | newline same | line same | block same | regex same | template same => exact absurd same (other _ (by decide))
    | string quote =>
      rcases List.mem_cons.mp quote with same | quote
      · exact absurd same (other _ (by decide))
      · exact absurd (List.mem_singleton.mp quote) (other _ (by decide))
    | space inline => simp [isInlineSpace_of_continuesName (continuesName_of_startsName starts)] at inline
    | number digit =>
      simp [startsNumber, isDigit_of_startsName starts, beq_eq_false_iff_ne.mpr (other '.' (by decide))] at digit
    | operator symbol | mark _ _ symbol | other _ symbol => simp [symbol.name] at starts

theorem string_iff : kind = .string ↔ c ∈ ['\'', '"'] := by
  refine ⟨?_, fun quote => ?_⟩
  · rintro rfl
    cases h with
    | string quote => exact quote
  · have quotes : ∀ d ∈ ['\'', '"'], d ∉ ['\n', '/', backtick, '.'] ∧ isInlineSpace d = false ∧ d.isDigit = false ∧
        startsName d = false := by decide
    obtain ⟨other, inline, digit, name⟩ := quotes c quote
    cases h with
    | string => rfl
    | newline same | line same | block same | regex same | template same => exact absurd (by simp [same]) other
    | space space => simp [inline] at space
    | name starts => simp [name] at starts
    | number starts =>
      have point : c ≠ '.' := by
        rintro rfl
        exact other (by simp)
      simp [startsNumber, digit, beq_eq_false_iff_ne.mpr point] at starts
    | operator symbol | mark _ _ symbol | other _ symbol => exact absurd quote symbol.quote

theorem comment_iff : kind = .comment ↔ c = '/' ∧ OpensComment rest := by
  refine ⟨?_, ?_⟩
  · rintro rfl
    cases h with
    | line slash further => exact ⟨slash, .inl further⟩
    | block slash further => exact ⟨slash, .inr further⟩
  · rintro ⟨rfl, opens⟩
    cases h with
    | line | block => rfl
    | newline same | template same => cases same
    | space inline => exact absurd inline (by decide)
    | string quote => exact absurd quote (by decide)
    | regex _ closed => exact absurd opens closed
    | number starts => cases starts
    | name starts => exact absurd starts (by decide)
    | operator symbol | mark _ _ symbol | other _ symbol => exact absurd opens (symbol.slash rfl).1

theorem newline_of (same : kind = .newline) : c ∈ '\n' :: punctuation ∧ n = 1 := by
  subst same
  cases h with
  | newline same => exact ⟨List.mem_cons.mpr (.inl same), rfl⟩

theorem mark_of (same : kind = .punctuation) : c ∈ '\n' :: punctuation ∧ n = 1 := by
  subst same
  cases h with
  | mark mark => exact ⟨List.mem_cons_of_mem _ mark, rfl⟩

theorem kind_ne_endOfText : kind ≠ .endOfText := by
  rintro rfl
  cases h

theorem regex_iff : kind = .regex ↔ c = '/' ∧ ¬OpensComment rest ∧ divides = false := by
  refine ⟨?_, ?_⟩
  · rintro rfl
    cases h with
    | regex slash closed starts => exact ⟨slash, closed, starts⟩
  · rintro ⟨rfl, closed, starts⟩
    cases h with
    | regex => rfl
    | newline same | template same => cases same
    | space inline => exact absurd inline (by decide)
    | string quote => exact absurd quote (by decide)
    | line _ further => exact absurd (.inl further) closed
    | block _ further => exact absurd (.inr further) closed
    | number starts => cases starts
    | name starts => exact absurd starts (by decide)
    | operator symbol | mark _ _ symbol | other _ symbol => simp [(symbol.slash rfl).2] at starts

theorem operator_iff : kind = .operator ↔ (∃ op ∈ operators, op.toList <+: c :: rest) ∧ startsNumber c rest = false ∧
      (c = '/' → ¬OpensComment rest ∧ divides = true) := by
  refine ⟨?_, ?_⟩
  · rintro rfl
    cases h with
    | operator symbol listed here => exact ⟨⟨_, listed, here⟩, symbol.number, symbol.slash⟩
  · rintro ⟨⟨op, listed, here⟩, number, slash⟩
    have heads : ∀ op ∈ operators, op.toList.head?.all (· ∈ operatorStarts) = true := by decide
    have starts : c ∈ operatorStarts := by
      have nonempty : op.toList ≠ [] := by
        intro empty
        rw [String.toList_eq_nil_iff.mp empty] at listed
        exact absurd listed (by decide)
      obtain ⟨d, cs, shape⟩ := List.exists_cons_of_ne_nil nonempty
      rw [shape, List.cons_prefix_cons] at here
      have listed' := heads op listed
      rw [shape, here.1, List.head?_cons, Option.all_some] at listed'
      exact of_decide_eq_true listed'
    have others : ∀ c ∈ operatorStarts, c ∉ ['\n', backtick, '\'', '"'] ∧ isInlineSpace c = false ∧ startsName c = false := by
      decide
    obtain ⟨other, inline, name⟩ := others c starts
    cases h with
    | operator => rfl
    | newline same | template same => exact absurd (by simp [same]) other
    | string quote => exact absurd (List.mem_append_right ['\n', backtick] quote) other
    | space space => simp [inline] at space
    | name starts => simp [name] at starts
    | line same further => exact absurd (.inl further) (slash same).1
    | block same further => exact absurd (.inr further) (slash same).1
    | regex same _ starts => simp [(slash same).2] at starts
    | number starts => simp [number] at starts
    | mark _ none | other none => exact absurd here (none op listed)

end

end Opening

/-! ### What is asked of a token -/

/-- The nearest token that is no trivia is a name, a number, a closing bracket or an update: a slash divides behind it. -/
def DividesBehind (front : List Token) : Prop :=
  ∃ t ∈ front.reverse.find? (!·.isTrivia), t.kind = .identifier ∨ t.kind = .number ∨
    t ∈ [⟨.punctuation, ")"⟩, ⟨.punctuation, "]"⟩, ⟨.operator, "++"⟩, ⟨.operator, "--"⟩]

/-- A token between the tokens `front` and the characters `after` has the kind that the characters from its start on ask for,
and it goes as far as its kind asks. -/
structure Described (front : List Token) (t : Token) (after : List Char) : Prop where
  /-- What a token starts with tells its kind. -/
  kind : ∀ c rest, t.text.toList ++ after = c :: rest →
    (t.kind = .identifier ↔ startsName c = true) ∧ (t.kind = .string ↔ c ∈ ['\'', '"']) ∧
    (t.kind = .comment ↔ c = '/' ∧ OpensComment rest) ∧
    (t.kind = .operator ↔ (∃ op ∈ operators, op.toList <+: c :: rest) ∧ startsNumber c rest = false ∧
      (c = '/' → ¬OpensComment rest ∧ DividesBehind front))
  /-- A name is the longest run of its characters. What stands in front of it goes on in it only if it was taken for another
  token before: a number, the flags of a regular expression, or a character that starts nothing. -/
  name : t.kind = .identifier → IsRun continuesName t.text.toList after ∧ ∀ u ∈ front.getLast?,
    u.text.toList.getLast?.any continuesName = true → u.kind = .number ∨ u.kind = .regex ∨ u.kind = .space
  string : t.kind = .string → ∃ quote ∈ ['\'', '"'], ∃ inside, t.text.toList = quote :: inside ∧
    GoesTo [quote] Unhidden inside after
  regex : t.kind = .regex → ∃ inside flags, t.text.toList = '/' :: (inside ++ flags) ∧
    GoesTo ['/'] Outside inside (flags ++ after) ∧ IsRun isRegexFlag flags after
  operator : t.kind = .operator → t.text ∈ operators ∧
    ∀ op ∈ operators, op.toList <+: t.text.toList ++ after → op.length ≤ t.text.length
  comment : t.kind = .comment → ∃ inside, t.text.toList = '/' :: '/' :: inside ∧ IsRun (· != '\n') inside after ∨
    t.text.toList = '/' :: '*' :: inside ∧ GoesTo ['*', '/'] (fun _ => True) inside after
  /-- A slash that opens no comment divides or starts a regular expression. -/
  slash : t.text.toList.head? = some '/' → t.kind ≠ .comment →
    (t = ⟨.operator, "/"⟩ ↔ DividesBehind front) ∧ (t.kind = .regex ↔ ¬DividesBehind front)

/-- A token that is the first one of the characters from its start on. -/
structure StartsAt (divides : Bool) (t : Token) (after : List Char) (c : Char) (rest : List Char) : Prop where
  source : t.text.toList ++ after = c :: rest
  opening : Opening divides c rest t.kind t.text.length

namespace StartsAt

variable {divides : Bool} {t : Token} {after : List Char} {c : Char} {rest : List Char}

section

variable (h : StartsAt divides t after c rest)
include h

theorem text_eq : t.text.toList = (c :: rest).take t.text.length := by
  rw [← h.source, ← String.length_toList, List.take_left]

theorem after_eq : after = (c :: rest).drop t.text.length := by
  rw [← h.source, ← String.length_toList, List.drop_left]

/-- The text behind its first character, with what is behind the token. -/
theorem behind {n : Nat} (size : t.text.length = 1 + n) : t.text.toList = c :: rest.take n ∧ after = rest.drop n := by
  rw [h.text_eq, h.after_eq, size, Nat.add_comm, List.take_succ_cons, List.drop_succ_cons]
  exact ⟨rfl, rfl⟩

theorem isRun {p : Char → Bool} (size : t.text.length = run p (c :: rest)) : IsRun p t.text.toList after := by
  rw [h.text_eq, h.after_eq, size]
  exact isRun_run p _

theorem opening_of_kind {kind : Kind} (same : t.kind = kind) : ∃ n, t.text.length = n ∧ Opening divides c rest kind n :=
  ⟨_, rfl, same ▸ h.opening⟩

theorem string_goesTo (kind : t.kind = .string) : ∃ inside, t.text.toList = c :: inside ∧ GoesTo [c] Unhidden inside after := by
  obtain ⟨n, size, opening⟩ := h.opening_of_kind kind
  cases opening with
  | string quote =>
    obtain ⟨text, rfl⟩ := h.behind size
    have other : c ≠ '\\' := by
      rintro rfl
      exact absurd quote (by decide)
    exact ⟨_, text, goesTo_stringExtent other rest⟩

theorem regex_goesTo (kind : t.kind = .regex) :
    ∃ inside flags, t.text.toList = '/' :: (inside ++ flags) ∧ GoesTo ['/'] Outside inside (flags ++ after) ∧
      IsRun isRegexFlag flags after := by
  obtain ⟨n, size, opening⟩ := h.opening_of_kind kind
  cases opening with
  | regex slash =>
    subst slash
    have body := goesTo_regexBodyExtent false rest
    have flags := isRun_run isRegexFlag (rest.drop (regexBodyExtent false rest))
    obtain ⟨text, rfl⟩ := h.behind size
    rw [regexExtent, List.take_add] at text
    rw [regexExtent]
    rw [List.drop_drop] at flags
    rw [← List.take_append_drop (run isRegexFlag (rest.drop (regexBodyExtent false rest)))
      (rest.drop (regexBodyExtent false rest)), List.drop_drop] at body
    exact ⟨_, _, text, body, flags⟩

theorem operator_longest (kind : t.kind = .operator) :
    t.text ∈ operators ∧ ∀ op ∈ operators, op.toList <+: t.text.toList ++ after → op.length ≤ t.text.length := by
  obtain ⟨n, size, opening⟩ := h.opening_of_kind kind
  cases opening with
  | @operator op _ listed here longest =>
    have same : t.text = op := by
      rw [← String.toList_inj, h.text_eq, size, ← String.length_toList, ← List.prefix_iff_eq_take.mp here]
    rw [h.source, same]
    exact ⟨listed, longest⟩

theorem comment_goesTo (kind : t.kind = .comment) :
    ∃ inside, t.text.toList = '/' :: '/' :: inside ∧ IsRun (· != '\n') inside after ∨
      t.text.toList = '/' :: '*' :: inside ∧ GoesTo ['*', '/'] (fun _ => True) inside after := by
  obtain ⟨n, size, opening⟩ := h.opening_of_kind kind
  cases opening with
  | line slash further =>
    subst slash
    obtain ⟨rest, rfl⟩ := List.head?_eq_some_iff.mp further
    have inside : run (· != '\n') ('/' :: '/' :: rest) = 1 + (1 + run (· != '\n') rest) := by
      simp [run]
      omega
    obtain ⟨text, rfl⟩ := h.behind (size.trans inside)
    rw [Nat.add_comm, List.take_succ_cons] at text
    refine ⟨_, .inl ⟨text, ?_⟩⟩
    rw [Nat.add_comm, List.drop_succ_cons]
    exact isRun_run _ rest
  | block slash further =>
    subst slash
    obtain ⟨rest, rfl⟩ := List.head?_eq_some_iff.mp further
    obtain ⟨text, rfl⟩ := h.behind (n := 1 + blockCommentExtent rest) (by rw [size, List.tail_cons]; omega)
    rw [Nat.add_comm, List.take_succ_cons] at text
    refine ⟨_, .inr ⟨text, ?_⟩⟩
    rw [Nat.add_comm, List.drop_succ_cons]
    exact goesTo_blockCommentExtent rest

theorem name_isRun (kind : t.kind = .identifier) : IsRun continuesName t.text.toList after := by
  obtain ⟨n, size, opening⟩ := h.opening_of_kind kind
  cases opening with
  | name => exact h.isRun size

theorem template_last {parts : List TemplatePart} (kind : t.kind = .template parts)
    (further : after ≠ []) : t.text.toList.getLast? = some backtick := by
  obtain ⟨n, size, opening⟩ := h.opening_of_kind kind
  cases opening with
  | template =>
    obtain ⟨text, rfl⟩ := h.behind size
    have ends := (Template.templateBody_reading rest).ends.resolve_right further
    rw [text, List.getLast?_cons, ends, Option.getD_some]

/-- In front of a name, a token whose last character could go on in the name is a number, a regular expression or a character
that starts nothing. -/
theorem kind_before_name {d : Char} (next : after.head? = some d) (name : startsName d = true)
    (last : t.text.toList.getLast?.any continuesName = true) : t.kind = .number ∨ t.kind = .regex ∨ t.kind = .space := by
  have further : after ≠ [] := by
    rintro rfl
    cases next
  have ended : ∀ {e : Char}, t.text.toList.getLast? = some e → continuesName e = true := by
    intro e found
    rwa [found, Option.any_some] at last
  have alone : c ∈ '\n' :: punctuation ∧ t.text.length = 1 → False := by
    rintro ⟨mark, size⟩
    have marks : ∀ e ∈ '\n' :: punctuation, continuesName e = false := by decide
    have solid := ended (e := c) (by rw [h.text_eq, size]; rfl)
    simp [marks c mark] at solid
  cases kind : t.kind with
  | number => exact .inl rfl
  | regex => exact .inr (.inl rfl)
  | space => exact .inr (.inr rfl)
  | identifier =>
    have stops := (h.name_isRun kind).ends d next
    simp [continuesName_of_startsName name] at stops
  | string =>
    have quotes : ∀ q ∈ ['\'', '"'], continuesName q = false := by decide
    obtain ⟨inside, text, goes⟩ := h.string_goesTo kind
    obtain ⟨⟨front, shape, -⟩, -⟩ := goes.resolve_right fun cut => further cut.1
    have solid := ended (e := c) (by simp [text, shape, List.getLast?_cons])
    simp [quotes c (h.opening.string_iff.mp kind)] at solid
  | template parts => exact absurd (ended (h.template_last kind further)) (by decide)
  | operator =>
    have signs : ∀ op ∈ operators, op.toList.getLast?.any continuesName = false := by decide
    simp [signs _ (h.operator_longest kind).1] at last
  | comment =>
    obtain ⟨inside, ⟨-, inLine⟩ | ⟨text, goes⟩⟩ := h.comment_goesTo kind
    · obtain rfl : d = '\n' := by simpa using inLine.ends d next
      exact absurd name (by decide)
    · obtain ⟨⟨front, shape, -⟩, -⟩ := goes.resolve_right fun cut => further cut.1
      exact absurd (ended (e := '/') (by simp [text, shape, List.getLast?_cons])) (by decide)
  | punctuation => exact (alone (h.opening.mark_of kind)).elim
  | newline => exact (alone (h.opening.newline_of kind)).elim
  | endOfText => exact absurd kind h.opening.kind_ne_endOfText

end

end StartsAt

/-! ### Every token of a script -/

theorem endsOperand_iff : t.endsOperand = true ↔ t.kind = .identifier ∨ t.kind = .number ∨
    t ∈ [⟨.punctuation, ")"⟩, ⟨.punctuation, "]"⟩, ⟨.operator, "++"⟩, ⟨.operator, "--"⟩] := by
  obtain ⟨kind, text⟩ := t
  cases kind <;> simp [endsOperand, isPunct, isOperator]

theorem dividesBehind_iff (front : List Token) : front.foldl dividesAfter false = true ↔ DividesBehind front := by
  induction front using List.reverseRecOn with
  | nil => simp [DividesBehind]
  | append_singleton front t ih =>
    rw [List.foldl_append, List.foldl_cons, List.foldl_nil, dividesAfter, DividesBehind, List.reverse_concat, List.find?_cons]
    cases trivia : t.isTrivia with
    | true => exact ih
    | false => simpa using endsOperand_iff

theorem Cut.startsAt {cs : List Char} {front back : List Token} (h : Cut divides cs (front ++ t :: back)) :
    ∃ c rest, StartsAt (front.foldl dividesAfter divides) t (chars back) c rest := by
  induction front generalizing divides cs with
  | nil =>
    cases h with
    | @token _ c rest after _ _ kind size split later =>
      obtain rfl : chars back = after := later.join_eq
      refine ⟨c, rest, split, ?_⟩
      rw [kind, size]
      exact opening_first _ c rest
  | cons u front ih =>
    cases h with
    | token _ _ _ later => exact ih later

/-- The tokens that start with a slash and are no comment. -/
theorem StartsAt.slash {after : List Char} (h : StartsAt divides t after '/' rest)
    (closed : ¬OpensComment rest) : (t = ⟨.operator, "/"⟩ ↔ divides = true) ∧ (t.kind = .regex ↔ ¬divides = true) := by
  have slashes : ∀ op ∈ operators, op.toList.head? = some '/' → op = "/" := by decide
  refine ⟨⟨?_, fun divided => ?_⟩, ?_⟩
  · rintro rfl
    exact ((h.opening.operator_iff.mp rfl).2.2 rfl).2
  · have kind : t.kind = .operator := h.opening.operator_iff.mpr ⟨⟨"/", by decide, ⟨rest, rfl⟩⟩, rfl, fun _ => ⟨closed, divided⟩⟩
    have nonempty : t.text.toList ≠ [] := by
      intro empty
      have listed := (h.operator_longest kind).1
      rw [String.toList_eq_nil_iff.mp empty] at listed
      exact absurd listed (by decide)
    have first : t.text.toList.head? = some '/' := by
      rw [← List.head?_append_of_ne_nil _ nonempty, h.source]
      rfl
    have text := slashes _ (h.operator_longest kind).1 first
    obtain ⟨_, _⟩ := t
    cases kind
    cases text
    rfl
  · rw [h.opening.regex_iff, Bool.not_eq_true]
    exact ⟨fun starts => starts.2.2, fun starts => ⟨rfl, closed, starts⟩⟩

theorem StartsAt.described {front : List Token} {after : List Char} (h : StartsAt (front.foldl dividesAfter false) t after c rest)
    (before : ∀ u ∈ front.getLast?, startsName c = true → u.text.toList.getLast?.any continuesName = true →
      u.kind = .number ∨ u.kind = .regex ∨ u.kind = .space) : Described front t after where
  kind := by
    intro d rest' split
    obtain ⟨rfl, rfl⟩ := List.cons.inj (h.source.symm.trans split)
    rw [← dividesBehind_iff]
    exact ⟨h.opening.name_iff, h.opening.string_iff, h.opening.comment_iff, h.opening.operator_iff⟩
  name kind := ⟨h.name_isRun kind, fun u last => before u last (h.opening.name_iff.mp kind)⟩
  string kind := ⟨c, h.opening.string_iff.mp kind, h.string_goesTo kind⟩
  regex := h.regex_goesTo
  operator := h.operator_longest
  comment := h.comment_goesTo
  slash := by
    intro starts other
    obtain ⟨cs, shape⟩ := List.head?_eq_some_iff.mp starts
    have source := h.source
    rw [shape] at source
    obtain rfl := (List.cons.inj source).1
    rw [← dividesBehind_iff]
    exact h.slash fun opens => other (h.opening.comment_iff.mpr ⟨rfl, opens⟩)

/-- Nothing is asked of the closing token. -/
theorem described_eof (front : List Token) : Described front eof [] := by
  constructor <;> simp [eof]

/-- Every token of a script has the kind that the characters at its place ask for and goes as far as its kind asks: a name is a
longest run, a string and a regular expression go up to the first closing mark that is not hidden, or are cut by the end of the
source, an operator is the longest one, a comment in brackets goes up to its first closing mark, and a slash that opens no
comment divides exactly if the nearest token in front that is no trivia ends an operand. -/
theorem tokenize_extents (source : String) (front : List Token) (t : Token) (back : List Token)
    (split : tokenize source = front ++ t :: back) : Described front t (chars back) := by
  obtain ⟨rfl, rfl⟩ | ⟨ts, rfl, cut⟩ := eof_or_cut split
  · exact described_eof front
  · have behind : chars (ts ++ [eof]) = chars ts := (chars_append ts [eof]).trans (List.append_nil _)
    obtain ⟨c, rest, starts⟩ := cut.startsAt
    rw [behind]
    refine starts.described fun u before name continues => ?_
    obtain ⟨front, rfl⟩ := List.getLast?_eq_some_iff.mp before
    rw [List.append_assoc, List.singleton_append] at cut
    obtain ⟨d, rest', starts'⟩ := cut.startsAt
    refine starts'.kind_before_name ?_ name continues
    rw [chars_cons, starts.source]
    rfl

/-- A slash in a set does not close a regular expression, and behind its flags another one starts, cut by the end. -/
theorem tokenize_extents_regex :
    tokenize "a=/[/]/g/b" = [⟨.identifier, "a"⟩, ⟨.operator, "="⟩] ++ ⟨.regex, "/[/]/g"⟩ :: [⟨.regex, "/b"⟩, eof] ∧
    Described [⟨.identifier, "a"⟩, ⟨.operator, "="⟩] ⟨.regex, "/[/]/g"⟩ ['/', 'b'] := by
  have split : tokenize "a=/[/]/g/b" =
      [⟨.identifier, "a"⟩, ⟨.operator, "="⟩] ++ ⟨.regex, "/[/]/g"⟩ :: [⟨.regex, "/b"⟩, eof] := by decide +kernel
  exact ⟨split, tokenize_extents _ _ _ _ split⟩

end NoteScript.Token

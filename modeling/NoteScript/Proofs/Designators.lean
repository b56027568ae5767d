import NoteScript.Proofs.Arrays
import NoteScript.Proofs.Cutting
import NoteScript.Proofs.Groups
import NoteScript.Proofs.Lines

/-!
# Designators

What an assignment or an update may change: a name with members and indices behind it. Such a name may be one that the
rules know: the member of a global object is taken together with the object, a length takes back what is written in
front of it, and an index behind a word such as `of` opens a table. What is written does not depend on what follows.

* `Designator.written`: the entries of a designator.
* `Designator.passes`: the rules write them, if they know of no map. `Designator.halts`: they stop at a member that
  has a meaning in calls only.
-/

namespace NoteScript

open Edit Buffer Text Token

/-! ### Desks that know of no map -/

/-- An action that leaves the desk as it is, with a given result. -/
def Edit.result {α : Type} (outcome : Except Fault α) : Edit α := fun d => (outcome, d)

/-- On every desk at the spot `s` that knows of no map, one action comes to another one at the spot `s'`. -/
def Leads {α : Type} (a : Edit α) (s : Spot) (a' : Edit α) (s' : Spot) : Prop := ∀ d start journal, d.mapNames = [] →
    ∃ start' journal', a (Desk.put d s start journal) = a' (Desk.put d s' start' journal')

namespace Leads

variable {α β : Type} {a a' a'' : Edit α} {s s' s'' : Spot}

theorem refl : Leads a s a s := fun _ start journal _ => ⟨start, journal, rfl⟩

theorem trans (h : Leads a s a' s') (h' : Leads a' s' a'' s'') : Leads a s a'' s'' := by
  intro d start journal fresh
  obtain ⟨start', journal', first⟩ := h d start journal fresh
  obtain ⟨start'', journal'', second⟩ := h' d start' journal' fresh
  exact ⟨start'', journal'', first.trans second⟩

theorem bind {f : α → Edit β} (h : Leads a s a' s') : Leads (a >>= f) s (a' >>= f) s' := by
  intro d start journal fresh
  obtain ⟨start', journal', same⟩ := h d start journal fresh
  exact ⟨start', journal', by rw [bind_apply, bind_apply, same]⟩

/-- An action that returns leads to what follows it. -/
theorem seq {f : α → Edit β} {x : α} {b : Edit β} (h : Leads a s (.result (.ok x)) s') (h' : Leads (f x) s' b s'') :
    Leads (a >>= f) s b s'' :=
  h.bind.trans h'

/-- An action that stops leads to the same fault as the whole. -/
theorem stop {f : α → Edit β} {fault : Fault} (h : Leads a s (.result (.error fault)) s') :
    Leads (a >>= f) s (.result (.error fault)) s' :=
  h.bind

/-- The text of a nested token list, or the fault that stops the work on it. -/
theorem nested {a : Edit Unit} {tokens before rest before' rest' : List Token} {out written : Buffer} {loops loops' : LoopState}
    {outcome : Except Fault Unit}
    (inner : Leads a ⟨[], tokens ++ [Token.eof], [], loops⟩ (.result outcome) ⟨before', rest', written, loops'⟩) :
    Leads (Edit.nested tokens a) ⟨before, rest, out, loops⟩ (.result (outcome.map fun _ => strip written.text))
      ⟨before, rest, out, loops'⟩ := by
  intro d start journal fresh
  obtain ⟨start', journal', run⟩ := inner { d with held := [], inExpression := true } none journal fresh
  refine ⟨start, journal', ?_⟩
  have started : a ((d.put ⟨before, rest, out, loops⟩ start journal).onSheet (.nested tokens)) = _ := run
  simp only [Edit.nested, started]
  rfl

end Leads

/-- What an action does on every desk it does on desks that know of no map. -/
theorem Takes.leads {α : Type} {a : Edit α} {s s' : Spot} {x : α} (h : Takes a s x s') : Leads a s (.result (.ok x)) s' :=
  fun d start journal _ => h d start journal

/-- A unit that stops the run stops the units. -/
theorem Leads.units_stop {r : Rules} {stops : Cursor → Bool} {s s' : Spot} {fault : Fault}
    (h : Leads r.expression s (.result (.error fault)) s') (inside : s.cursor.atEnd = false) (goes : stops s.cursor = false) :
    Leads (r.units stops) s (.result (.error fault)) s' := by
  obtain ⟨before, rest, out, loops⟩ := s
  cases rest with
  | nil => cases inside
  | cons t rest =>
    refine Takes.cursor.leads.seq (Takes.cursor.leads.seq ?_)
    rw [if_neg (by simp [inside, goes])]
    exact h.stop

/-- On desks that know of no map, units are taken from one spot to another. -/
def Passes (r : Rules) (stops : Cursor → Bool) (depth : Int) (s : Spot) (depth' : Int) (s' : Spot) : Prop :=
  ∀ limit, s.rest.length ≤ limit → ∃ limit', s'.rest.length ≤ limit' ∧
    Leads (r.unitsUpTo stops limit depth) s (r.unitsUpTo stops limit' depth') s'

namespace Passes

variable {r : Rules} {stops : Cursor → Bool} {depth depth' depth'' : Int} {s s' s'' : Spot}

theorem refl : Passes r stops depth s depth s := fun limit enough => ⟨limit, enough, .refl⟩

theorem trans (h : Passes r stops depth s depth' s') (h' : Passes r stops depth' s' depth'' s'') :
    Passes r stops depth s depth'' s'' := by
  intro limit enough
  obtain ⟨limit', enough', first⟩ := h limit enough
  obtain ⟨limit'', enough'', second⟩ := h' limit' enough'
  exact ⟨limit'', enough'', first.trans second⟩

theorem step (passed : List Token) (taken : Leads r.expression s (.result (.ok ())) s') (split : s.rest = passed ++ s'.rest)
    (nonempty : passed ≠ []) (inside : s.cursor.atEnd = false) (goes : depth = 0 → stops s.cursor = false) :
    Passes r stops depth s (depth + bracketDepth passed) s' := by
  intro limit enough
  obtain ⟨limit, rfl, left⟩ := Spot.exists_limit split nonempty enough
  refine ⟨limit, left, fun d start journal fresh => ?_⟩
  obtain ⟨start', journal', unit⟩ := taken d start journal fresh
  exact ⟨start', journal', Walk.unitsUpTo_step inside goes unit split limit⟩

theorem of_walk (walk : Walk r stops depth s depth' s') : Passes r stops depth s depth' s' := by
  induction walk with
  | done => exact refl
  | step passed inside goes unit split nonempty _ ih => exact (step passed unit.leads split nonempty inside goes).trans ih

theorem leads_units (h : Passes r stops 0 s 0 s') (ended : s'.cursor.atEnd = true ∨ stops s'.cursor = true) :
    Leads (r.units stops) s (.result (.ok ())) s' := by
  obtain ⟨limit, -, run⟩ := h s.rest.length (Nat.le_refl _)
  have done : Leads (r.unitsUpTo stops limit 0) s' (.result (.ok ())) s' := (Walk.unitsUpTo_ended ended limit).leads
  exact Takes.cursor.leads.seq (run.trans done)

end Passes

/-- A member or an index. -/
inductive Selector where
  /-- `.f` -/
  | member (f : Name)
  /-- `[e]` -/
  | index (e : Expr .expression)

/-- A name with members and indices behind it. -/
structure Designator where
  head : Name
  selectors : List Selector

/-! ### Spelling -/

namespace Selector

/-- The last token of a member or an index. -/
def last : Selector → Token
  | member f => .word f.text
  | index _ => .mark "]"

def tokens : Selector → List Token
  | member f => [.sign ".", .word f.text]
  | index e => .mark "[" :: e.tokens ++ [.mark "]"]

/-- The tokens of members and indices one after the other. -/
def allTokens : List Selector → List Token
  | [] => []
  | s :: rest => s.tokens ++ allTokens rest

theorem grouped_tokens (s : Selector) : Grouped false s.tokens := by
  cases s with
  | member f => exact .plain rfl (.plain rfl .nil)
  | index e => exact .group (by decide) e.grouped_tokens.inside .nil

theorem grouped_allTokens (selectors : List Selector) : Grouped false (allTokens selectors) := by
  induction selectors with
  | nil => exact .nil
  | cons s rest ih => exact s.grouped_tokens.append ih

/-- What stands behind a name, up to something that is neither a name nor a number. -/
theorem legible_allTokens (selectors : List Selector) {rest : List Token} (h : AlwaysLegible rest)
    (apart : rest.head?.all (fun u => u.kind != .identifier && u.kind != .number) = true) :
    AlwaysLegible (allTokens selectors ++ rest) ∧
      (allTokens selectors ++ rest).head?.all (fun u => u.kind != .identifier && u.kind != .number) = true := by
  induction selectors with
  | nil => exact ⟨h, apart⟩
  | cons s later ih =>
    rw [allTokens, List.append_assoc]
    cases s with
    | member f => exact ⟨ih.1.member f.isName ih.2, rfl⟩
    | index e =>
      have inside : AlwaysLegible (e.tokens ++ Token.mark "]" :: (allTokens later ++ rest)) := e.legible.before_mark ih.1 "]" rfl
      exact ⟨by simpa [tokens] using inside.mark "[" rfl, rfl⟩

end Selector

namespace Designator

def tokens (p : Designator) : List Token := .word p.head.text :: Selector.allTokens p.selectors

theorem grouped_tokens (p : Designator) : Grouped false p.tokens := .plain rfl (Selector.grouped_allTokens p.selectors)

theorem legible (p : Designator) {rest : List Token} (h : AlwaysLegible rest)
    (apart : rest.head?.all (fun u => u.kind != .identifier && u.kind != .number) = true) :
    AlwaysLegible (p.tokens ++ rest) := by
  obtain ⟨behind, apart⟩ := Selector.legible_allTokens p.selectors h apart
  exact behind.word p.head.text p.head.isName apart

end Designator

/-! ### What is written -/

/-- What is written for a member of a global object that is not called, if it stands for something in Lua. -/
def globalText? (object member : String) : Option String :=
  if object = "Math" ∧ member = "round" then some "function(x) return math.floor(x + 0.5) end"
  else Rules.plainGlobal? object member

/-- The members of global objects that have a meaning in calls only. -/
def calledGlobals : List (String × String) :=
  [("Object", "keys"), ("Object", "values"), ("Object", "entries"), ("Array", "from"), ("Array", "isArray")]

namespace Selector

/-- What has been written once a member or an index is written, given the token and the text in front of it. Behind a
word that an operand has to follow a square bracket opens a table. -/
def write (front : Token) (out : Buffer) : Selector → Buffer
  | member f => if f.text = "length" then wrapOperand out true Expr.lengthText else out ++ ["." ++ f.text]
  | index e =>
    if Cursor.endsTarget front then out ++ (["["] ++ e.written ++ ["]"])
    else e.writtenOn (out ++ ["\x7b"]) ++ ["\x7d"]

/-- The same for members and indices one after the other. -/
def writeAll : Token → Buffer → List Selector → Buffer
  | _, out, [] => out
  | front, out, s :: rest => writeAll s.last (s.write front out) rest

end Selector

namespace Designator

/-- The entries of a designator. -/
def written (p : Designator) : Buffer := match p.selectors with
  | .member f :: rest =>
    match globalText? p.head.text f.text with
    | some lua => Selector.writeAll (.word f.text) [lua] rest
    | none => Selector.writeAll (.word p.head.text) [p.head.lua] p.selectors
  | _ => Selector.writeAll (.word p.head.text) [p.head.lua] p.selectors

/-- Does a designator start with a member that has a meaning in calls only? -/
def isCalledGlobal (p : Designator) : Bool := match p.selectors with
  | .member f :: _ => calledGlobals.contains (p.head.text, f.text)
  | _ => false

end Designator

/-! ### Members and indices -/

/-- Neither trivia nor the arguments of a call come next. -/
def Uncalled (ts : List Token) : Prop := (ts.headD .eof).isTrivia = false ∧ (ts.headD .eof).isPunct ["("] = false

namespace Uncalled

variable {ts : List Token}

theorem following (h : Uncalled ts) : (following ts).isPunct ["("] = false := by
  cases ts with
  | nil => rfl
  | cons t ts =>
    have solid : t.isTrivia = false := h.1
    rw [following_cons ts solid]
    exact h.2

theorem noTrivia (h : Uncalled ts) : ts.head?.all (!·.isTrivia) = true := by
  cases ts with
  | nil => rfl
  | cons t ts => simpa using h.1

theorem noSpace (h : Uncalled ts) : ts.head?.all (fun t => !(t.kind == .space)) = true := by
  cases ts with
  | nil => rfl
  | cons t ts =>
    have solid : t.isTrivia = false := h.1
    simp only [List.head?_cons, Option.all_some, Bool.not_eq_true', beq_eq_false_iff_ne]
    rintro space
    simp [isTrivia, space] at solid

end Uncalled

namespace Rules

variable {r : Rules} {before rest : List Token} {out : Buffer} {loops : LoopState}

/-- A member other than the length that is not called is written as it is, the size too where no map is known. -/
theorem leads_member {name : String} (other : name ≠ "length") (noCall : (following rest).isPunct ["("] = false) :
    Leads r.unit ⟨before, .sign "." :: .word name :: rest, out, loops⟩ (.result (.ok ()))
      ⟨.word name :: .sign "." :: before, rest, out ++ ["." ++ name], loops⟩ := by
  have noMap : ∀ s, Leads afterMapName s (.result (.ok false)) s := by
    intro s d start journal fresh
    refine ⟨start, journal, ?_⟩
    have looked : afterMapName (d.put s start journal) = (.ok (d.mapNames.contains s.out.lastWritten), d.put s start journal) := rfl
    rw [looked, fresh]
    rfl
  have member : Leads r.member ⟨.sign "." :: before, .word name :: rest, out, loops⟩ (.result (.ok ()))
      ⟨.word name :: .sign "." :: before, rest, out ++ ["." ++ name], loops⟩ := by
    refine (Takes.skipTrivia [] rfl rfl).leads.seq (Takes.cursor.leads.seq ?_)
    change Leads (if !true then _ else if name == "length" then _ else afterMapName >>= fun found =>
      if name == "size" && found then _ else r.memberCall name ((following rest).isPunct ["("])) _ _ _
    rw [if_neg (by simp), if_neg (by simp [other])]
    refine (noMap _).seq ?_
    rw [Bool.and_false, if_neg (by simp), memberCall, noCall]
    exact ((Takes.skip_one _).bind (.emit _)).leads
  have point : Takes (skip 1) ⟨before, .sign "." :: .word name :: rest, out, loops⟩ ()
      ⟨.sign "." :: before, .word name :: rest, out, loops⟩ := .skip_one _
  exact Takes.cursor.leads.seq (Takes.cursor.leads.seq (Takes.cursor.leads.seq (point.leads.seq member)))

end Rules

namespace Selector

variable {d : Nat} {stops : Cursor → Bool}

/-- The depth of the rules that a member or an index needs. -/
def depth : Selector → Nat
  | member _ => 1
  | index e => e.depth + 1

theorem exists_last (s : Selector) (before : List Token) :
    ∃ older, s.tokens.reverse ++ before = s.last :: older ∧ s.last.isTrivia = false := by
  cases s with
  | member f => exact ⟨_, rfl, rfl⟩
  | index e => exact ⟨e.tokens.reverse ++ Token.mark "[" :: before, by simp [tokens, last], rfl⟩

/-- Members and indices are taken as they are described. -/
theorem passes (s : Selector) (enough : s.depth ≤ d + 1) (calm : Calm stops) {front : Token} (solid : front.isTrivia = false)
    (before : List Token) {rest : List Token} (noCall : (following rest).isPunct ["("] = false) (out : Buffer)
    (loops : LoopState) :
    Passes (Rules.within (d + 1)) stops 0 ⟨front :: before, s.tokens ++ rest, out, loops⟩ 0
      ⟨s.tokens.reverse ++ front :: before, rest, s.write front out, loops⟩ := by
  cases s with
  | member f =>
    by_cases length : f.text = "length"
    · have taken : out.takeOperand true = ((out.takeOperand true).1, (out.takeOperand true).2) := rfl
      have walk : Walk (Rules.within (d + 1)) stops 0 ⟨front :: before, .sign "." :: .word "length" :: rest, out, loops⟩ 0 _ :=
        reads_length taken (d + 1) stops 0 _ loops (by omega) calm (Int.le_refl 0)
      simpa [tokens, write, length, wrapOperand] using Passes.of_walk walk
    · rw [write, if_neg length]
      exact .step [.sign ".", .word f.text] (Rules.leads_member length noCall) rfl (by simp) rfl (fun _ => calm _ _ _ rfl)
  | index e =>
    have enough : e.depth ≤ d := Nat.le_of_add_le_add_right enough
    have behind : Cursor.operandIn false (front :: before) = Cursor.endsTarget front := by simp [Cursor.operandIn, solid]
    rw [write]
    split_ifs with target
    · have walk : Walk (Rules.within (d + 1)) stops 0
          ⟨front :: before, .mark "[" :: (e.tokens ++ Token.mark "]" :: rest), out, loops⟩ 0 _ :=
        .group (by decide) calm (Int.le_refl 0) (Rules.takes_index (behind.trans target))
          (reads_inIndex e.runs (d + 1) stops 1 _ loops (Nat.le_succ_of_le enough) calm (Int.le_refl 1))
      simpa [tokens] using Passes.of_walk walk
    · have inside := e.reads_whole (by decide : Terminal (.mark "]")) rest (out ++ ["\x7b"]) d _ 0 (.mark "[" :: front :: before)
        loops enough calm_atBracket (Int.le_refl 0)
      have free : Cursor.operandIn false (front :: before) = false := behind.trans (Bool.eq_false_iff.mpr target)
      have table := Rules.takes_table free inside
      have flat : bracketDepth (.mark "[" :: (e.tokens ++ [Token.mark "]"])) = 0 := (index e).grouped_tokens.bracketDepth_eq
      have walk : Walk (Rules.within (d + 1)) stops 0
          ⟨front :: before, .mark "[" :: (e.tokens ++ Token.mark "]" :: rest), out, loops⟩ 0 _ :=
        .unit (.mark "[" :: (e.tokens ++ [Token.mark "]"])) table (by simp) (by simp) rfl (fun _ => calm _ _ _ rfl) (by rw [flat]; rfl)
      simpa [tokens] using Passes.of_walk walk

theorem uncalled_allTokens (selectors : List Selector) {rest : List Token} (h : Uncalled rest) :
    Uncalled (allTokens selectors ++ rest) := by
  rcases selectors with _ | ⟨_ | _, _⟩
  · exact h
  · exact ⟨rfl, rfl⟩
  · exact ⟨rfl, rfl⟩

theorem passes_all (selectors : List Selector) (enough : ∀ s ∈ selectors, s.depth ≤ d + 1) (calm : Calm stops) {front : Token}
    (solid : front.isTrivia = false) (before : List Token) {rest : List Token} (uncalled : Uncalled rest) (out : Buffer) (loops : LoopState) :
    Passes (Rules.within (d + 1)) stops 0 ⟨front :: before, allTokens selectors ++ rest, out, loops⟩ 0
      ⟨(allTokens selectors).reverse ++ front :: before, rest, writeAll front out selectors, loops⟩ := by
  induction selectors generalizing front before out with
  | nil => exact .refl
  | cons s later ih =>
    obtain ⟨first, enough⟩ := List.forall_mem_cons.mp enough
    have one := s.passes first calm solid before (uncalled_allTokens later uncalled).following out loops
    obtain ⟨older, back, solid'⟩ := s.exists_last (front :: before)
    rw [back] at one
    simpa [allTokens, writeAll, ← back] using one.trans (ih enough solid' older (s.write front out))

end Selector

/-! ### The name and what it is taken with -/

namespace Rules

variable {r : Rules} {object member : String} {before rest : List Token} {out : Buffer} {loops : LoopState}

/-- A name and a member are taken together, where there is a rule for both. -/
theorem leads_global {rule : Edit Unit} (noConstant : constant? object = none) (plain : object ∉ prefixNames)
    (found : r.global? object member = some rule) :
    Leads r.unit ⟨before, .word object :: .sign "." :: .word member :: rest, out, loops⟩ rule
      ⟨.word member :: .sign "." :: .word object :: before, rest, out, loops⟩ := by
  have noArrow : (following (.sign "." :: .word member :: rest)).isOperator ["=>"] = false := rfl
  have passed : Takes (skip 3) ⟨before, .word object :: .sign "." :: .word member :: rest, out, loops⟩ ()
      ⟨.word member :: .sign "." :: .word object :: before, rest, out, loops⟩ :=
    .skip [.word object, .sign ".", .word member]
  refine Takes.cursor.leads.seq (Takes.cursor.leads.seq ?_)
  simp only [Spot.cursor, arrow?_name noArrow]
  refine Takes.cursor.leads.seq ?_
  have current : (Spot.mk before (.word object :: .sign "." :: .word member :: rest) out loops).cursor.current.text = object := rfl
  have both : (Spot.mk before (.word object :: .sign "." :: .word member :: rest) out loops).cursor.member? = some (member, 2) := rfl
  simp only [prefixNames, List.mem_cons, List.not_mem_nil, or_false, not_or] at plain
  simp only [current, noConstant, both, Option.bind_some, found, Option.map_some]
  split
  · rename_i impossible
    cases impossible
  · exact absurd rfl plain.1
  · exact absurd rfl plain.2.1
  · exact absurd rfl plain.2.2
  · exact passed.leads.seq .refl

/-- A member that stands for something in Lua is written as that. -/
theorem leads_globalText {lua : String} (found : globalText? object member = some lua) (uncalled : Uncalled rest) :
    Leads r.unit ⟨before, .word object :: .sign "." :: .word member :: rest, out, loops⟩ (.result (.ok ()))
      ⟨.word member :: .sign "." :: .word object :: before, rest, out ++ [lua], loops⟩ := by
  rw [globalText?] at found
  split_ifs at found with round
  · obtain ⟨rfl, rfl⟩ := round
    cases found
    refine (leads_global (by decide) (by decide) rfl).trans ?_
    have space : Takes skipSpace ⟨.word "round" :: .sign "." :: .word "Math" :: before, rest, out, loops⟩ ()
        ⟨.word "round" :: .sign "." :: .word "Math" :: before, rest, out, loops⟩ := .skipSpace [] uncalled.noSpace rfl
    have noCall : (Spot.mk (.word "round" :: .sign "." :: .word "Math" :: before) rest out loops).cursor.atPunct ["("] = false :=
      uncalled.2
    refine space.leads.seq (Takes.cursor.leads.seq ?_)
    rw [noCall]
    exact (Takes.emit _).leads
  · have rule : r.global? object member = some (emit lua) := by
      unfold global?
      split
      · exact absurd ⟨rfl, rfl⟩ round
      iterate 5 cases found
      rw [found, Option.map_some]
    have objects : object ∈ ["Math", "console", "JSON"] := by
      unfold plainGlobal? at found
      split at found
      · decide
      · decide
      · decide
      · cases found
    have plain : ∀ object ∈ ["Math", "console", "JSON"], constant? object = none ∧ object ∉ prefixNames := by decide
    obtain ⟨noConstant, plain⟩ := plain object objects
    exact (leads_global noConstant plain rule).trans (Takes.emit lua).leads

/-- Any other member is not taken with the object, unless it has a meaning in calls. -/
theorem global?_eq_none (unknown : globalText? object member = none) (uncalled : (object, member) ∉ calledGlobals) :
    r.global? object member = none := by
  have round : ¬(object = "Math" ∧ member = "round") := by
    intro same
    simp [globalText?, if_pos same] at unknown
  rw [globalText?, if_neg round] at unknown
  unfold global?
  split
  · exact absurd ⟨rfl, rfl⟩ round
  iterate 5 exact absurd (by decide) uncalled
  rw [unknown, Option.map_none]

/-- Such a member has to be called: where it is not, the run stops. -/
theorem leads_calledGlobal (called : (object, member) ∈ calledGlobals) (uncalled : Uncalled rest) :
    Leads r.unit ⟨before, .word object :: .sign "." :: .word member :: rest, out, loops⟩
      (.result (.error (.expected "(" ⟨.word member :: .sign "." :: .word object :: before, rest, 0⟩)))
      ⟨.word member :: .sign "." :: .word object :: before, rest, out, loops⟩ := by
  have argument : ∀ before, Leads r.laterArgument ⟨before, rest, out, loops⟩
      (.result (.error (.expected "(" ⟨before, rest, 0⟩))) ⟨before, rest, out, loops⟩ := by
    intro before
    have missing : Leads arguments ⟨before, rest, out, loops⟩ (.result (.error (.expected "(" ⟨before, rest, 0⟩)))
        ⟨before, rest, out, loops⟩ := by
      intro d start journal _
      refine ⟨start, journal, ?_⟩
      have elsewhere : ¬(Cursor.mk before rest 0).atPunct ["("] = true := Bool.eq_false_iff.mp uncalled.2
      have expected : (Cursor.mk before rest 0).group "(" ")" = (.error (.expected "(" ⟨before, rest, 0⟩), ⟨before, rest, 0⟩) := by
        rw [Cursor.group, if_neg elsewhere]
      simp only [arguments, Edit.group, Desk.put, Spot.cursor, expected]
      rfl
    exact (Takes.skipTrivia [] uncalled.noTrivia rfl).leads.seq missing.stop
  simp only [calledGlobals, List.mem_cons, Prod.mk.injEq, List.not_mem_nil, or_false] at called
  rcases called with ⟨rfl, rfl⟩ | ⟨rfl, rfl⟩ | ⟨rfl, rfl⟩ | ⟨rfl, rfl⟩ | ⟨rfl, rfl⟩
  all_goals exact (leads_global (by decide) (by decide) rfl).trans (argument _).stop

end Rules

/-! ### Designators -/

namespace Designator

variable {d : Nat} {stops : Cursor → Bool} {rest : List Token}

/-- The rules write the entries of a designator, whatever follows it. -/
theorem passes (p : Designator) (known : p.isCalledGlobal = false) (enough : ∀ s ∈ p.selectors, s.depth ≤ d + 1)
    (calm : Calm stops) (uncalled : Uncalled rest) (ends : (following rest).isOperator ["=>", "."] = false)
    (loops : LoopState) :
    Passes (Rules.within (d + 1)) stops 0 ⟨[], p.tokens ++ rest, [], loops⟩ 0 ⟨p.tokens.reverse, rest, p.written, loops⟩ := by
  obtain ⟨x, selectors⟩ := p
  have noCall := (Selector.uncalled_allTokens selectors uncalled).following
  have alone (taken : Takes (Rules.within d).unit ⟨[], .word x.text :: (Selector.allTokens selectors ++ rest), [], loops⟩ ()
      ⟨[.word x.text], Selector.allTokens selectors ++ rest, [x.lua], loops⟩) :
      Passes (Rules.within (d + 1)) stops 0 ⟨[], .word x.text :: (Selector.allTokens selectors ++ rest), [], loops⟩ 0
        ⟨(Selector.allTokens selectors).reverse ++ [.word x.text], rest,
          Selector.writeAll (.word x.text) [x.lua] selectors, loops⟩ :=
    (Passes.of_walk (.single taken rfl rfl (calm _ _ _ rfl))).trans
      (Selector.passes_all selectors enough calm rfl [] uncalled [x.lua] loops)
  cases selectors with
  | nil => exact alone (x.takes_unit ends noCall)
  | cons s later =>
    cases s with
    | index e => simpa [tokens, written] using alone (x.takes_unit rfl noCall)
    | member f =>
      cases found : globalText? x.text f.text with
      | none =>
        have own : (Rules.within d).global? x.text f.text = none :=
          Rules.global?_eq_none found (by simpa [isCalledGlobal] using known)
        have next : (Cursor.mk [] (.word x.text :: (Selector.allTokens (.member f :: later) ++ rest)) 0).member? = some (f.text, 2) := rfl
        have walk := alone (x.takes_own rfl noCall (by simp only [Name.token, next, Option.all_some, own, Option.isNone_none]))
        simpa [tokens, written, found] using walk
      | some lua =>
        obtain ⟨-, enough⟩ := List.forall_mem_cons.mp enough
        have start : Passes (Rules.within (d + 1)) stops 0
            ⟨[], .word x.text :: .sign "." :: .word f.text :: (Selector.allTokens later ++ rest), [], loops⟩ 0
            ⟨[.word f.text, .sign ".", .word x.text], Selector.allTokens later ++ rest, [lua], loops⟩ :=
          .step [.word x.text, .sign ".", .word f.text]
            (Rules.leads_globalText found (Selector.uncalled_allTokens later uncalled)) rfl (by simp) rfl (fun _ => calm _ _ _ rfl)
        have walk := start.trans (Selector.passes_all later enough calm rfl _ uncalled [lua] loops)
        simpa [tokens, Selector.allTokens, Selector.tokens, written, found] using walk

/-- A designator that has to be called stops the run in its first line. -/
theorem halts (p : Designator) (known : p.isCalledGlobal = true) (calm : Calm stops) (uncalled : Uncalled rest)
    (loops : LoopState) :
    ∃ fault s', fault.message = "expected '(' (line 1)" ∧ s'.loops = loops ∧
      Leads ((Rules.within (d + 1)).units stops) ⟨[], p.tokens ++ rest, [], loops⟩ (.result (.error fault)) s' := by
  obtain ⟨x, selectors⟩ := p
  rcases selectors with _ | ⟨f | e, later⟩
  · cases known
  · have called : (x.text, f.text) ∈ calledGlobals := by simpa [isCalledGlobal] using known
    have unit : Leads (Rules.within d).unit
        ⟨[], .word x.text :: .sign "." :: .word f.text :: (Selector.allTokens later ++ rest), [], loops⟩ _ _ :=
      Rules.leads_calledGlobal called (Selector.uncalled_allTokens later uncalled)
    refine ⟨.expected "(" ⟨[.word f.text, .sign ".", .word x.text], Selector.allTokens later ++ rest, 0⟩,
      ⟨[.word f.text, .sign ".", .word x.text], Selector.allTokens later ++ rest, [], loops⟩, ?_, rfl,
      .units_stop unit rfl (calm _ _ _ rfl)⟩
    have firstLine : ∀ g ∈ calledGlobals, Cursor.lineAfter [.word g.2, .sign ".", .word g.1] = 1 := by decide
    simp only [Fault.message, Fault.line?, Fault.place?, Option.map_some, Cursor.line, firstLine _ called]
    rfl
  · cases known

end Designator

/-! ### The text of a designator -/

/-- The text of some entries has no white space around it. -/
def Buffer.IsSolid (out : Buffer) : Prop := out.head?.any startsSolid = true ∧ out.getLast?.any endsSolid = true

theorem Buffer.head_append {out : Buffer} (h : out.head?.any startsSolid = true) (es : Buffer) :
    (out ++ es).head?.any startsSolid = true := by
  cases out with
  | nil => cases h
  | cons e out => exact h

theorem Buffer.IsSolid.concat {out : Buffer} {e : String} (starts : (out ++ [e]).head?.any startsSolid = true)
    (ends : endsSolid e = true) : IsSolid (out ++ [e]) :=
  ⟨starts, by rwa [List.getLast?_concat, Option.any_some]⟩

/-- Taking an operand back leaves the beginning of a text, or nothing in front of the form written around the operand. -/
theorem Buffer.head_wrapOperand {out : Buffer} (h : out.head?.any startsSolid = true) {form : String → String}
    (starts : ∀ operand, startsSolid (form operand) = true) (operatorsEnd : Bool) :
    (wrapOperand out operatorsEnd form).head?.any startsSolid = true := by
  obtain ⟨trail, -, split⟩ := out.operandEntries_split operatorsEnd
  rw [wrapOperand, takeOperand_eq]
  cases left : (out.operandEntries operatorsEnd).2.reverse with
  | nil => exact starts _
  | cons e es =>
    rw [left] at split
    rw [split] at h
    exact h

namespace Expr

theorem isSolid_lengthText (operand : String) :
    startsSolid (lengthText operand) = true ∧ endsSolid (lengthText operand) = true := by
  rw [lengthText]
  split_ifs with simple
  · have solid := solid_of_isSimpleOperand simple
    exact ⟨startsSolid_append (by decide) _, endsSolid_of_solid (by simp) fun c hc => (solid c hc).1⟩
  · exact ⟨startsSolid_append (startsSolid_append (by decide) _) _, endsSolid_append _ (by decide)⟩

theorem head_writtenOn {cat : Category} (e : Expr cat) {out : Buffer} (h : out.head?.any startsSolid = true) :
    (e.writtenOn out).head?.any startsSolid = true := by
  induction e with
  | plain e ih | operand p ih => exact ih
  | choice test yes no ih =>
    refine head_wrapOperand (head_append ih _) (fun operand => ?_) _
    iterate 6 refine startsSolid_append ?_ _
    decide
  | length p ih => exact head_wrapOperand ih (fun operand => (isSolid_lengthText operand).1) _
  | toText p ih => exact head_wrapOperand ih (fun operand => startsSolid_append (startsSolid_append (by decide) _) _) _
  | unaryCall p m e ih =>
    refine head_wrapOperand ih (fun operand => ?_) _
    rw [m.lua_eq]
    refine startsSolid_append (startsSolid_append ?_ _) _
    cases m <;> decide
  | binary sign left right ih => simpa only [writtenOn, List.append_assoc] using head_append ih _
  | field p f ih | index p e ih | call p args ih => exact head_append ih _
  | link p m args ih => exact head_append (head_append ih _) _
  | number | negation | name | parens | value | arrow | last | more | noArguments | someArguments => exact head_append h _

end Expr

namespace Selector

theorem isSolid_write (s : Selector) (front : Token) {out : Buffer} (h : out.IsSolid) : (s.write front out).IsSolid := by
  cases s with
  | member f =>
    rw [write]
    split_ifs
    · exact .concat (head_wrapOperand h.1 (fun operand => (Expr.isSolid_lengthText operand).1) _) (Expr.isSolid_lengthText _).2
    · obtain ⟨nonempty, solid⟩ := solid_of_isNameText f.isName
      exact .concat (head_append h.1 _) (endsSolid_append _ (endsSolid_of_solid nonempty solid))
  | index e =>
    rw [write]
    split_ifs
    · rw [← List.append_assoc]
      exact .concat (head_append (head_append h.1 _) _) (by decide)
    · exact .concat (head_append (e.head_writtenOn (head_append h.1 _)) _) (by decide)

theorem isSolid_writeAll (selectors : List Selector) (front : Token) {out : Buffer} (h : out.IsSolid) :
    (writeAll front out selectors).IsSolid := by
  induction selectors generalizing front out with
  | nil => exact h
  | cons s later ih => exact ih s.last (s.isSolid_write front h)

end Selector

theorem isSolid_globalText {object member lua : String} (found : globalText? object member = some lua) :
    startsSolid lua = true ∧ endsSolid lua = true := by
  rw [globalText?] at found
  split_ifs at found
  · rw [← Option.some.inj found]
    decide
  · unfold Rules.plainGlobal? at found
    split at found
    · split_ifs at found with known
      · have ends : ∀ name ∈ Rules.mathFunctions, endsSolid name = true := by decide
        rw [← Option.some.inj found]
        exact ⟨startsSolid_append (by decide) _, endsSolid_append _ (ends member (by simpa using known))⟩
      · rw [← Option.some.inj found]
        decide
    · split_ifs at found
      rw [← Option.some.inj found]
      decide
    · split at found
      · rw [← Option.some.inj found]
        decide
      · rw [← Option.some.inj found]
        decide
      · cases found
    · cases found

namespace Designator

theorem isSolid_written (p : Designator) : p.written.IsSolid := by
  have single : ∀ {e}, startsSolid e = true ∧ endsSolid e = true → IsSolid [e] := by
    intro e solid
    rwa [IsSolid, List.head?_singleton, List.getLast?_singleton, Option.any_some, Option.any_some]
  have name : IsSolid [p.head.lua] := single
    ⟨startsSolid_of_solid p.head.lua_ne_empty p.head.lua_solid, endsSolid_of_solid p.head.lua_ne_empty p.head.lua_solid⟩
  unfold written
  split
  · split
    · rename_i found
      exact Selector.isSolid_writeAll _ _ (single (isSolid_globalText found))
    · exact Selector.isSolid_writeAll _ _ name
  · exact Selector.isSolid_writeAll _ _ name

/-- The translation of a designator. -/
def lua (p : Designator) : String := text p.written

theorem strip_lua (p : Designator) : strip p.lua = p.lua :=
  strip_of_solid (startsSolid_text p.isSolid_written.1) (endsSolid_text p.isSolid_written.2)

end Designator

end NoteScript

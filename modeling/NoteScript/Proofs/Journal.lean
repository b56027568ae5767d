import Mathlib.Tactic.Common
import NoteScript.Edit

/-!
# Journals of loops and jumps

`Trace` is the grammar of the journals that a run can write. A loop is entered, left, labelled if it was
jumped to, and closed; a jump goes to the innermost loop of the function it stands in. Whatever holds of
a journal is shown here by induction on its trace:

* `Trace.label_cases`: a trace speaks of its target and of the labels handed out in its course.
* `Trace.loopRecord`: all that a trace says of one label, in order. A loop is entered once, and its label
  is written once, behind the jumps and before the loop is closed, exactly if there are any.
* `Trace.balanced`: scopes are entered and left as brackets are, each jump has its loop innermost, and a
  jump is turned down only where no loop is.
-/

namespace NoteScript

open Edit

/-! ### Labels -/

/-- Loops with different numbers have different labels. -/
theorem loopLabel_inj {m n : Nat} : loopLabel m = loopLabel n ↔ m = n := by
  constructor
  · intro same
    have digits : Nat.toDigits 10 m = Nat.toDigits 10 n := by
      simpa [loopLabel] using congrArg String.toList same
    have value := congrArg (Nat.ofDigitChars 10 · 0) digits
    simpa only [Nat.ofDigitChars_ten_toDigits] using value
  · rintro rfl
    rfl

namespace Event

/-- The label that an event is about. -/
def label? : Event → Option String
  | .entered (.loop label) | .left (.loop label) => some label
  | .jumped label | .labelled label | .closed label => some label
  | .entered .function | .left .function | .refused => none

/-- What a loop adds to the journal behind its body. -/
def labelling (jumped : Bool) (label : String) : List Event := if jumped then [.labelled label] else []

theorem eq_of_mem_labelling {jumped : Bool} {label : String} {e : Event}
    (h : e ∈ labelling jumped label) : e = .labelled label := by
  unfold labelling at h
  split_ifs at h
  · exact List.mem_singleton.mp h
  · cases h

end Event

/-- None of the events is about a label. -/
def Silent (label : String) (events : List Event) : Prop := ∀ e ∈ events, e.label? ≠ some label

theorem silent_append {label : String} {first second : List Event} :
    Silent label (first ++ second) ↔ Silent label first ∧ Silent label second :=
  List.forall_mem_append

theorem silent_labelling {label other : String} (jumped : Bool) (h : other ≠ label) :
    Silent label (Event.labelling jumped other) := by
  intro e he
  rw [Event.eq_of_mem_labelling he]
  exact fun same => h (Option.some.inj same)

/-! ### Traces -/

/-- `Trace target n events m jumped`: the events that can follow when `target` is the innermost loop and
`n` labels have been handed out; then `m` labels have been handed out, and `jumped` says whether there
was a jump to `target` itself. -/
inductive Trace : Option String → Nat → List Event → Nat → Bool → Prop where
  | nil {target : Option String} {n : Nat} : Trace target n [] n false
  | jump {label : String} {n : Nat} : Trace (some label) n [.jumped label] n true
  | refusal {n : Nat} : Trace none n [.refused] n false
  | function {target : Option String} {n m : Nat} {inside : List Event} {jumped : Bool} :
      Trace none n inside m jumped →
      Trace target n ([.entered .function] ++ inside ++ [.left .function]) m false
  | loop {target : Option String} {n m k : Nat} {inside behind : List Event} {continued jumped : Bool} :
      Trace (some (loopLabel (n + 1))) (n + 1) inside m continued →
      Trace target m behind k jumped →
      Trace target n ([.entered (.loop (loopLabel (n + 1)))] ++ inside ++
        [.left (.loop (loopLabel (n + 1)))] ++ Event.labelling continued (loopLabel (n + 1)) ++ behind ++
        [.closed (loopLabel (n + 1))]) k jumped
  | append {target : Option String} {n m k : Nat} {first second : List Event} {jumped again : Bool} :
      Trace target n first m jumped → Trace target m second k again →
      Trace target n (first ++ second) k (jumped || again)

/-- All that a journal says of a label: its loop is entered and left, with the jumps in between, then the
label is written if there are jumps, then the loop is closed. -/
def LoopRecord (label : String) (events : List Event) : Prop := ∃ before inside behind after,
    events = before ++ [.entered (.loop label)] ++ inside ++ [.left (.loop label)] ++
      Event.labelling (decide (.jumped label ∈ inside)) label ++ behind ++ [.closed label] ++ after ∧
    (∀ e ∈ inside, e.label? = some label → e = .jumped label) ∧
    Silent label (before ++ behind ++ after)

/-- A record goes on holding when events of other labels stand around it. -/
theorem LoopRecord.extend {label : String} {events first last : List Event} (h : LoopRecord label events)
    (ahead : Silent label first) (behind : Silent label last) :
    LoopRecord label (first ++ events ++ last) := by
  obtain ⟨before, inside, between, after, rfl, jumps, others⟩ := h
  refine ⟨first ++ before, inside, between, after ++ last, ?_, jumps, ?_⟩
  · simp only [List.append_assoc]
  · simp only [silent_append] at others ⊢
    exact ⟨⟨⟨ahead, others.1.1⟩, others.1.2⟩, others.2, behind⟩

namespace Trace

variable {target : Option String} {n m : Nat} {events : List Event} {jumped : Bool}

section

variable (h : Trace target n events m jumped)
include h

/-- Labels are only handed out. -/
theorem le : n ≤ m := by
  induction h <;> omega

/-- A trace speaks of the labels handed out in its course, and of its target only by jumps to it. -/
theorem label_cases {e : Event} (he : e ∈ events) {label : String} (about : e.label? = some label) :
    e = .jumped label ∧ target = some label ∨ ∃ i, n < i ∧ i ≤ m ∧ label = loopLabel i := by
  induction h with
  | nil => cases he
  | jump =>
    rw [List.mem_singleton] at he
    subst he
    cases about
    exact .inl ⟨rfl, rfl⟩
  | refusal =>
    rw [List.mem_singleton] at he
    subst he
    cases about
  | function inner ih =>
    simp only [List.mem_append, List.mem_singleton] at he
    rcases he with (rfl | he) | rfl
    · cases about
    · rcases ih he with ⟨_, none⟩ | handed
      · cases none
      · exact .inr handed
    · cases about
  | @loop target n m k inside behind continued jumped inner outer ih ih' =>
    have up := inner.le
    have up' := outer.le
    have own : ∀ {label'}, loopLabel (n + 1) = label' → ∃ i, n < i ∧ i ≤ k ∧ label' = loopLabel i :=
      fun same => ⟨n + 1, by omega, by omega, same.symm⟩
    simp only [List.mem_append, List.mem_singleton] at he
    rcases he with ((((rfl | he) | rfl) | he) | he) | rfl
    · exact .inr (own (Option.some.inj about))
    · rcases ih he with ⟨_, same⟩ | ⟨i, lower, upper, same⟩
      · exact .inr (own (Option.some.inj same))
      · exact .inr ⟨i, by omega, by omega, same⟩
    · exact .inr (own (Option.some.inj about))
    · rw [Event.eq_of_mem_labelling he] at about
      exact .inr (own (Option.some.inj about))
    · rcases ih' he with jump | ⟨i, lower, upper, same⟩
      · exact .inl jump
      · exact .inr ⟨i, by omega, upper, same⟩
    · exact .inr (own (Option.some.inj about))
  | append first second ih ih' =>
    have up := first.le
    have up' := second.le
    rcases List.mem_append.mp he with he | he
    · rcases ih he with jump | ⟨i, lower, upper, same⟩
      · exact .inl jump
      · exact .inr ⟨i, lower, by omega, same⟩
    · rcases ih' he with jump | ⟨i, lower, upper, same⟩
      · exact .inl jump
      · exact .inr ⟨i, by omega, upper, same⟩

/-- A label that a trace does not jump to was handed out in its course, if the trace speaks of it. -/
theorem label_handed {e : Event} (he : e ∈ events) {label : String} (about : e.label? = some label) (other : target ≠ some label) :
    ∃ i, n < i ∧ i ≤ m ∧ label = loopLabel i := by
  rcases h.label_cases he about with ⟨_, same⟩ | handed
  · exact absurd same other
  · exact handed

/-- A trace says nothing of a label that was handed out before or will be handed out after it. -/
theorem silent {i : Nat} (outside : i ≤ n ∨ m < i) (other : target ≠ some (loopLabel i)) : Silent (loopLabel i) events := by
  intro e he about
  obtain ⟨j, lower, upper, same⟩ := h.label_handed he about other
  have := loopLabel_inj.mp same
  omega

/-- The flag of a trace says whether there is a jump to the target, if that was entered before. -/
theorem jumped_iff {i : Nat} (old : i ≤ n)
    (own : target = some (loopLabel i)) : jumped = true ↔ .jumped (loopLabel i) ∈ events := by
  induction h with
  | nil => simp
  | jump =>
    cases own
    simp
  | refusal => cases own
  | function inner ih =>
    have other := inner.silent (.inl old) (by simp)
    simp only [List.mem_append, List.mem_singleton, reduceCtorEq, false_iff, false_or, or_false]
    exact fun he => other _ he rfl
  | @loop target n m k inside behind continued jumped inner outer ih ih' =>
    have up := inner.le
    have new : loopLabel (n + 1) ≠ loopLabel i := by
      rw [Ne, loopLabel_inj]
      omega
    have other := inner.silent (i := i) (.inl (by omega)) (by simpa using new)
    rw [ih' (by omega) own]
    simp only [List.mem_append, List.mem_singleton, reduceCtorEq, false_or, or_false]
    constructor
    · exact .inr
    · rintro ((he | he) | he)
      · exact absurd rfl (other _ he)
      · cases Event.eq_of_mem_labelling he
      · exact he
  | append first second ih ih' =>
    have up := first.le
    rw [Bool.or_eq_true, ih old own, ih' (by omega) own, List.mem_append]

/-- What the record of a label consists of is found where the label was handed out. -/
theorem loopRecord {e : Event} (he : e ∈ events) {label : String}
    (about : e.label? = some label) (other : target ≠ some label) : LoopRecord label events := by
  induction h with
  | nil => cases he
  | jump =>
    rw [List.mem_singleton] at he
    subst he
    exact absurd about other
  | refusal =>
    rw [List.mem_singleton] at he
    subst he
    cases about
  | function inner ih =>
    simp only [List.mem_append, List.mem_singleton] at he
    rcases he with (rfl | he) | rfl
    · cases about
    · exact (ih he (by simp)).extend (List.forall_mem_singleton.mpr (by simp [Event.label?]))
        (List.forall_mem_singleton.mpr (by simp [Event.label?]))
    · cases about
  | @loop target n m k inside behind continued jumped inner outer ih ih' =>
    have up := inner.le
    by_cases own : loopLabel (n + 1) = label
    · -- the loop itself: what is read inside it speaks of its label by jumps only
      subst own
      refine ⟨[], inside, behind, [], ?_, ?_, ?_⟩
      · have flag : decide (.jumped (loopLabel (n + 1)) ∈ inside) = continued := by
          rw [Bool.eq_iff_iff, decide_eq_true_iff, inner.jumped_iff (Nat.le_refl _) rfl]
        simp only [flag, List.nil_append, List.append_nil]
      · intro e he about
        rcases inner.label_cases he about with ⟨same, _⟩ | ⟨i, lower, _, same⟩
        · exact same
        · have := loopLabel_inj.mp same
          omega
      · simpa using outer.silent (.inl up) other
    · -- a loop inside it or behind it: the events of the loop itself stand around the record
      have target' : some (loopLabel (n + 1)) ≠ some label := by simpa using own
      have entered : Silent label [.entered (.loop (loopLabel (n + 1)))] := List.forall_mem_singleton.mpr target'
      have left : Silent label [.left (.loop (loopLabel (n + 1)))] := List.forall_mem_singleton.mpr target'
      have mark := silent_labelling continued own
      have closed : Silent label [.closed (loopLabel (n + 1))] := List.forall_mem_singleton.mpr target'
      simp only [List.mem_append] at he
      rcases he with ((((he | he) | he) | he) | he) | he
      · exact absurd about (entered e he)
      · obtain ⟨i, _, upper, rfl⟩ := inner.label_handed he about target'
        have rest := outer.silent (.inl upper) other
        have around := silent_append.mpr ⟨left, silent_append.mpr ⟨mark, silent_append.mpr ⟨rest, closed⟩⟩⟩
        simpa only [List.append_assoc] using (ih he target').extend entered around
      · exact absurd about (left e he)
      · exact absurd about (mark e he)
      · obtain ⟨i, lower, _, rfl⟩ := outer.label_handed he about other
        have rest := inner.silent (.inr lower) target'
        have around := silent_append.mpr ⟨entered, silent_append.mpr ⟨rest, silent_append.mpr ⟨left, mark⟩⟩⟩
        simpa only [List.append_assoc] using (ih' he other).extend around closed
      · exact absurd about (closed e he)
  | append first second ih ih' =>
    rcases List.mem_append.mp he with he | he
    · obtain ⟨i, _, upper, rfl⟩ := first.label_handed he about other
      have rest := second.silent (.inl upper) other
      simpa only [List.nil_append] using (ih he other).extend (List.forall_mem_nil _) rest
    · obtain ⟨i, lower, _, rfl⟩ := second.label_handed he about other
      have rest := first.silent (.inr lower) other
      simpa only [List.append_nil] using (ih' he other).extend rest (List.forall_mem_nil _)

end

end Trace

/-! ### What a record says -/

namespace LoopRecord

variable {label : String} {events : List Event}

/-- A loop is entered once. -/
theorem count_entered (h : LoopRecord label events) : events.count (.entered (.loop label)) = 1 := by
  obtain ⟨before, inside, behind, after, rfl, jumps, others⟩ := h
  have away {part : List Event} (silent : Silent label part) : part.count (.entered (.loop label)) = 0 :=
    List.count_eq_zero.mpr fun he => silent _ he rfl
  simp only [silent_append] at others
  have within : inside.count (.entered (.loop label)) = 0 := List.count_eq_zero.mpr fun he => by cases jumps _ he rfl
  have mark (jumped : Bool) : (Event.labelling jumped label).count (.entered (.loop label)) = 0 :=
    List.count_eq_zero.mpr fun he => by cases Event.eq_of_mem_labelling he
  simp [away others.1.1, away others.1.2, away others.2, within, mark]

/-- A jump is inside its loop, so the label is written behind it. -/
theorem of_jumped (h : LoopRecord label events) (jump : Event.jumped label ∈ events) : ∃ before inside behind after,
      events = before ++ [Event.entered (.loop label)] ++ inside ++ [Event.left (.loop label), .labelled label] ++
        behind ++ [Event.closed label] ++ after ∧
      Event.jumped label ∈ inside ∧ (∀ e ∈ inside, e.label? = some label → e = .jumped label) ∧
      Silent label (before ++ behind ++ after) := by
  obtain ⟨before, inside, behind, after, rfl, jumps, others⟩ := h
  have found : Event.jumped label ∈ inside := by
    simp only [silent_append] at others
    simp only [List.mem_append, List.mem_singleton, reduceCtorEq, or_false] at jump
    rcases jump with (((he | he) | he) | he) | he
    · exact absurd rfl (others.1.1 _ he)
    · exact he
    · cases Event.eq_of_mem_labelling he
    · exact absurd rfl (others.1.2 _ he)
    · exact absurd rfl (others.2 _ he)
  refine ⟨before, inside, behind, after, ?_, found, jumps, others⟩
  simp [found, Event.labelling]

/-- A label is written only for a jump. -/
theorem jumped_of_labelled (h : LoopRecord label events) (mark : .labelled label ∈ events) : .jumped label ∈ events := by
  obtain ⟨before, inside, behind, after, rfl, jumps, others⟩ := h
  simp only [silent_append] at others
  by_cases found : .jumped label ∈ inside
  · simp [found]
  · simp only [List.mem_append, List.mem_singleton, reduceCtorEq, or_false, Event.labelling, found,
      decide_false, Bool.false_eq_true, if_false, List.not_mem_nil] at mark
    rcases mark with ((he | he) | he) | he
    · exact absurd rfl (others.1.1 _ he)
    · cases jumps _ he rfl
    · exact absurd rfl (others.1.2 _ he)
    · exact absurd rfl (others.2 _ he)

end LoopRecord

/-! ### Scopes -/

/-- The open scopes after an event, the innermost first. -/
def Event.scopes (scopes : List Scope) : Event → List Scope
  | .entered scope => scope :: scopes
  | .left _ => scopes.tail
  | _ => scopes

/-- The open scopes after a number of events. -/
def openScopes (scopes : List Scope) (events : List Event) : List Scope := events.foldl Event.scopes scopes

/-- Can an event stand where these scopes are open? What is left is the innermost scope; a jump goes to
it, and is turned down if it is no loop. -/
def Event.Fits (scopes : List Scope) : Event → Prop
  | .left scope => scopes.head? = some scope
  | .jumped label => scopes.head? = some (.loop label)
  | .refused => ∀ label, scopes.head? ≠ some (.loop label)
  | _ => True

/-- Each event fits the scopes which are open where it stands. -/
def Fitting : List Scope → List Event → Prop
  | _, [] => True
  | scopes, e :: events => e.Fits scopes ∧ Fitting (e.scopes scopes) events

theorem fitting_append {scopes : List Scope} {first second : List Event} :
    Fitting scopes (first ++ second) ↔ Fitting scopes first ∧ Fitting (openScopes scopes first) second := by
  induction first generalizing scopes with
  | nil => simp [Fitting, openScopes]
  | cons e first ih => simp only [List.cons_append, Fitting, ih, openScopes, List.foldl_cons, and_assoc]

theorem openScopes_append {scopes : List Scope} {first second : List Event} :
    openScopes scopes (first ++ second) = openScopes (openScopes scopes first) second :=
  List.foldl_append

/-- Each event fits, and the scopes are the same in the end. -/
def Balanced (scopes : List Scope) (events : List Event) : Prop := Fitting scopes events ∧ openScopes scopes events = scopes

namespace Balanced

variable {scopes : List Scope}

theorem append {first second : List Event} (h : Balanced scopes first) (h' : Balanced scopes second) :
    Balanced scopes (first ++ second) := by
  obtain ⟨fit, same⟩ := h
  obtain ⟨fit', same'⟩ := h'
  rw [Balanced, fitting_append, openScopes_append, same]
  exact ⟨⟨fit, fit'⟩, same'⟩

/-- What fits a further scope can be enclosed by it. -/
theorem enclose {scope : Scope} {inside : List Event} (h : Balanced (scope :: scopes) inside) :
    Balanced scopes ([Event.entered scope] ++ inside ++ [Event.left scope]) := by
  obtain ⟨fit, same⟩ := h
  have entered : openScopes scopes [.entered scope] = scope :: scopes := rfl
  simp only [Balanced, fitting_append, openScopes_append, entered, same]
  exact ⟨⟨⟨⟨trivial, trivial⟩, fit⟩, rfl, trivial⟩, rfl⟩

theorem labelling (jumped : Bool) (label : String) : Balanced scopes (Event.labelling jumped label) := by
  cases jumped
  · exact ⟨trivial, rfl⟩
  · exact ⟨⟨trivial, trivial⟩, rfl⟩

theorem closed (label : String) : Balanced scopes [.closed label] := ⟨⟨trivial, trivial⟩, rfl⟩

end Balanced

/-- The innermost loop of the current function, by the open scopes. -/
def Scope.target? : List Scope → Option String
  | .loop label :: _ => some label
  | _ => none

/-- A trace fits any scopes with its target innermost, and closes what it opens. -/
theorem Trace.balanced {target : Option String} {n m : Nat} {events : List Event} {jumped : Bool}
    (h : Trace target n events m jumped) {scopes : List Scope} (inside : Scope.target? scopes = target) :
    Balanced scopes events := by
  induction h generalizing scopes with
  | nil => exact ⟨trivial, rfl⟩
  | jump =>
    rcases scopes with _ | ⟨_ | _, outer⟩ <;> cases inside
    exact ⟨⟨rfl, trivial⟩, rfl⟩
  | refusal =>
    refine ⟨⟨?_, trivial⟩, rfl⟩
    rintro label found
    rcases scopes with _ | ⟨_ | _, outer⟩ <;> cases found
    cases inside
  | function inner ih => exact .enclose (ih rfl)
  | loop inner outer ih ih' =>
    exact (((Balanced.enclose (ih rfl)).append (.labelling _ _)).append (ih' inside)).append (.closed _)
  | append first second ih ih' => exact (ih inside).append (ih' inside)

end NoteScript

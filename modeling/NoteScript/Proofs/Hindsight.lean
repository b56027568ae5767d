import NoteScript.Proofs.Keeping

/-!
# How far the rules look back

Of the tokens that are passed, a rule asks for the nearest one, for the nearest one that is no trivia, and for
the number of line feeds. So a token that is no trivia hides all that lies behind it but for the lines.

* `Pasts`: two token lists with the same number of line feeds, which two runs have passed further back.
* `Pasts.Twin`, `Pasts.TwinDesk`: two cursors, or desks, that differ in the past behind such a token only.
* `Pasts.Same a b`: from twin desks the two actions return the same, or stop with the same message, and leave
  twin desks.
* `Pasts.Unaware a`: the action is the same as itself. This is a lawful trait (`Pasts.trait`), so it holds of all rules
  (`Rules.unaware_within`).
-/

namespace NoteScript

open Edit

/-- Two token lists with the same number of line feeds. -/
structure Pasts where
  first : List Token
  second : List Token
  sameLine : Cursor.lineAfter first = Cursor.lineAfter second

/-- The message of a fault tells what is wrong and the line. -/
theorem Fault.message_congr {fault fault' : Fault} (description : fault.description = fault'.description)
    (line : fault.line? = fault'.line?) : fault.message = fault'.message := by
  simp only [message, description, line]

namespace Pasts

variable {p : Pasts} {α β : Type}

/-! ### Twin cursors -/

/-- Two cursors at the same tokens that have passed the same tokens down to their pasts, not only trivia. -/
inductive Twin (p : Pasts) : Cursor → Cursor → Prop where
  | intro (near rest : List Token) (overrun : Nat) : Token.hasContent near = true →
      Twin p ⟨near ++ p.first, rest, overrun⟩ ⟨near ++ p.second, rest, overrun⟩

namespace Twin

variable {c c' : Cursor}

theorem previous (h : p.Twin c c') : c.previous = c'.previous := by
  obtain ⟨near, rest, overrun, seen⟩ := h
  obtain ⟨t, found⟩ := Option.isSome_iff_exists.mp (List.find?_isSome.mpr (by simpa [Token.hasContent] using seen) :
    (near.find? (!·.isTrivia)).isSome = true)
  simp [Cursor.previous, List.find?_append, found]

theorem line (h : p.Twin c c') : c.line = c'.line := by
  obtain ⟨near, rest, overrun, -⟩ := h
  simp only [Cursor.line]
  induction near with
  | nil => exact p.sameLine
  | cons t near ih => simp only [List.cons_append, Cursor.lineAfter, ih]

theorem followsOperand (h : p.Twin c c') (sameLine : Bool) : c.followsOperand sameLine = c'.followsOperand sameLine := by
  obtain ⟨near, rest, overrun, seen⟩ := h
  simp only [Cursor.followsOperand]
  induction near with
  | nil => cases seen
  | cons t near ih =>
    simp only [List.cons_append, Cursor.operandIn]
    by_cases trivia : t.isTrivia = true
    · rw [if_pos trivia, if_pos trivia, ih (by simpa [Token.hasContent, trivia] using seen)]
    · rw [if_neg trivia, if_neg trivia]

theorem peekBack (h : p.Twin c c') : c.peek (-1) = c'.peek (-1) := by
  obtain ⟨near, rest, overrun, seen⟩ := h
  rcases near with _ | ⟨t, near⟩
  · cases seen
  · rcases overrun with _ | overrun <;> rfl

theorem advance (h : p.Twin c c') : p.Twin c.advance c'.advance := by
  obtain ⟨near, rest, overrun, seen⟩ := h
  rcases rest with _ | ⟨t, rest⟩
  · exact .intro near [] (overrun + 1) seen
  · exact .intro (t :: near) rest overrun (by simp only [Token.hasContent, List.any_cons] at *; simp [seen])

theorem advanceBy (h : p.Twin c c') (n : Nat) : p.Twin (c.advanceBy n) (c'.advanceBy n) := by
  induction n generalizing c c' with
  | zero => exact h
  | succ n ih => exact ih h.advance

/-- Both cursors have got on or neither. -/
theorem pos_eq_iff {start start' : Cursor} (h : p.Twin c c') (h' : p.Twin start start') :
    (c.pos == start.pos) = (c'.pos == start'.pos) := by
  obtain ⟨near, rest, overrun, -⟩ := h
  obtain ⟨near', rest', overrun', -⟩ := h'
  rw [Bool.eq_iff_iff]
  simp only [Cursor.pos, List.length_append, beq_iff_eq]
  omega

end Twin

/-! ### Twin desks -/

/-- Two desks that are the same but for their cursors, which are twins. -/
structure TwinDesk (p : Pasts) (d d' : Desk) : Prop where
  cursor : p.Twin d.cursor d'.cursor
  rest : d' = { d with cursor := d'.cursor }

/-- A change of the desk `e` that looks at the desk `d`, the cursors apart. -/
theorem TwinDesk.change (g : Desk → Desk → Desk)
    (apart : ∀ d e c c', g { d with cursor := c } { e with cursor := c' } = { g d e with cursor := c' })
    {d d' e e' : Desk} (twin : p.TwinDesk d d') (later : p.TwinDesk e e') : p.TwinDesk (g d e) (g d' e') := by
  have here (d e : Desk) : (g d e).cursor = e.cursor := congrArg (·.cursor) (apart d e d.cursor e.cursor)
  refine ⟨?_, ?_⟩
  · rw [here, here]
    exact later.cursor
  · rw [here, twin.rest, later.rest]
    exact apart d e _ _

/-- Two outcomes with the same value or the same message, and twin desks. -/
inductive Alike (p : Pasts) : Except Fault α × Desk → Except Fault α × Desk → Prop where
  | returned (x : α) {d d' : Desk} : p.TwinDesk d d' → Alike p (.ok x, d) (.ok x, d')
  | stopped {fault fault' : Fault} {d d' : Desk} : fault.message = fault'.message → p.TwinDesk d d' →
      Alike p (.error fault, d) (.error fault', d')

/-- What two alike outcomes are followed by is alike, if it is from twin desks. -/
theorem Alike.bind {a a' : Edit α} {f f' : α → Edit β} {d d' : Desk} (first : p.Alike (a d) (a' d'))
    (later : ∀ x e e', p.TwinDesk e e' → p.Alike (f x e) (f' x e')) : p.Alike ((a >>= f) d) ((a' >>= f') d') := by
  rw [bind_apply, bind_apply]
  generalize a d = out at first ⊢
  generalize a' d' = out' at first ⊢
  cases first with
  | returned x twin => exact later x _ _ twin
  | stopped same twin => exact .stopped same twin

/-- A scope is left alike. -/
theorem Alike.leave {γ : Type} {out out' : Except Fault α × Desk} (inner : p.Alike out out') (leave leave' : Desk → Desk)
    (value : α → Desk → γ) (left : ∀ e e', p.TwinDesk e e' → p.TwinDesk (leave e) (leave' e'))
    (handed : ∀ x e c, value x { e with cursor := c } = value x e) :
    p.Alike (out.1.map (value · out.2), leave out.2) (out'.1.map (value · out'.2), leave' out'.2) := by
  cases inner with
  | @returned x e e' later =>
    have same : value x e' = value x e := by
      rw [later.rest]
      exact handed x e _
    simp only [Except.map, same]
    exact .returned _ (left e e' later)
  | stopped same later => exact .stopped same (left _ _ later)

/-- `p.Same a a'`: from twin desks the two actions come out alike. -/
def Same (p : Pasts) (a a' : Edit α) : Prop := ∀ ⦃d d' : Desk⦄, p.TwinDesk d d' → p.Alike (a d) (a' d')

/-- `p.Unaware a`: the action comes out alike, whatever the past. -/
abbrev Unaware (p : Pasts) (a : Edit α) : Prop := p.Same a a

namespace Same

variable {a a' : Edit α}

protected theorem pure (x : α) : p.Unaware (Pure.pure x : Edit α) := fun _ _ twin => .returned x twin

protected theorem throw {fault fault' : Fault} (same : fault.message = fault'.message) :
    p.Same (throw fault : Edit α) (throw fault') := fun _ _ twin => .stopped same twin

protected theorem bind {f f' : α → Edit β} (ha : p.Same a a') (hf : ∀ x, p.Same (f x) (f' x)) : p.Same (a >>= f) (a' >>= f') :=
  fun _ _ twin => (ha twin).bind fun x _ _ later => hf x later

protected theorem ite {c c' : Prop} [Decidable c] [Decidable c'] {b b' : Edit α} (same : c = c') (ha : p.Same a a')
    (hb : p.Same b b') : p.Same (if c then a else b) (if c' then a' else b') := by
  subst same
  by_cases h : c
  · rw [if_pos h, if_pos h]
    exact ha
  · rw [if_neg h, if_neg h]
    exact hb

/-! ### Looking, moving and writing -/

/-- What is done with the cursor is the same for twins. -/
theorem cursor_bind {f f' : Cursor → Edit β} (h : ∀ c c', p.Twin c c' → p.Same (f c) (f' c')) :
    p.Same (cursor >>= f) (cursor >>= f') := fun d d' twin => h d.cursor d'.cursor twin.cursor twin

theorem twinDesk {d d' : Desk} (twin : p.TwinDesk d d') {c c' : Cursor} (h : p.Twin c c') :
    p.TwinDesk { d with cursor := c } { d' with cursor := c' } := ⟨h, by rw [twin.rest]⟩

theorem look {f : Desk → Edit β} (same : ∀ (d : Desk) ⦃c c'⦄, p.Twin c c' → f { d with cursor := c } = f { d with cursor := c' })
    (hf : ∀ d, p.Unaware (f d)) : p.Unaware (get >>= f) := by
  intro d d' twin
  have equal : f d = f d' := by
    rw [twin.rest]
    exact same d twin.cursor
  show p.Alike (f d d) (f d' d')
  rw [← equal]
  exact hf d twin

theorem move {f : Cursor → Cursor}
    (steps : ∀ ⦃c c'⦄, p.Twin c c' → ∃ n, f c = c.advanceBy n ∧ f c' = c'.advanceBy n) : p.Unaware (move f) := by
  intro d d' twin
  obtain ⟨n, moved, moved'⟩ := steps twin.cursor
  refine .returned () (twinDesk twin ?_)
  rw [moved, moved']
  exact twin.cursor.advanceBy n

/-- A group has the same tokens, and one that is missing or never closed is reported on the same line. -/
theorem group (opener closer : String) : p.Unaware (group opener closer) := by
  intro d d' twin
  have line := twin.cursor.line
  have cursors := twin.cursor
  simp only [Edit.group, Cursor.group]
  generalize d.cursor = c at line cursors ⊢
  generalize d'.cursor = c' at line cursors ⊢
  have here : c.atPunct [opener] = c'.atPunct [opener] := by
    obtain ⟨near, rest, overrun, -⟩ := cursors
    rfl
  have following : c.advance.rest = c'.advance.rest := by
    obtain ⟨near, rest, overrun, -⟩ := cursors
    rcases rest with _ | ⟨t, rest⟩ <;> rfl
  have inside? : (c.run (!·.isEof)).length = (c'.run (!·.isEof)).length := by
    obtain ⟨near, rest, overrun, -⟩ := cursors
    rfl
  rw [← here, ← following, ← inside?]
  split
  · split
    · exact .returned _ (twinDesk twin (cursors.advanceBy _))
    · exact .stopped (Fault.message_congr rfl (congrArg some line)) (twinDesk twin (cursors.advanceBy _))
  · exact .stopped (Fault.message_congr rfl (congrArg some line)) (twinDesk twin cursors)

theorem change {g : Desk → Desk} (apart : ∀ d c, g { d with cursor := c } = { g d with cursor := c }) :
    p.Unaware (modify g : Edit Unit) :=
  fun _ _ twin => .returned () (.change (fun _ e => g e) (fun _ e _ c => apart e c) twin twin)

theorem write (g : Buffer → α × Buffer) : p.Unaware (fun d => (.ok (g d.out).1, { d with out := (g d.out).2 }) : Edit α) := by
  intro d d' twin
  have same : d'.out = d.out := by rw [twin.rest]
  simp only [same]
  exact .returned _ ⟨twin.cursor, by rw [twin.rest]⟩

theorem markStatement : p.Unaware markStatement := by
  refine change fun d c => ?_
  simp only [Sheet.markStatement]
  split <;> rfl

theorem nextLabel : p.Unaware nextLabel := look (fun _ _ _ _ => rfl) fun _ => (change fun _ _ => rfl).bind fun _ => .pure _

/-! ### Scopes -/

/-- A scope that changes the desk before and after, the cursors apart. -/
theorem scope {γ : Type} (enter : Desk → Desk) (leave : Desk → Desk → Desk) (value : α → Desk → γ)
    (entered : ∀ d c, enter { d with cursor := c } = { enter d with cursor := c })
    (left : ∀ d e c c', leave { d with cursor := c } { e with cursor := c' } = { leave d e with cursor := c' })
    (handed : ∀ x e c, value x { e with cursor := c } = value x e) (ha : p.Same a a') :
    p.Same (fun d => ((a (enter d)).1.map (value · (a (enter d)).2), leave d (a (enter d)).2) : Edit γ)
      (fun d => ((a' (enter d)).1.map (value · (a' (enter d)).2), leave d (a' (enter d)).2)) := by
  intro d d' twin
  have inner := ha (.change (fun _ e => enter e) (fun _ e _ c => entered e c) twin twin)
  exact inner.leave (leave d) (leave d') value (fun _ _ later => .change leave left twin later) handed

theorem capture {a a' : Edit Unit} (ha : p.Same a a') : p.Same (capture a) (capture a') := by
  refine scope (fun d => d.onSheet d.toSheet.beginCapture) (fun _ e => e.onSheet e.toSheet.endCapture)
    (fun _ e => e.out) (fun _ _ => rfl) (fun d e c c' => ?_) (fun _ _ _ => rfl) ha
  simp only [Sheet.endCapture]
  split <;> rfl

theorem enclosedBy (enclosure : Enclosure) {a a' : Edit Unit} (ha : p.Same a a') :
    p.Same (enclosedBy enclosure a) (enclosedBy enclosure a') :=
  scope
    (fun d => { d with
      enclosures := enclosure :: d.enclosures, journal := d.journal ++ [.entered enclosure.scope] })
    (fun _ e => { e with enclosures := e.enclosures.tail, journal := e.journal ++ [.left enclosure.scope] })
    (fun _ e => e.enclosures.headD enclosure) (fun _ _ => rfl) (fun _ _ _ _ => rfl) (fun _ _ _ => rfl) ha

theorem asStatements {a a' : Edit Unit} (ha : p.Same a a') : p.Same (asStatements a) (asStatements a') := by
  have form (b : Edit Unit) : Edit.asStatements b = fun d =>
      ((b { d with inExpression := false }).1.map fun _ => (),
        { (b { d with inExpression := false }).2 with inExpression := d.inExpression }) := by
    funext d
    simp only [Edit.asStatements]
    rcases b { d with inExpression := false } with ⟨_ | _, e⟩ <;> rfl
  rw [form, form]
  exact scope (fun d => { d with inExpression := false }) (fun d e => { e with inExpression := d.inExpression })
    (fun _ _ => ()) (fun _ _ => rfl) (fun _ _ _ _ => rfl) (fun _ _ _ => rfl) ha

/-- A nested token list is read on a sheet of its own, which has no past. -/
theorem nested (tokens : List Token) (action : Edit Unit) : p.Unaware (nested tokens action) := by
  intro d d' twin
  have inner : d'.onSheet (.nested tokens) = d.onSheet (.nested tokens) := by rw [twin.rest]; rfl
  simp only [Edit.nested, inner]
  have desks (e : Desk) : p.TwinDesk (e.onSheet d.toSheet) (e.onSheet d'.toSheet) := ⟨twin.cursor, by rw [twin.rest]; rfl⟩
  rcases action (d.onSheet (.nested tokens)) with ⟨fault | x, e⟩
  · exact .stopped rfl (desks e)
  · exact .returned _ (desks e)

/-- A block that is never closed is reported on the line of its brace. -/
theorem block {r : Rules} (hr : ∀ limit, p.Unaware (r.blockUpTo limit)) : p.Unaware r.block := by
  refine cursor_bind fun start start' began => ?_
  have line := began.line
  obtain ⟨near, rest, overrun, -⟩ := began
  refine .ite rfl (Same.bind (move fun _ _ _ => ⟨1, rfl, rfl⟩) fun _ => .asStatements ?_) (.pure ())
  refine (hr _).bind fun _ => .ite rfl (.throw ?_) (.pure ())
  exact Fault.message_congr rfl (congrArg some line)

end Same

/-! ### Not to tell one past from another is a trait -/

/-- Not to tell one past from another. -/
abbrev trait (p : Pasts) : Trait := ⟨fun _ a => p.Unaware a, p.Twin⟩

theorem Unaware.of_holds {a : Edit α} (h : p.trait.Holds (fun _ => True) a) : p.Unaware a := h

instance : p.trait.Plain where
  rest := by rintro _ _ ⟨near, rest, overrun, -⟩; rfl
  previous := Twin.previous
  peekBack := Twin.peekBack
  followsOperand := Twin.followsOperand
  advance := Twin.advance
  mono h _ := h
  pure := Same.pure
  tooDeep := Same.throw rfl
  known ha _ hf := Same.bind ha hf
  ask same hf := Same.cursor_bind fun c c' twin => same twin ▸ hf c
  look := Same.look
  since ha hf := Same.cursor_bind fun _ _ began => Same.bind ha fun _ => Same.cursor_bind fun _ _ twin =>
    twin.pos_eq_iff began ▸ hf _
  move := Same.move
  group _ := Same.group _ _
  write := Same.write
  markStatement {_} := Same.markStatement
  warn _ := Same.change fun _ _ => rfl
  addMapName _ := Same.change fun _ _ => rfl
  capture := Same.capture
  nested _ _ := Same.nested _ _
  function := Same.enclosedBy _
  block := Same.block
  condition hf := Same.cursor_bind fun here here' twin => by
    have line := twin.line
    obtain ⟨near, rest, overrun, -⟩ := twin
    exact .ite rfl (hf _) (.throw (Fault.message_congr rfl (congrArg some line)))
  record _ := Same.change fun _ _ => rfl
  nextLabel {_} := Same.nextLabel
  markContinued {_} := Same.change fun _ _ => rfl
  enclosedBy _ := Same.enclosedBy _

end Pasts

namespace Rules

variable {p : Pasts}

/-- Neither rule tells one past from another. -/
structure Unaware (p : Pasts) (r : Rules) : Prop where
  statement : p.Unaware r.statement
  expression : p.Unaware r.expression

theorem Unaware.holds {r : Rules} (hr : r.Unaware p) : r.Holds p.trait := ⟨hr.statement, hr.expression⟩

/-- No rule tells one past from another, at any depth of nesting. -/
theorem unaware_within (depth : Nat) : (within depth).Unaware p :=
  have all : (within depth).Holds p.trait := holds_within holds_loops depth
  ⟨all.statement, all.expression⟩

end Rules

end NoteScript

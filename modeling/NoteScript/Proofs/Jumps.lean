import NoteScript.Proofs.Guarantee
import NoteScript.Proofs.Journal

/-!
# Every jump has its label

A `continue` becomes a jump to a label, and whether the label is written is decided only behind the body
of the loop. The journal of a run has the order of these events. Main results:

* `Rules.keeps_journaled`: every rule journals its loops and jumps as a `Trace`, at every depth of nesting.
* `continue_jumps_land`: in the journal of any number of scripts, converted one after the other, each
  label that is jumped to is written once, by its loop, behind the jumps and before the loop is closed.
-/

namespace NoteScript

open Edit Trait

/-! ### Marking the innermost loop -/

/-- The innermost loop of the current function. -/
def Enclosure.target? : List Enclosure → Option String
  | .loop label _ :: _ => some label
  | _ => none

theorem Enclosure.eq_of_target? {enclosures : List Enclosure} {label : String} (h : target? enclosures = some label) :
    ∃ continued outer, enclosures = .loop label continued :: outer := by
  rcases enclosures with _ | ⟨⟨label, continued⟩ | _, outer⟩ <;> cases h
  exact ⟨continued, outer, rfl⟩

/-- The enclosures after the innermost one was jumped to, or not. -/
def Enclosure.marked (jumped : Bool) : List Enclosure → List Enclosure
  | .loop label continued :: outer => .loop label (continued || jumped) :: outer
  | enclosures => enclosures

theorem Enclosure.marked_false (enclosures : List Enclosure) : marked false enclosures = enclosures := by
  rcases enclosures with _ | ⟨⟨label, continued⟩ | _, outer⟩
  · rfl
  · rw [marked, Bool.or_false]
  · rfl

theorem Enclosure.marked_marked (jumped jumped' : Bool) (enclosures : List Enclosure) :
    marked jumped' (marked jumped enclosures) = marked (jumped || jumped') enclosures := by
  rcases enclosures with _ | ⟨⟨label, continued⟩ | _, outer⟩
  · rfl
  · simp [marked, Bool.or_assoc]
  · rfl

/-! ### The guarantee -/

/-- `l.Records l'`: the journal goes on from `l` to `l'` by a trace, and the innermost loop is marked if
there was a jump to it. -/
def Ledger.Records (l l' : Ledger) : Prop := ∃ events jumped, l'.journal = l.journal ++ events ∧
    Trace (Enclosure.target? l.enclosures) l.labels events l'.labels jumped ∧
    l'.enclosures = Enclosure.marked jumped l.enclosures

namespace Ledger.Records

theorem quiet {l l' : Ledger} (journal : l'.journal = l.journal) (labels : l'.labels = l.labels)
    (enclosures : l'.enclosures = l.enclosures) : l.Records l' := by
  refine ⟨[], false, by simp [journal], ?_, ?_⟩
  · rw [labels]
    exact .nil
  · rw [enclosures, Enclosure.marked_false]

theorem target?_eq {l l' : Ledger} (h : l.Records l') : Enclosure.target? l'.enclosures = Enclosure.target? l.enclosures := by
  obtain ⟨_, _, _, _, enclosures⟩ := h
  rw [enclosures]
  rcases l.enclosures with _ | ⟨⟨label, continued⟩ | _, outer⟩ <;> rfl

theorem trans {l l' l'' : Ledger} (h : l.Records l') (h' : l'.Records l'') : l.Records l'' := by
  have target := h.target?_eq
  obtain ⟨events, jumped, journal, trace, enclosures⟩ := h
  obtain ⟨events', jumped', journal', trace', enclosures'⟩ := h'
  refine ⟨events ++ events', jumped || jumped', ?_, ?_, ?_⟩
  · rw [journal', journal, List.append_assoc]
  · rw [target] at trace'
    exact trace.append trace'
  · rw [enclosures', enclosures, Enclosure.marked_marked]

end Ledger.Records

/-- The guarantee of a journaled run. Nothing is said of a run that was stopped. -/
def Guarantee.journaled : Guarantee where
  returns d d' := d.toLedger.Records d'.toLedger
  stops _ _ _ := True

/-- A function takes no jump out: its trace starts without a target. -/
theorem Ledger.records_function {d e : Desk} (h : d.enterFunction.toLedger.Records e.toLedger) :
    d.toLedger.Records e.leaveFunction.toLedger := by
  obtain ⟨events, jumped, journal, trace, enclosures⟩ := h
  refine ⟨_, false, ?_, .function trace, ?_⟩
  · simp [Desk.leaveFunction, journal, Desk.enterFunction]
  · have inside : e.enclosures = .function :: d.enclosures := enclosures
    rw [Enclosure.marked_false]
    simp only [Desk.leaveFunction, inside, List.tail_cons]

instance : Guarantee.journaled.Lawful where
  refl _ := .quiet rfl rfl rfl
  trans := .trans
  halt _ _ := trivial
  trans_stops _ _ := trivial
  move _ _ := .quiet rfl rfl rfl
  write _ _ := .quiet rfl rfl rfl
  markStatement _ := .quiet rfl rfl rfl
  warn _ _ := .quiet rfl rfl rfl
  addMapName d name := by
    apply Ledger.Records.quiet <;> simp only [Ledger.addMapName] <;> split <;> rfl
  capture h := h
  capture_stops _ := trivial
  nested _ h := h
  nested_stops _ _ := trivial
  asStatements h := h
  asStatements_stops _ := trivial
  function := Ledger.records_function
  function_stops _ := trivial

/-! ### Loops and jumps are journaled -/

/-- Work inside a loop or function that returned: what it started from, and what it left. -/
theorem Edit.enclosedBy_eq_ok {enclosure after : Enclosure} {a : Edit Unit} {d d' : Desk} :
    enclosedBy enclosure a d = (.ok after, d') ↔ ∃ e, a { d with
          enclosures := enclosure :: d.enclosures
          journal := d.journal ++ [.entered enclosure.scope] } = (.ok (), e) ∧
        after = e.enclosures.headD enclosure ∧
        d' = { e with enclosures := e.enclosures.tail, journal := e.journal ++ [.left enclosure.scope] } := by
  constructor
  · intro run
    simp only [enclosedBy] at run
    rcases inner : a { d with
      enclosures := enclosure :: d.enclosures
      journal := d.journal ++ [.entered enclosure.scope] } with ⟨_ | _, e⟩ <;> rw [inner] at run <;>
        cases run
    exact ⟨e, rfl, rfl, rfl⟩
  · rintro ⟨e, inner, rfl, rfl⟩
    simp only [enclosedBy, inner]
    rfl

namespace Rules

/-- Pass over the end of a statement. -/
def passEnd : Edit Unit := do
  skipSpace
  skipPunct ";"

theorem journaled_passEnd : Edit.Keeps .journaled passEnd := holds_passEnd

section

variable {r : Rules} (hr : r.Keeps .journaled)
include hr

/-- The body of a loop is read with that loop as the target of jumps, and the label is written behind it
exactly if the loop was marked meanwhile. -/
theorem loop_records {head label : String} {d d' : Desk} (run : r.loop head d = (.ok label, d')) :
    label = loopLabel (d.labels + 1) ∧ d'.enclosures = d.enclosures ∧ ∃ inside continued,
      Trace (some label) (d.labels + 1) inside d'.labels continued ∧
      d'.journal = d.journal ++ ([.entered (.loop label)] ++ inside ++ [.left (.loop label)] ++
        Event.labelling continued label) := by
  obtain ⟨_, _, ⟨⟩, run⟩ := bind_eq_ok.mp run
  obtain ⟨_, _, ⟨⟩, run⟩ := bind_eq_ok.mp run
  obtain ⟨_, _, ⟨⟩, run⟩ := bind_eq_ok.mp run
  obtain ⟨_, _, ⟨⟩, run⟩ := bind_eq_ok.mp run
  obtain ⟨after, _, body, run⟩ := bind_eq_ok.mp run
  obtain ⟨e, inner, left, rfl⟩ := enclosedBy_eq_ok.mp body
  obtain ⟨inside, continued, journal, trace, enclosures⟩ := Edit.Keeps.returns (holds_body hr) inner
  have outside : e.enclosures = .loop (loopLabel (d.labels + 1)) continued :: d.enclosures := enclosures
  rw [outside, List.headD_cons] at left
  subst left
  cases continued <;> cases run
  · refine ⟨rfl, ?_, inside, false, trace, ?_⟩
    · simp only [outside, List.tail_cons]
    · simp [journal, Event.labelling, Enclosure.scope]
  · refine ⟨rfl, ?_, inside, true, trace, ?_⟩
    · simp only [outside, List.tail_cons]
    · simp [journal, Event.labelling, Enclosure.scope]

/-- A loop, what is read behind its body, and its closing keyword. -/
theorem records_closeLoop {head label keyword : String} {start : Nat} {a b c d : Desk}
    (body : r.loop head a = (.ok label, b)) (behind : b.toLedger.Records c.toLedger)
    (close : closeLoop start label keyword c = (.ok (), d)) : a.toLedger.Records d.toLedger := by
  obtain ⟨rfl, outside, inside, continued, trace, journal⟩ := loop_records hr body
  obtain ⟨events, jumped, journal', trace', enclosures⟩ := behind
  cases close
  rw [outside] at trace' enclosures
  refine ⟨_, jumped, ?_, .loop trace trace', enclosures⟩
  simp [journal, journal']

theorem journaled_loop (head keyword : String) (start : Nat) :
    Edit.Keeps .journaled (do let label ← r.loop head; closeLoop start label keyword) := by
  refine .of_steady ((holds_loop hr.steady _).bind fun _ => holds_closeLoop _ _ _) (fun run => ?_) fun _ => trivial
  obtain ⟨label, d, body, close⟩ := bind_eq_ok.mp run
  exact records_closeLoop hr body (.quiet rfl rfl rfl) close

theorem journaled_whileStatement : Edit.Keeps .journaled r.whileStatement :=
  Holds.mark.bind fun _ => (Holds.skip 1).bind fun _ => (holds_condition hr).bind fun _ => journaled_loop hr _ _ _

theorem journaled_forStatement : Edit.Keeps .journaled r.forStatement := by
  refine Holds.mark.bind fun start => (Holds.skip 1).bind fun _ => Holds.skipTrivia.bind fun _ => .arguments_bind fun head => ?_
  split
  · rename_i each found
    exact (holds_valueOf hr (suffix_forEach found).isInfix).bind fun _ => .any (journaled_loop hr _ _ _)
  · exact (holds_unsupported _).bind fun _ => holds_skipBody

/-- The condition of a `do` statement is read outside its loop. -/
theorem journaled_doStatement : Edit.Keeps .journaled r.doStatement := by
  refine .of_steady (holds_doStatement hr.steady) (fun run => ?_) fun _ => trivial
  obtain ⟨start, _, ⟨⟩, run⟩ := bind_eq_ok.mp run
  obtain ⟨_, _, ⟨⟩, run⟩ := bind_eq_ok.mp run
  obtain ⟨label, b, body, run⟩ := bind_eq_ok.mp run
  obtain ⟨here, _, ⟨⟩, run⟩ := bind_eq_ok.mp run
  dsimp only at run
  split_ifs at run with found
  · obtain ⟨_, _, skipped, run⟩ := bind_eq_ok.mp run
    obtain ⟨test, c, condition, run⟩ := bind_eq_ok.mp run
    obtain ⟨_, d, close, ending⟩ := bind_eq_ok.mp run
    cases skipped
    have behind := Edit.Keeps.returns (holds_condition hr) condition
    have closed := records_closeLoop hr body behind close
    exact closed.trans (journaled_passEnd.returns ending)
  · cases run

end

/-- A jump inside a loop of its function goes to the label of the innermost one. -/
theorem continueStatement_loop {d : Desk} {label : String} {continued : Bool} {outer : List Enclosure}
    (inLoop : d.enclosures = .loop label continued :: outer) :
    continueStatement d = passEnd { d with
      cursor := d.cursor.advanceBy 1
      out := d.out.emit ("goto " ++ label)
      enclosures := .loop label true :: outer
      journal := d.journal ++ [.jumped label] } := by
  obtain ⟨sheet, mapNames, enclosures, labels, diagnostics, journal⟩ := d
  subst inLoop
  rfl

/-- A jump outside the loops of its function is turned down, with a placeholder and one diagnostic. -/
theorem continueStatement_outside {d : Desk} (outside : Enclosure.target? d.enclosures = none) :
    continueStatement d = passEnd { d with
      cursor := d.cursor.advanceBy 1
      out := d.out.emit "--[[ unsupported: continue outside a loop ]]"
      diagnostics := d.diagnostics ++ ["unsupported construct skipped: continue outside a loop"]
      journal := d.journal ++ [.refused] } := by
  obtain ⟨sheet, mapNames, enclosures, labels, diagnostics, journal⟩ := d
  rcases enclosures with _ | ⟨⟨label, continued⟩ | _, outer⟩
  · rfl
  · cases outside
  · rfl

theorem journaled_continueStatement : Edit.Keeps .journaled continueStatement := by
  refine .of_steady holds_continueStatement (fun {d _ _} run => ?_) fun _ => trivial
  rcases target : Enclosure.target? d.enclosures with _ | label
  · rw [continueStatement_outside target] at run
    refine Ledger.Records.trans ?_ (journaled_passEnd.returns run)
    refine ⟨[.refused], false, rfl, ?_, (Enclosure.marked_false _).symm⟩
    rw [target]
    exact .refusal
  · obtain ⟨continued, outer, enclosures⟩ := Enclosure.eq_of_target? target
    rw [continueStatement_loop enclosures] at run
    refine Ledger.Records.trans ?_ (journaled_passEnd.returns run)
    refine ⟨[.jumped label], true, rfl, ?_, ?_⟩
    · rw [target]
      exact .jump
    · simp [enclosures, Enclosure.marked]

/-- Every rule journals its loops and jumps, at every depth of nesting. -/
theorem keeps_journaled (depth : Nat) : (within depth).Keeps .journaled :=
  holds_within ⟨journaled_forStatement, journaled_whileStatement, journaled_doStatement, journaled_continueStatement⟩ depth

end Rules

/-! ### Scripts, one after the other -/

/-- The ledger after any number of scripts that were converted one after the other. -/
inductive Session : Ledger → Prop where
  | start : Session {}
  | script {l l' : Ledger} {tokens : List Token} {text : String} :
      Session l → convertTokens tokens l = (.ok text, l') → Session l'

theorem Session.further {l : Ledger} (session : Session l) (tokens : List Token)
    (returned : (convertTokens tokens l).1.isOk) : Session (convertTokens tokens l).2 := by
  rcases run : convertTokens tokens l with ⟨_ | text, l'⟩ <;> rw [run] at returned
  · cases returned
  · exact session.script run

/-- The journal of a script goes on from the one before it, with no loop around it. -/
theorem records_of_convertTokens {l l' : Ledger} {tokens : List Token} {text : String}
    (run : convertTokens tokens l = (.ok text, l')) : l.nextScript.Records l' := by
  rcases taken : Edit.statements (Desk.ofTokens tokens l) with ⟨_ | _, d⟩ <;>
    simp only [convertTokens, taken] at run <;> cases run
  have kept : Edit.Keeps .journaled Edit.statements :=
    Keeps.get.bind fun d => Rules.holds_statements (Rules.keeps_journaled d.budget)
  exact kept.returns taken

/-- The journal of a session is a trace without a target. -/
theorem Session.trace {l : Ledger} (session : Session l) : ∃ jumped, Trace none 0 l.journal l.labels jumped := by
  induction session with
  | start => exact ⟨false, .nil⟩
  | script _ run ih =>
    obtain ⟨earlier, before⟩ := ih
    obtain ⟨events, jumped, journal, trace, _⟩ := records_of_convertTokens run
    refine ⟨earlier || jumped, ?_⟩
    rw [journal]
    exact before.append trace

/-- The text of a labelled body ends with the label. -/
theorem Buffer.text_labelBody (b : Buffer) (start : Nat) (indent label : String) :
    ∃ body, (b.labelBody start indent label).text = body ++ "::" ++ label ++ "::" := by
  have joined (b : Buffer) (entry : String) : text (b.emit entry) = text b ++ entry := by
    simp [text, emit, String.join]
  have mark : " end ::" = " end " ++ "::" := rfl
  unfold labelBody
  dsimp only
  split_ifs
  · refine ⟨text ((b.trimTo start).take start) ++ ("\n" ++ (indent ++ indentUnit) ++ "do" ++
      Text.replace "\n" ("\n" ++ indentUnit) (text ((b.trimTo start).drop start))) ++
      ("\n" ++ (indent ++ indentUnit) ++ "end\n" ++ (indent ++ indentUnit)), ?_⟩
    simp only [joined, String.append_assoc]
  · refine ⟨text ((b.trimTo start).take start) ++ (" do" ++ text ((b.trimTo start).drop start) ++ " end "), ?_⟩
    simp only [joined, mark, String.append_assoc]

/-- Every jump of a journal has its label, and every label its jump. -/
structure JumpsLand (journal : List Event) : Prop where
  /-- A label that is jumped to is that of a loop around the jumps, and is written once: behind them and
  before the keyword that closes the loop. Nothing else is said of it. -/
  landing {label : String} : .jumped label ∈ journal → ∃ before inside behind after,
    journal = before ++ [.entered (.loop label)] ++ inside ++ [.left (.loop label), .labelled label] ++
      behind ++ [.closed label] ++ after ∧
    .jumped label ∈ inside ∧ (∀ e ∈ inside, e.label? = some label → e = .jumped label) ∧
    Silent label (before ++ behind ++ after)
  /-- A label is written only for a jump. -/
  asked {label : String} : .labelled label ∈ journal → .jumped label ∈ journal
  /-- No two loops share a label. -/
  own (label : String) : journal.count (.entered (.loop label)) ≤ 1
  /-- A jump goes to the innermost scope, so it leaves no function. -/
  innermost {before after : List Event} {label : String} : journal = before ++ .jumped label :: after →
    (openScopes [] before).head? = some (.loop label)
  /-- A jump is turned down only where the innermost scope is no loop. -/
  outside {before after : List Event} : journal = before ++ .refused :: after →
    ∀ label, (openScopes [] before).head? ≠ some (.loop label)

theorem Trace.jumpsLand {n m : Nat} {events : List Event} {jumped : Bool}
    (trace : Trace none n events m jumped) : JumpsLand events where
  landing := fun jump => (trace.loopRecord jump rfl (by simp)).of_jumped jump
  asked := fun mark => (trace.loopRecord mark rfl (by simp)).jumped_of_labelled mark
  own := by
    intro label
    by_cases found : .entered (.loop label) ∈ events
    · exact Nat.le_of_eq (trace.loopRecord found rfl (by simp)).count_entered
    · rw [List.count_eq_zero.mpr found]
      exact Nat.zero_le 1
  innermost := by
    rintro before after label rfl
    have balanced : Balanced [] _ := trace.balanced rfl
    exact (fitting_append.mp balanced.1).2.1
  outside := by
    rintro before after rfl
    have balanced : Balanced [] _ := trace.balanced rfl
    exact (fitting_append.mp balanced.1).2.1

/-- However many scripts are converted one after the other, every `continue` jump has its label. The
journal is what is written: a jump inside a loop writes `goto` and the label of the innermost one, a jump
with no loop in its function writes a placeholder and adds one diagnostic, and a label is written behind
the body it closes. -/
theorem continue_jumps_land {l : Ledger} (session : Session l) :
    JumpsLand l.journal ∧
    (∀ d label continued outer, d.enclosures = .loop label continued :: outer →
      Rules.continueStatement d = Rules.passEnd { d with
        cursor := d.cursor.advanceBy 1
        out := d.out.emit ("goto " ++ label)
        enclosures := .loop label true :: outer
        journal := d.journal ++ [.jumped label] }) ∧
    (∀ d, Enclosure.target? d.enclosures = none →
      Rules.continueStatement d = Rules.passEnd { d with
        cursor := d.cursor.advanceBy 1
        out := d.out.emit "--[[ unsupported: continue outside a loop ]]"
        diagnostics := d.diagnostics ++ ["unsupported construct skipped: continue outside a loop"]
        journal := d.journal ++ [.refused] }) ∧
    ∀ start indent label d, ∃ out body, out.text = body ++ "::" ++ label ++ "::" ∧
      Rules.placeLabel start indent label d =
        (.ok (), { d with out := out, journal := d.journal ++ [.labelled label] }) := by
  refine ⟨?_, ?_, ?_, ?_⟩
  · obtain ⟨jumped, trace⟩ := session.trace
    exact trace.jumpsLand
  · intro d label continued outer inLoop
    exact Rules.continueStatement_loop inLoop
  · intro d outside
    exact Rules.continueStatement_outside outside
  · intro start indent label d
    obtain ⟨body, written⟩ := d.out.text_labelBody start indent label
    exact ⟨_, body, written, rfl⟩

/-- A session of two scripts: a jump inside a loop, with a further loop and a function in which there is
nothing to jump to, and then one more loop, whose label is not written. -/
theorem continue_jumps_land_twice :
    ∃ l, Session l ∧ JumpsLand l.journal ∧ l.journal =
      [.entered (.loop "continue_1"), .jumped "continue_1", .entered (.loop "continue_2"),
        .entered .function, .refused, .left .function, .left (.loop "continue_2"), .closed "continue_2",
        .left (.loop "continue_1"), .labelled "continue_1", .closed "continue_1",
        .entered (.loop "continue_3"), .left (.loop "continue_3"), .closed "continue_3"] := by
  have first : Session (convertTokens (Token.tokenize
      "for (const x of y) \x7b if (x) continue; do f(() => \x7b continue; \x7d); while (x); \x7d") {}).2 :=
    Session.start.further _ (by decide +kernel)
  have second := first.further (Token.tokenize "while (z) break;") (by decide +kernel)
  exact ⟨_, second, (continue_jumps_land second).1, by decide +kernel⟩

end NoteScript

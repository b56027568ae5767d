import NoteScript.Proofs.Places
import NoteScript.Transpile

/-!
# On which line a fault is reported

A fault is reported on the line of its place, counted from the start of the token list that was being
read. That list is the script or a part of it that is read on its own, so the line is that of the source
for a fault on the script itself, and for a part exactly if no line feed stands in front of the part.

* `Guarantee.located`: on a list of the source, an action stays on it and stops with faults on lists of the
  source only.
* `transpile_fault_line`: what the line in the message of a fault counts, and when it is the line in the
  source.
-/

namespace NoteScript

open Edit

/-- `f.Located source`: the fault fits its place, which is on a token list of the source. -/
structure Fault.Located (source : String) (f : Fault) : Prop where
  fits : f.Fits
  listed {place : Cursor} : f.place? = some place → ∃ offset, Stands source offset place.tokens

/-- On a list of the source, an action stays on it, and its faults are found on lists of the source. -/
def Guarantee.located (source : String) : Guarantee where
  returns d d' := d'.cursor.tokens = d.cursor.tokens
  stops f d _ := ∀ offset, Stands source offset d.cursor.tokens → f.Located source

theorem Sheet.cursor_markStatement (s : Sheet) : s.markStatement.cursor = s.cursor := by
  unfold markStatement
  split <;> rfl

theorem Sheet.cursor_endCapture (s : Sheet) : s.endCapture.cursor = s.cursor := by
  unfold endCapture
  split <;> rfl

instance (source : String) : (Guarantee.located source).Plain where
  refl _ := rfl
  trans first second := second.trans first
  halt := by
    intro f a b found _ offset stands
    refine ⟨found.fits, fun place => ⟨offset, ?_⟩⟩
    rwa [found.place place]
  trans_stops := by
    intro f a b c (same : b.cursor.tokens = a.cursor.tokens) stopped offset stands
    apply stopped offset
    rwa [same]
  move d n := d.cursor.tokens_advanceBy n
  write _ _ := rfl
  markStatement d := congrArg Cursor.tokens d.toSheet.cursor_markStatement
  warn _ _ := rfl
  addMapName _ _ := rfl
  capture {_ e} kept := (congrArg Cursor.tokens e.toSheet.cursor_endCapture).trans kept
  capture_stops stopped := stopped
  nested _ _ := rfl
  nested_stops := by
    intro f d e tokens reads stopped offset stands
    obtain ⟨offset', nested⟩ := stands.nested reads
    exact stopped offset' nested
  asStatements kept := kept
  asStatements_stops stopped := stopped
  function kept := kept
  function_stops stopped := stopped
  record _ _ := rfl
  nextLabel _ := rfl
  markContinued _ := rfl
  enclosed kept := kept
  enclosed_stops stopped := stopped

theorem convertTokens_eq_error {tokens : List Token} {l l' : Ledger} {fault : Fault}
    (run : convertTokens tokens l = (.error fault, l')) :
    ∃ d, Edit.statements (Desk.ofTokens tokens l) = (.error fault, d) := by
  rcases taken : Edit.statements (Desk.ofTokens tokens l) with ⟨fault' | _, d⟩ <;>
    simp only [convertTokens, taken] at run <;> cases run
  exact ⟨d, rfl⟩

/-- A script that has no Lua code because of a fault is one whose run the fault stops. -/
theorem convertTokens_of_transpile {source : String} {fault : Fault}
    (stopped : (transpile source).outcome = .error (.rules fault)) :
    ∃ l, convertTokens (Token.tokenize source) {} = (.error fault, l) := by
  unfold transpile at stopped
  split at stopped
  · cases stopped
  · dsimp only at stopped
    split at stopped
    · cases stopped
    · split at stopped <;> cases stopped
      rename_i found
      exact ⟨_, Prod.ext found rfl⟩

/-- The faults of a script are found on its token lists. -/
theorem located_of_transpile {source : String} {fault : Fault}
    (stopped : (transpile source).outcome = .error (.rules fault)) : fault.Located source := by
  obtain ⟨l, converted⟩ := convertTokens_of_transpile stopped
  obtain ⟨d, run⟩ := convertTokens_eq_error converted
  have kept : Edit.Keeps (.located source) Edit.statements :=
    Keeps.get.bind fun d => Rules.holds_statements (Rules.holds_within Rules.holds_loops d.budget)
  exact kept.stops run 0 .script

theorem Transpiled.error?_of_outcome {t : Transpiled} {failure : TranspileFailure}
    (h : t.outcome = .error failure) : t.error? = some failure.message := by
  rw [error?, h]

theorem Fault.message_eq {f : Fault} {line : Nat} (h : f.line? = some line) : f.message = s!"{f.description} (line {line})" := by
  rw [message, h]

/-- The line in the message of a fault counts the line feeds from the start of the token list that was
being read, which stands in the source, to the place where the fault was found. So it is the line of this
place in the source exactly if no line feed stands in front of the list. -/
theorem transpile_fault_line (source : String) {fault : Fault} {line : Nat}
    (stopped : (transpile source).outcome = .error (.rules fault)) (reported : fault.line? = some line) :
    (transpile source).error? = some ("Transpile error: " ++ s!"{fault.description} (line {line})") ∧
    ∃ place offset, fault.place? = some place ∧ fault.Fits ∧ Stands source offset place.tokens ∧
      line = 1 + ((source.toList.drop offset).take (Token.textSize place.before)).count '\n' ∧
      (line = Token.lineAt source (offset + Token.textSize place.before) ↔
        '\n' ∉ source.toList.take offset) := by
  have located := located_of_transpile stopped
  obtain ⟨place, found, rfl⟩ := Option.map_eq_some_iff.mp reported
  obtain ⟨offset, stands⟩ := located.listed found
  refine ⟨?_, place, offset, found, located.fits, stands, stands.line_eq, stands.line_iff⟩
  rw [← Fault.message_eq reported]
  exact Transpiled.error?_of_outcome stopped

/-- The argument of a call is read on its own, and the line feed in front of the call is not counted. -/
theorem transpile_fault_line_argument :
    (transpile "\nx.push(Object.keys);").error? = some "Transpile error: expected '(' (line 1)" ∧
      Token.lineAt "\nx.push(Object.keys);" 19 = 2 := by
  refine ⟨?_, by decide⟩
  have stopped : (transpile "\nx.push(Object.keys);").outcome = .error (.rules (.expected "("
      ⟨[⟨.identifier, "keys"⟩, ⟨.operator, "."⟩, ⟨.identifier, "Object"⟩], [.eof], 0⟩)) := by
    decide +kernel
  exact (transpile_fault_line _ stopped rfl).1

end NoteScript

import NoteScript.Proofs.Files

/-!
# How the commands end

What becomes of a run is settled by the input, the parser and the transpiler before a file is touched.

* `ConvertRequest.Stops`: why nothing is written, and how the run ends then.
* `ConvertRequest.Passes`: the check lets a script pass, with what it found.
* `convert_outcome`: a run stops without a trace in the files, or it writes one file, the chunk, unless the
  path is refused. The status and the report of a run that writes follow from what was found.
* `note_strict_status`: a strict run over a note fails exactly if a query block fails or has diagnostics.
  Inline expressions do not count (`note_strict_passes_inline`).
-/

namespace NoteScript

/-- A query that has no code, or has diagnostics. -/
def QueryBlock.Troubled (q : QueryBlock) : Prop :=
  (∃ failure, (transpile q.source).outcome = .error failure) ∨ (transpile q.source).diagnostics ≠ []

namespace Command

/-! ### Converting a script -/

namespace ConvertRequest

variable {r : ConvertRequest} {parse : String → ParseOutcome} {source : String}

/-- `r.Passes parse source errors issues`: the check, if there is one, has a tree, with these syntax errors
and issues. -/
inductive Passes (r : ConvertRequest) (parse : String → ParseOutcome) (source : String) :
    List ParseError → List SupportIssue → Prop where
  | unchecked : r.check = false → Passes r parse source [] []
  | checked {t : Tree} : r.check = true → parse source = .tree t → t ≠ .null →
      Passes r parse source t.listedErrors t.issues

/-- `r.Stops parse input result`: with this input there is nothing to write, and the run ends so. -/
inductive Stops (r : ConvertRequest) (parse : String → ParseOutcome) : Input → Except Crash Nat → Prop where
  | missing : Stops r parse .missing (.ok 1)
  | unreadable : Stops r parse .directory (.ok 1)
  | undecodable : Stops r parse .undecodable (.error .undecodable)
  /-- A strict check is stopped by the parser's error. -/
  | parser {source : String} {error : SyntaxFault} : r.check = true → r.strict = true →
      parse source = .stopped error → Stops r parse (.text source) (.error (.parser error))
  /-- A tolerant check reports the parser's error. -/
  | noTree {source : String} {error : SyntaxFault} : r.check = true → r.strict = false →
      parse source = .stopped error → Stops r parse (.text source) (.ok 1)
  | nullTree {source : String} : r.check = true → parse source = .tree .null → Stops r parse (.text source) (.ok 1)
  | transpile {source : String} {errors : List ParseError} {issues : List SupportIssue} {failure : TranspileFailure} :
      r.Passes parse source errors issues → (NoteScript.transpile source).outcome = .error failure →
      Stops r parse (.text source) (.ok 1)

/-- The run of a script that is written counts as failed: there are syntax errors, or the run is strict and there
is anything to report. -/
def Failing (r : ConvertRequest) (errors : List ParseError) (issues : List SupportIssue) (diagnostics : List String) : Prop :=
  errors ≠ [] ∨ r.strict = true ∧ ((errors ≠ [] ∨ issues ≠ []) ∨ diagnostics ≠ [])

/-- The report of a run: syntax errors, then issues, then diagnostics. -/
def reportLines (name : String) (errors : List ParseError) (issues : List SupportIssue) (diagnostics : List String) : List String :=
  errors.map (fun e => "ERROR " ++ name ++ placeText e.line e.column ++ ": " ++ e.description.display)
    ++ issues.map (fun i => "WARNING " ++ name ++ placeText i.position.line i.position.column ++ ": " ++ i.message)
    ++ diagnostics.map fun d => "INFO " ++ name ++ ": " ++ d

/-- What a check that passes hands on. -/
def found (errors : List ParseError) (issues : List SupportIssue) : Option Checked → Prop
  | none => errors = [] ∧ issues = []
  | some c => c.errors = errors ∧ c.issues = some issues

theorem hasErrors_iff {errors : List ParseError} {issues : List SupportIssue} {check : Option Checked}
    (finds : found errors issues check) (t : Transpiled) :
    r.hasErrors check t = true ↔ r.Failing errors issues t.diagnostics := by
  rcases check with _ | c
  · obtain ⟨rfl, rfl⟩ := finds
    simp [hasErrors, Failing]
  · obtain ⟨rfl, issued⟩ := finds
    have reported : c.diagnostics ≠ [] ↔ c.errors ≠ [] ∨ issues ≠ [] := by
      simp only [Checked.diagnostics, issued, Option.getD_some, ne_eq, List.append_eq_nil_iff, List.map_eq_nil_iff]
      tauto
    simp [hasErrors, Failing, ← reported]

theorem reportLines_eq {errors : List ParseError} {issues : List SupportIssue} {check : Option Checked}
    (finds : found errors issues check) (name : String) (t : Transpiled) :
    (check.map (checkLines name)).getD [] ++ scriptLines name t = reportLines name errors issues t.diagnostics := by
  rcases check with _ | c
  · obtain ⟨rfl, rfl⟩ := finds
    rfl
  · obtain ⟨rfl, issued⟩ := finds
    simp [checkLines, scriptLines, reportLines, issued]

/-- A script that is checked, if it is to be, stops the run or passes the check. -/
theorem stops_or_passes (r : ConvertRequest) (verbose : Bool) (path : Path) (source : String) (parse : String → ParseOutcome) :
    (∃ lines result, r.Stops parse (.text source) result ∧
      r.plan verbose path (.text source) parse = { before := lines, result := result }) ∨
    ∃ errors issues check, r.Passes parse source errors issues ∧ found errors issues check ∧
      r.plan verbose path (.text source) parse = r.planScript verbose path source check := by
  simp only [plan, Plan.ofInput, checked]
  rcases asked : r.check with _ | _
  · exact .inr ⟨[], [], none, .unchecked asked, ⟨rfl, rfl⟩, rfl⟩
  rcases parsed : parse source with t | error
  · by_cases null : t = .null
    · subst null
      exact .inl ⟨_, _, .nullTree asked parsed, rfl⟩
    · have present : t.present? = some t := by
        cases t <;> first | rfl | exact absurd rfl null
      refine .inr ⟨t.listedErrors, t.issues, some ⟨some t, t.listedErrors, some t.issues⟩, .checked asked parsed null,
        ⟨rfl, rfl⟩, ?_⟩
      simp [Checked.ofOutcome, present]
  · rcases strict : r.strict with _ | _
    · exact .inl ⟨_, _, .noTree asked strict parsed, rfl⟩
    · exact .inl ⟨_, _, .parser asked strict parsed, rfl⟩

/-- A plan stops the run or writes the chunk. -/
theorem stops_or_writes (r : ConvertRequest) (verbose : Bool) (path : Path) (input : Input) (parse : String → ParseOutcome) :
    (∃ lines result, r.Stops parse input result ∧
      r.plan verbose path input parse = { before := lines, result := result }) ∨
    ∃ source errors issues check code, input = .text source ∧ r.Passes parse source errors issues ∧
      found errors issues check ∧ (transpile source).outcome = .ok code ∧
      r.plan verbose path input parse =
        { before := logLines verbose (transpile source)
          write := some ⟨r.target path, true, (r.chunk path code).source⟩
          after := debugLine verbose ("wrote " ++ (r.target path).text)
            ++ (check.map (checkLines path.text)).getD [] ++ scriptLines path.text (transpile source)
          result := .ok (if r.hasErrors check (transpile source) then 1 else 0) } := by
  rcases input with _ | _ | _ | source
  · exact .inl ⟨_, _, .missing, rfl⟩
  · exact .inl ⟨_, _, .unreadable, rfl⟩
  · exact .inl ⟨_, _, .undecodable, rfl⟩
  rcases r.stops_or_passes verbose path source parse with stopped | ⟨errors, issues, check, passes, finds, planned⟩
  · exact .inl stopped
  rcases outcome : (transpile source).outcome with failure | code
  · refine .inl ⟨logLines verbose (transpile source) ++ ["ERROR " ++ path.text ++ ": " ++ failure.message], _,
      .transpile passes outcome, ?_⟩
    rw [planned, planScript, outcome]
    rfl
  · refine .inr ⟨source, errors, issues, check, code, rfl, passes, finds, outcome, ?_⟩
    rw [planned, planScript, outcome]

end ConvertRequest

/-- The path of a file is refused: one of the directories it is in cannot be made, or the file cannot be written. -/
inductive FileTree.Refuses (files : FileTree) (path : Path) (content : String) : PathFault → Prop where
  | directories {fault : PathFault} {left : FileTree} : files.ensureDirectories path.parent = (.error fault, left) →
      Refuses files path content fault
  | file {fault : PathFault} {ready : FileTree} : files.ensureDirectories path.parent = (.ok (), ready) →
      ready.write path content = .error fault → Refuses files path content fault

theorem FileWrite.refuses {path : Path} {content : String} {files left : FileTree} {fault : PathFault}
    (refused : (FileWrite.mk path true content).perform files = (.error fault, left)) : files.Refuses path content fault := by
  simp only [perform, if_true] at refused
  rcases made : files.ensureDirectories path.parent with ⟨fault' | _, ready⟩ <;> rw [made] at refused
  · cases refused
    exact .directories made
  · rcases wrote : ready.write path content with fault' | after <;> simp only [FileTree.attempt, wrote] at refused
    · cases refused
      exact .file made wrote
    · cases refused

/-- However a conversion is asked for and whatever the parser makes of the script: a run that stops leaves the files as
they were; otherwise, unless the file system refuses the path, which touches no file, one file is written, and it is the
chunk of the code. The status is then one exactly if there are syntax errors or, in a strict run, anything to report,
and it is zero otherwise. The report has the syntax errors, the issues and the diagnostics in this order, behind
the log of a verbose run. -/
theorem convert_outcome (r : ConvertRequest) (verbose : Bool) (files : FileTree) (parse : String → ParseOutcome) :
    let path := (Path.ofText r.input).resolve files.start
    let out := (Request.convert r).run verbose files parse
    (r.Stops parse (files.read path) out.result ∧ out.files = files) ∨
    ∃ source errors issues code, files.read path = .text source ∧ r.Passes parse source errors issues ∧
      (transpile source).outcome = .ok code ∧
      ((∃ fault, files.Refuses (r.target path) (r.chunk path code).source fault ∧
          out.result = .error (.path fault) ∧ files.GrowsTo out.files) ∨
        (∃ place, out.files.place (r.target path) = .ok place ∧
          files.WritesFile out.files place (r.chunk path code).source) ∧
        (out.result = .ok 1 ∧ r.Failing errors issues (transpile source).diagnostics ∨
          out.result = .ok 0 ∧ ¬ r.Failing errors issues (transpile source).diagnostics) ∧
        ∃ log, (verbose = false → log = []) ∧ out.stderr =
          ofLines (log ++ ConvertRequest.reportLines path.text errors issues (transpile source).diagnostics)) := by
  intro path out
  have planned : out = (r.plan verbose path (files.read path) parse).carryOut files := rfl
  rcases r.stops_or_writes verbose path (files.read path) parse with
    ⟨lines, result, stops, plan⟩ | ⟨source, errors, issues, check, code, read, passes, finds, outcome, plan⟩
  · rw [planned, plan]
    exact .inl ⟨stops, rfl⟩
  refine .inr ⟨source, errors, issues, code, read, passes, outcome, ?_⟩
  rw [planned, plan, Plan.carryOut]
  have performed := FileWrite.perform_outcome ⟨r.target path, true, (r.chunk path code).source⟩ files
  rcases wrote : (FileWrite.mk (r.target path) true (r.chunk path code).source).perform files with ⟨fault | _, after⟩ <;>
    rw [wrote] at performed <;> dsimp only
  · exact .inl ⟨fault, FileWrite.refuses wrote, by rw [wrote], by rw [wrote]; exact performed⟩
  · rw [wrote]
    refine .inr ⟨performed, ?_, logLines verbose (transpile source) ++ debugLine verbose ("wrote " ++ (r.target path).text), ?_, ?_⟩
    · rw [← ConvertRequest.hasErrors_iff finds]
      rcases r.hasErrors check (transpile source) with _ | _
      · exact .inr ⟨rfl, Bool.false_ne_true⟩
      · exact .inl ⟨rfl, rfl⟩
    · rintro rfl
      rfl
    · rw [← ConvertRequest.reportLines_eq finds path.text (transpile source)]
      simp only [List.append_assoc]

/-! ### Converting a note -/

/-- In a strict run a query counts as failed if it is a block in trouble. -/
theorem QueryReport.failed_ofQuery (verbose : Bool) (path : Path) (q : QueryBlock) :
    (QueryReport.ofQuery true verbose path q).failed = true ↔ q.kind = .block ∧ q.Troubled := by
  unfold ofQuery QueryBlock.Troubled
  rcases kind : q.kind with _ | _
  · rcases outcome : (transpile q.source).outcome with failure | code
    · simp [outcome]
    · simp [outcome]
  · simp

/-- A plan that is carried out ends as planned, unless a path is refused. -/
theorem Plan.result_carryOut (p : Plan) (files : FileTree) :
    (p.carryOut files).result = p.result ∨ ∃ fault, (p.carryOut files).result = .error (.path fault) := by
  unfold carryOut
  split
  · exact .inl rfl
  · split
    · exact .inl rfl
    · exact .inr ⟨_, rfl⟩

theorem NoteRequest.result_planNote {r : NoteRequest} (strict : r.strict = true) (verbose : Bool) (path : Path)
    (markdown : String) :
    let blocks := ∃ q ∈ Note.queries markdown, q.kind = .block ∧ q.Troubled
    (r.planNote verbose path markdown).result = .ok 1 ∧ blocks ∨
      (r.planNote verbose path markdown).result = .ok 0 ∧ ¬ blocks := by
  intro blocks
  have any : ((Note.queries markdown).map (QueryReport.ofQuery r.strict verbose path)).any (·.failed) = true ↔ blocks := by
    simp only [strict, List.any_map, List.any_eq_true, Function.comp_apply, QueryReport.failed_ofQuery, blocks]
  have planned : (r.planNote verbose path markdown).result =
      .ok (if ((Note.queries markdown).map (QueryReport.ofQuery r.strict verbose path)).any (·.failed) then 1 else 0) := by
    unfold planNote
    split <;> rfl
  rw [planned]
  by_cases failed : ((Note.queries markdown).map (QueryReport.ofQuery r.strict verbose path)).any (·.failed) = true
  · rw [if_pos failed]
    exact .inl ⟨rfl, any.mp failed⟩
  · rw [if_neg failed]
    exact .inr ⟨rfl, fun troubled => failed (any.mpr troubled)⟩

/-- A query in trouble is a block or an inline expression. -/
theorem exists_troubled_iff (queries : List QueryBlock) :
    (∃ q ∈ queries, q.Troubled) ↔
      (∃ q ∈ queries, q.kind = .block ∧ q.Troubled) ∨ ∃ q ∈ queries, q.kind = .inline ∧ q.Troubled := by
  constructor
  · rintro ⟨q, mem, troubled⟩
    rcases kind : q.kind with _ | _
    · exact .inl ⟨q, mem, kind, troubled⟩
    · exact .inr ⟨q, mem, kind, troubled⟩
  · rintro (⟨q, mem, -, troubled⟩ | ⟨q, mem, -, troubled⟩)
    · exact ⟨q, mem, troubled⟩
    · exact ⟨q, mem, troubled⟩

/-- A strict run over a note fails exactly if one of its blocks is in trouble, unless the path of the output is refused.
So its status tells of every query exactly if no inline expression is in trouble without a block in trouble. -/
theorem note_strict_status (r : NoteRequest) (verbose : Bool) (files : FileTree) (parse : String → ParseOutcome)
    {markdown : String} (strict : r.strict = true)
    (read : files.read ((Path.ofText r.note).resolve files.start) = .text markdown) :
    let result := ((Request.note r).run verbose files parse).result
    let blocks := ∃ q ∈ Note.queries markdown, q.kind = .block ∧ q.Troubled
    let inlines := ∃ q ∈ Note.queries markdown, q.kind = .inline ∧ q.Troubled
    ((∃ fault, result = .error (.path fault)) ∨ result = .ok 1 ∧ blocks ∨ result = .ok 0 ∧ ¬ blocks) ∧
    ∀ status, result = .ok status →
      ((status ≠ 0 ↔ ∃ q ∈ Note.queries markdown, q.Troubled) ↔ (inlines → blocks)) := by
  intro result blocks inlines
  have ran : ((Request.note r).run verbose files parse) =
      (r.planNote verbose ((Path.ofText r.note).resolve files.start) markdown).carryOut files := by
    simp only [Request.run, Request.plan, Request.input, NoteRequest.plan, read, Plan.ofInput]
  have cases : (∃ fault, result = .error (.path fault)) ∨ result = .ok 1 ∧ blocks ∨ result = .ok 0 ∧ ¬ blocks := by
    rcases Plan.result_carryOut (r.planNote verbose ((Path.ofText r.note).resolve files.start) markdown) files with same | refused
    · have planned := r.result_planNote strict verbose ((Path.ofText r.note).resolve files.start) markdown
      rw [← same, ← ran] at planned
      exact .inr planned
    · rw [← ran] at refused
      exact .inl refused
  refine ⟨cases, fun status returned => ?_⟩
  rw [exists_troubled_iff]
  rw [returned] at cases
  rcases cases with ⟨fault, refused⟩ | ⟨one, troubled⟩ | ⟨zero, clean⟩
  · cases refused
  · cases one
    exact iff_of_true (iff_of_true Nat.one_ne_zero (.inl troubled)) fun _ => troubled
  · cases zero
    constructor
    · intro tells hidden
      exact absurd rfl (tells.mpr (.inr hidden))
    · intro shown
      exact iff_of_false (fun nonzero => nonzero rfl) (not_or.mpr ⟨clean, fun hidden => clean (shown hidden)⟩)

/-- A tree of files with one note. -/
def oneNote (markdown : String) : FileTree :=
  { start := ["work"], entries := [(["work"], .directory), (["work", "n.md"], .file (some markdown))] }

/-- A block in trouble behind an inline expression in trouble. -/
theorem note_strict_status_block :
    let files := oneNote "`$=f(`\n```dataviewjs\na ?? b\n```"
    let queries := [⟨.inline, "f(", 1⟩, ⟨.block, "a ?? b", 2⟩]
    let run := (Request.note ⟨"n.md", none, true⟩).run false files fun _ => .tree .null
    files.read ((Path.ofText "n.md").resolve files.start) = .text "`$=f(`\n```dataviewjs\na ?? b\n```" ∧
    Note.queries "`$=f(`\n```dataviewjs\na ?? b\n```" = queries ∧
    ∀ status, run.result = .ok status → ((status ≠ 0 ↔ ∃ q ∈ queries, q.Troubled) ↔
      ((∃ q ∈ queries, q.kind = .inline ∧ q.Troubled) → ∃ q ∈ queries, q.kind = .block ∧ q.Troubled)) := by
  intro files queries run
  have read : files.read ((Path.ofText "n.md").resolve files.start) = .text "`$=f(`\n```dataviewjs\na ?? b\n```" := by
    decide +kernel
  have found : Note.queries "`$=f(`\n```dataviewjs\na ?? b\n```" = queries := by decide +kernel
  have status := (note_strict_status ⟨"n.md", none, true⟩ false files (fun _ => .tree .null) rfl read).2
  rw [found] at status
  exact ⟨read, found, status⟩

/-- An inline expression with a diagnostic: the strict run does not tell. -/
theorem note_strict_passes_inline :
    ((Request.note ⟨"n.md", none, true⟩).run false (oneNote "`$=a ?? b`\n") fun _ => .tree .null).result.toOption = some 0 ∧
    Note.queries "`$=a ?? b`\n" = [⟨.inline, "a ?? b", 1⟩] ∧ (transpile "a ?? b").diagnostics ≠ [] := by
  decide +kernel

end Command

end NoteScript

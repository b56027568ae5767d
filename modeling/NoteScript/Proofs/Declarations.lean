import Mathlib.Data.List.Chain
import NoteScript.Proofs.Sentence

/-!
# Lists of declared names

A declaration has any number of names, each with a value or without one. A name with a value is declared on its own, where the
names in front of it are known, and a run of names without values is declared at once.

* `Declarator`, `Declaration`: such lists as trees, with their tokens.
* `Clause`: one declaration of the translation; `IsGrouping`: clauses that have the names of a list in their order, with every run
  of bare names in one clause.
* `takes_declareUpTo`: what the rule does on a list, by induction on its names.
* `convertTokens_declaration`: a script of one declaration is translated clause by clause.
-/

namespace NoteScript

open Edit Buffer Token

/-! ### Trees -/

/-- A name with a value, or a bare one. -/
structure Declarator where
  name : Name
  value? : Option (Expr .argument)

namespace Declarator

/-- The spelling of a declarator: `x` or `x = a`. -/
def tokens : Declarator → List Token
  | ⟨x, none⟩ => [.word x.text]
  | ⟨x, some a⟩ => .word x.text :: .blank :: .sign "=" :: .blank :: a.tokens

/-- Declarators with commas between them. -/
def listTokens : List Declarator → List Token
  | [] => []
  | [x] => x.tokens
  | x :: y :: rest => x.tokens ++ .mark "," :: .blank :: listTokens (y :: rest)

/-- The depth of the rules that the value of a declarator needs. -/
def Within (d : Nat) (x : Declarator) : Prop := ∀ a ∈ x.value?, a.depth ≤ d

theorem tokens_eq_cons (x : Declarator) : ∃ ts, x.tokens = .word x.name.text :: ts := by
  obtain ⟨name, _ | a⟩ := x
  · exact ⟨_, rfl⟩
  · exact ⟨_, rfl⟩

theorem listTokens_eq_cons (x : Declarator) (rest : List Declarator) :
    ∃ ts, listTokens (x :: rest) = .word x.name.text :: ts := by
  obtain ⟨ts, shape⟩ := x.tokens_eq_cons
  cases rest with
  | nil => exact ⟨ts, shape⟩
  | cons y rest => exact ⟨_, by rw [listTokens, shape, List.cons_append]⟩

end Declarator

/-- A declaration: its word and its declarators. -/
structure Declaration where
  word : String
  known : word ∈ Rules.declarationWords
  first : Declarator
  others : List Declarator

namespace Declaration

def declarators (s : Declaration) : List Declarator := s.first :: s.others

theorem nonempty (s : Declaration) : s.declarators ≠ [] := List.cons_ne_nil _ _

/-- The spelling of a declaration, with its semicolon. -/
def tokens (s : Declaration) : List Token := .word s.word :: .blank :: (Declarator.listTokens s.declarators ++ [.mark ";"])

end Declaration

/-! ### Clauses -/

/-- One declaration of the translation. -/
inductive Clause where
  | value (x : Name) (a : Expr .argument)
  | bare (x : Name) (xs : List Name)

namespace Clause

def isBare : Clause → Bool
  | value _ _ => false
  | bare _ _ => true

/-- The declarators that a clause declares. -/
def declarators : Clause → List Declarator
  | value x a => [⟨x, some a⟩]
  | bare x xs => (x :: xs).map fun y => ⟨y, none⟩

/-- A clause in Lua. -/
def lua : Clause → String
  | value x a => "local " ++ x.text ++ " = " ++ a.lua
  | bare x xs => "local " ++ String.intercalate ", " ((x :: xs).map (·.text))

/-- The entries written for clauses, with a text in front of the first. -/
def written (separator : String) : List Clause → Buffer
  | [] => []
  | value x a :: rest => [separator ++ "local " ++ x.text ++ " = "] ++ a.written ++ written "; " rest
  | bare x xs :: rest => [separator ++ "local " ++ String.intercalate ", " ((x :: xs).map (·.text))] ++ written "; " rest

theorem text_written_cons (separator : String) (c : Clause) (rest : List Clause) :
    Buffer.text (written separator (c :: rest)) = separator ++ c.lua ++ Buffer.text (written "; " rest) := by
  cases c with
  | value x a =>
    rw [written, text_append, text_append, text_singleton, a.text_written]
    simp only [lua, String.append_assoc]
  | bare x xs =>
    rw [written, text_append, text_singleton]
    simp only [lua, String.append_assoc]

theorem text_written (separator : String) (c : Clause) (rest : List Clause) :
    Buffer.text (written separator (c :: rest)) = separator ++ String.intercalate "; " ((c :: rest).map lua) := by
  induction rest generalizing separator c with
  | nil =>
    rw [text_written_cons, written, List.map_singleton, String.intercalate_singleton]
    exact String.append_empty
  | cons c' rest ih =>
    rw [text_written_cons, ih]
    simp only [List.map_cons, String.intercalate_cons_cons, String.append_assoc]

/-- Names without values, if there are any. -/
def ofNames : List Name → List Clause
  | [] => []
  | x :: xs => [bare x xs]

theorem written_ofNames (separator : String) {names : List Name} (nonempty : names ≠ []) :
    written separator (ofNames names) = [separator ++ "local " ++ String.intercalate ", " (names.map (·.text))] := by
  obtain ⟨x, xs, rfl⟩ := List.exists_cons_of_ne_nil nonempty
  rfl

theorem written_append_ofNames (separator : String) (names : List Name) (clauses : List Clause) :
    written separator (ofNames names ++ clauses) =
      written separator (ofNames names) ++ written (if names.isEmpty then separator else "; ") clauses := by
  cases names <;> rfl

/-- The clauses of declarators, behind some bare names. -/
def group (names : List Name) : List Declarator → List Clause
  | [] => ofNames names
  | ⟨x, none⟩ :: rest => group (names ++ [x]) rest
  | ⟨x, some a⟩ :: rest => ofNames names ++ value x a :: group [] rest

end Clause

/-- Clauses that declare the names of a list, each once and in their order; two clauses of bare names are never neighbours. -/
structure IsGrouping (xs : List Declarator) (clauses : List Clause) : Prop where
  order : clauses.flatMap Clause.declarators = xs
  maximal : clauses.IsChain fun c c' => ¬(c.isBare = true ∧ c'.isBare = true)

namespace Clause

theorem flatMap_ofNames (names : List Name) : (ofNames names).flatMap declarators = names.map fun y => ⟨y, none⟩ := by
  cases names with
  | nil => rfl
  | cons x xs => exact List.flatMap_singleton _ _

theorem flatMap_group (names : List Name) (xs : List Declarator) :
    (group names xs).flatMap declarators = (names.map fun y => ⟨y, none⟩) ++ xs := by
  induction xs generalizing names with
  | nil => rw [group, flatMap_ofNames, List.append_nil]
  | cons x xs ih =>
    obtain ⟨x, _ | a⟩ := x
    · rw [group, ih, List.map_append, List.append_assoc]
      rfl
    · rw [group, List.flatMap_append, flatMap_ofNames, List.flatMap_cons, ih]
      rfl

/-- A clause of bare names takes all of them, so what follows it has a value. -/
theorem isChain_group (names : List Name) (xs : List Declarator) :
    (group names xs).IsChain fun c c' => ¬(c.isBare = true ∧ c'.isBare = true) := by
  induction xs generalizing names with
  | nil =>
    cases names with
    | nil => exact .nil
    | cons x xs => exact .singleton _
  | cons x xs ih =>
    obtain ⟨x, _ | a⟩ := x
    · exact ih (names ++ [x])
    · have behind : (value x a :: group [] xs).IsChain fun c c' => ¬(c.isBare = true ∧ c'.isBare = true) :=
        List.isChain_cons.mpr ⟨fun c' _ both => absurd both.1 Bool.false_ne_true, ih []⟩
      rw [group]
      cases names with
      | nil => exact behind
      | cons y ys => exact .cons_cons (fun both => absurd both.2 Bool.false_ne_true) behind

theorem isGrouping_group (xs : List Declarator) : IsGrouping xs (group [] xs) := ⟨flatMap_group [] xs, isChain_group [] xs⟩

end Clause

/-! ### Values -/

section Value

variable {before rest : List Token} {out : Buffer} {loops : LoopState}

/-- A value is read up to what ends it, wherever an operand may begin. -/
theorem Expr.reads_argument (a : Expr .argument) {t : Token} (ends : t ∈ [.eof, .mark ",", .mark ";"]) (ready : Ready true out)
    (ready' : Ready false out) : Reads 0 a.depth a.tokens (t :: rest) out (out ++ a.written) := by
  have terminals : ∀ t ∈ [Token.eof, .mark ",", .mark ";"], Terminal t ∧ t ≠ .mark ":" := by decide
  obtain ⟨terminal, other⟩ := terminals t ends
  cases a with
  | value e => exact ExpressionRuns.reads e.runs ready ready' terminal rest
  | arrow params e => exact reads_arrow params e.runs terminal other

theorem Expr.head_solid (a : Expr .argument) (rest : List Token) : (a.tokens ++ rest).head?.all (!·.isTrivia) = true := by
  obtain ⟨t, ts, shape, begins⟩ := a.head_tokens rfl
  rw [shape]
  exact congrArg (!·) begins.not_new.2

/-- A value alone is translated as a tree. -/
theorem Expr.convertTokens_argument (a : Expr .argument) (ledger : Ledger) :
    ∃ ledger', convertTokens (tokenize (sourceText a.tokens)) ledger = (.ok a.lua, ledger') ∧
      ledger'.diagnostics = ledger.diagnostics ∧ ledger'.labels = ledger.labels := by
  obtain ⟨t, ts, shape, begins⟩ := a.head_tokens rfl
  have enough : a.depth ≤ 2 * textSize (a.tokens ++ [Token.eof]) + 1 := by
    have depth := a.depth_le
    have size := length_le_textSize (a.legible false)
    rw [textSize_append]
    omega
  have reads : Reads 0 a.depth a.tokens (ending false ++ [Token.eof]) [] ([] ++ a.written) :=
    a.reads_argument (by decide) (.nil true) (.nil false)
  have taken := reads.takes_ending enough (.inr rfl) false [] ⟨ledger.labels, []⟩
  have first : t.isEof = false ∧ t.isPunct ["\x7d"] = false := by cases begins <;> exact ⟨rfl, rfl⟩
  have run : Statements (Rules.within (2 * textSize (a.tokens ++ [Token.eof]) + 2))
      ⟨[], a.tokens ++ [Token.eof], [], ledger.labels, []⟩ ⟨a.tokens.reverse ++ [], [Token.eof], [] ++ a.written, ledger.labels, []⟩ := by
    refine .step a.tokens (by rw [shape]; exact first.1) (by rw [shape]; exact first.2) ?_ rfl rfl (by simp [shape]) .done
    rw [shape] at taken ⊢
    exact begins.takes_anyStatement taken
  have converted := run.convertTokens_readBack (.of_legible a.legible)
  rwa [List.nil_append, a.text_written] at converted

end Value

/-! ### What the rule does -/

namespace Rules

variable {r : Rules} {limit : Nat} {separator x y : String} {names : List String} {before ts rest : List Token} {out : Buffer}
  {loops : LoopState} {s' : Spot}

theorem takes_bareLast : Takes (r.declareUpTo (limit + 1) separator names) ⟨before, .word x :: .mark ";" :: rest, out, loops⟩ ()
      ⟨.mark ";" :: .word x :: before, rest, out ++ [separator ++ "local " ++ String.intercalate ", " (names ++ [x])], loops⟩ := by
  refine (Takes.next _).bind ((Takes.skipSpace [] rfl rfl).bind (Takes.cursor.bind ?_))
  have some' : (names ++ [x]).isEmpty = false := by simp
  change Takes (endDeclaration separator (names ++ [x])) _ () _
  rw [endDeclaration, declareBare, some']
  exact (Takes.emit _).bind (.skipPunct_pos rfl)

theorem takes_bareMore (further : Takes (r.declareUpTo limit separator (names ++ [x]))
      ⟨.blank :: .mark "," :: .word x :: before, .word y :: ts, out, loops⟩ () s') :
    Takes (r.declareUpTo (limit + 1) separator names)
      ⟨before, .word x :: .mark "," :: .blank :: .word y :: ts, out, loops⟩ () s' := by
  refine (Takes.next _).bind ((Takes.skipSpace [] rfl rfl).bind (Takes.cursor.bind ?_))
  exact (Takes.skip [.mark ",", .blank]).bind further

/-- Bare names that have waited are declared in front of a value. -/
theorem takes_declareBare (separator : String) (xs : List Name) :
    Takes (declareBare separator (xs.map (·.text))) ⟨before, rest, out, loops⟩ ()
      ⟨before, rest, out ++ Clause.written separator (Clause.ofNames xs), loops⟩ := by
  cases xs with
  | nil =>
    rw [Clause.ofNames, Clause.written, List.append_nil]
    exact .pure ()
  | cons y ys => exact .emit _

/-- The value of a declared name, behind the text that declares the name. -/
theorem reads_declared (a : Expr .argument) (starts : separator ∈ ["", "; "]) (x : String) {t : Token}
    (ends : t ∈ [.mark ",", .mark ";"]) :
    Reads 0 a.depth a.tokens (t :: rest) (out ++ [separator ++ "local " ++ x ++ " = "])
      (out ++ ([separator ++ "local " ++ x ++ " = "] ++ a.written)) := by
  have boundary : ∀ operatorsEnd, isBoundary operatorsEnd (separator ++ "local " ++ x ++ " = ") = true := by
    intro operatorsEnd
    have solid : ∀ separator ∈ ["", "; "], Text.startsSolid (separator ++ "local ") = true := by decide
    exact Lead.isBoundary_assigned operatorsEnd (Text.startsSolid_append (solid separator starts) x)
  rw [← List.append_assoc]
  exact a.reads_argument (List.mem_cons_of_mem _ ends) (.stop out (.inl (boundary true))) (.stop out (.inl (boundary false)))

theorem separator_mem (starts : separator ∈ ["", "; "]) (xs : List Name) :
    (if xs.isEmpty then separator else "; ") ∈ ["", "; "] := by
  cases xs with
  | nil => exact starts
  | cons => exact List.mem_cons_of_mem _ List.mem_cons_self

/-- A name with a value, given what is done with what ends the value and behind it. -/
theorem takes_clause (a : Expr .argument) {d : Nat} (enough : a.depth ≤ d) (starts : separator ∈ ["", "; "]) (xs : List Name)
    {t : Token} (ends : t ∈ [.mark ",", .mark ";"]) {s : Spot}
    (closes : Takes (skipPunct ";")
      ⟨a.tokens.reverse ++ Token.blank :: .sign "=" :: .blank :: .word x :: before, t :: rest,
        out ++ Clause.written separator (Clause.ofNames xs) ++
          ([(if xs.isEmpty then separator else "; ") ++ "local " ++ x ++ " = "] ++ a.written), loops⟩ () s)
    (behind : Takes ((Rules.within d).declareBehind limit) s () s') :
    Takes ((Rules.within d).declareUpTo (limit + 1) separator (xs.map (·.text)))
      ⟨before, .word x :: .blank :: .sign "=" :: .blank :: (a.tokens ++ t :: rest), out, loops⟩ () s' := by
  have stops : ∀ t ∈ [Token.mark ",", .mark ";"], ∀ before rest, endsStatement true ⟨before, t :: rest, 0⟩ = true := by
    simp only [List.mem_cons, List.not_mem_nil, or_false]
    rintro t (rfl | rfl) before rest <;> rfl
  obtain ⟨u, us, shape, begins⟩ := a.head_tokens rfl
  have value : Takes ((Rules.within d).expressionStatement true) _ () s :=
    (((reads_declared a (separator_mem starts xs) x ends).walk enough (calm_endsStatement true)).takes_units
      (.inr (stops t ends _ _))).bind closes
  rw [shape] at value ⊢
  refine takes_valued begins.not_new.2 (takes_declareBare separator xs) ?_ behind
  rw [List.isEmpty_map]
  exact takes_declareValue begins.not_new.1 value

/-- Behind a comma the next name is declared. -/
theorem takes_declareMore (further : Takes (r.declareUpTo limit "; " []) ⟨.blank :: .mark "," :: before, .word y :: ts, out, loops⟩ ()
      s') :
    Takes (r.declareBehind limit) ⟨before, .mark "," :: .blank :: .word y :: ts, out, loops⟩ () s' :=
  Takes.cursor.bind ((Takes.skip [.mark ",", .blank]).bind further)

/-- The rule takes the declarators of a list and writes their clauses. -/
theorem takes_declareUpTo {d : Nat} {xs : List Declarator} (nonempty : xs ≠ []) (enough : ∀ x ∈ xs, x.Within d) {limit : Nat}
    (below : xs.length ≤ limit) (single : (rest.headD .eof).isPunct [","] = false) {separator : String}
    (starts : separator ∈ ["", "; "]) (names : List Name) {before : List Token} {out : Buffer} :
    Takes ((Rules.within d).declareUpTo limit separator (names.map (·.text)))
      ⟨before, Declarator.listTokens xs ++ Token.mark ";" :: rest, out, loops⟩ ()
      ⟨.mark ";" :: ((Declarator.listTokens xs).reverse ++ before), rest,
        out ++ Clause.written separator (Clause.group names xs), loops⟩ := by
  induction xs generalizing limit separator names before out with
  | nil => exact absurd rfl nonempty
  | cons x tail ih =>
    obtain ⟨first, later⟩ := List.forall_mem_cons.mp enough
    obtain ⟨limit, rfl⟩ : ∃ limit', limit = limit' + 1 := ⟨limit - 1, by simp at below; omega⟩
    have below' : tail.length ≤ limit := by simpa using below
    obtain ⟨x, _ | a⟩ := x
    · rw [Clause.group]
      cases tail with
      | nil =>
        rw [Clause.group, Clause.written_ofNames _ (by simp), List.map_append]
        exact takes_bareLast
      | cons y tail =>
        obtain ⟨ts, shape⟩ := Declarator.listTokens_eq_cons y tail
        have further := @ih (List.cons_ne_nil _ _) later limit below' separator starts (names ++ [x])
          (.blank :: .mark "," :: .word x.text :: before) out
        rw [List.map_append, shape] at further
        simpa [Declarator.listTokens, Declarator.tokens, shape] using takes_bareMore further
    · rw [Clause.group, Clause.written_append_ofNames, Clause.written]
      cases tail with
      | nil =>
        simpa [Declarator.listTokens, Declarator.tokens, Clause.group, Clause.ofNames, Clause.written] using
          takes_clause a (first a rfl) starts names (by decide) (.skipPunct_pos rfl) (takes_declareBehind single)
      | cons y tail =>
        obtain ⟨ts, shape⟩ := Declarator.listTokens_eq_cons y tail
        have further := @ih (List.cons_ne_nil _ _) later limit below' "; " (by decide) []
          (.blank :: .mark "," :: (a.tokens.reverse ++ Token.blank :: .sign "=" :: .blank :: .word x.text :: before))
          (out ++ Clause.written separator (Clause.ofNames names) ++
            ([(if names.isEmpty then separator else "; ") ++ "local " ++ x.text ++ " = "] ++ a.written))
        rw [shape] at further
        simpa [Declarator.listTokens, Declarator.tokens, shape] using
          takes_clause a (first a rfl) starts names (by decide) (.skipPunct_neg rfl) (takes_declareMore further)

end Rules

/-! ### Declarations -/

namespace Declarator

theorem length_le (xs : List Declarator) : xs.length ≤ (listTokens xs).length := by
  have own : ∀ x : Declarator, 1 ≤ x.tokens.length := by
    intro x
    obtain ⟨ts, shape⟩ := x.tokens_eq_cons
    simp [shape]
  induction xs with
  | nil => exact Nat.le_refl 0
  | cons x tail ih =>
    have := own x
    cases tail with
    | nil => simpa [listTokens] using this
    | cons y tail =>
      simp only [listTokens, List.length_append, List.length_cons] at ih ⊢
      omega

theorem depth_within {xs : List Declarator} {d : Nat} (enough : (listTokens xs).length + 1 ≤ d) : ∀ x ∈ xs, x.Within d := by
  have own : ∀ (x : Declarator), x.Within (x.tokens.length + 1) := by
    rintro ⟨x, _ | a⟩ b found
    · cases found
    · cases found
      have := a.depth_le
      simp only [tokens, List.length_cons]
      omega
  have part : ∀ x ∈ xs, x.tokens.length ≤ (listTokens xs).length := by
    clear enough
    induction xs with
    | nil => simp
    | cons x tail ih =>
      cases tail with
      | nil => simp [listTokens]
      | cons y tail =>
        rw [List.forall_mem_cons]
        refine ⟨by simp [listTokens], fun z mem => (ih z mem).trans ?_⟩
        simp only [listTokens, List.length_append, List.length_cons]
        omega
  intro x mem a found
  have := own x a found
  have := part x mem
  omega

theorem legible (x : Declarator) {m : String} (readable : Readable false (.mark m) = true) {rest : List Token}
    (h : AlwaysLegible rest) : AlwaysLegible (x.tokens ++ Token.mark m :: rest) := by
  obtain ⟨x, _ | a⟩ := x
  · exact (h.mark m readable).word x.text x.isName rfl
  · have value : AlwaysLegible (.blank :: (a.tokens ++ Token.mark m :: rest)) :=
      (a.legible.before_mark h m readable).blank (a.head_solid _)
    exact value.equals.word x.text x.isName rfl

theorem legible_listTokens {xs : List Declarator} (nonempty : xs ≠ []) {rest : List Token} (h : AlwaysLegible rest) :
    AlwaysLegible (listTokens xs ++ Token.mark ";" :: rest) := by
  induction xs with
  | nil => exact absurd rfl nonempty
  | cons x tail ih =>
    cases tail with
    | nil => exact x.legible rfl h
    | cons y tail =>
      have further := ih (List.cons_ne_nil _ _)
      have solid : (listTokens (y :: tail) ++ Token.mark ";" :: rest).head?.all (!·.isTrivia) = true := by
        obtain ⟨ts, shape⟩ := listTokens_eq_cons y tail
        rw [shape]
        rfl
      simpa [listTokens] using x.legible rfl (further.blank solid)

end Declarator

namespace Declaration

theorem legible (s : Declaration) : AlwaysLegible s.tokens := by
  obtain ⟨ts, shape⟩ := Declarator.listTokens_eq_cons s.first s.others
  have list : AlwaysLegible (Declarator.listTokens s.declarators ++ [Token.mark ";"]) :=
    Declarator.legible_listTokens s.nonempty alwaysLegible_nil
  refine (list.blank ?_).word s.word (Rules.isName_declarationWords s.word s.known) rfl
  rw [declarators, shape]
  rfl

/-- The clauses of the translation. -/
def clauses (s : Declaration) : List Clause := Clause.group [] s.declarators

/-- The translation of a declaration. -/
def lua (s : Declaration) : String := String.intercalate "; " (s.clauses.map Clause.lua)

theorem text_written (s : Declaration) : Buffer.text (Clause.written "" s.clauses) = s.lua := by
  have nonempty : s.clauses ≠ [] := by
    intro empty
    have order := Clause.flatMap_group [] s.declarators
    rw [← clauses, empty] at order
    cases order
  obtain ⟨c, rest, shape⟩ := List.exists_cons_of_ne_nil nonempty
  rw [lua, shape, Clause.text_written, String.empty_append]

/-- The rule for statements takes a declaration with its semicolon and writes its clauses. -/
theorem takes_statement (s : Declaration) {d : Nat} (enough : s.tokens.length ≤ d) {before rest : List Token} {out : Buffer}
    {loops : LoopState} (single : (rest.headD .eof).isPunct [","] = false) :
    Takes (Rules.within (d + 1)).statement ⟨before, s.tokens ++ rest, out, loops⟩ ()
      ⟨s.tokens.reverse ++ before, rest, out ++ Clause.written "" s.clauses, loops⟩ := by
  change Takes (Rules.within d).anyStatement _ () _
  obtain ⟨ts, shape⟩ : ∃ ts, Declarator.listTokens s.declarators = .word s.first.name.text :: ts :=
    Declarator.listTokens_eq_cons s.first s.others
  have size : (Declarator.listTokens s.declarators).length + 3 = s.tokens.length := by
    simp only [tokens, List.length_cons, List.length_append, List.length_nil]
  have below : s.declarators.length ≤ (Declarator.listTokens s.declarators ++ Token.mark ";" :: rest).length := by
    have := Declarator.length_le s.declarators
    rw [List.length_append]
    omega
  have list : Takes ((Rules.within d).declareUpTo _ "" [])
      ⟨.blank :: .word s.word :: before, Declarator.listTokens s.declarators ++ Token.mark ";" :: rest, out, loops⟩ () _ :=
    Rules.takes_declareUpTo s.nonempty (Declarator.depth_within (by omega)) below single (by decide) []
  have taken : Takes (Rules.within d).anyStatement
      ⟨before, .word s.word :: .blank :: (Declarator.listTokens s.declarators ++ Token.mark ";" :: rest), out, loops⟩ ()
      ⟨.mark ";" :: ((Declarator.listTokens s.declarators).reverse ++ Token.blank :: .word s.word :: before), rest,
        out ++ Clause.written "" s.clauses, loops⟩ := by
    refine Rules.takes_keyword (Rules.keyword?_declaration _ s.known) ((Takes.skip_one _).bind ?_)
    rw [shape] at list ⊢
    exact (Takes.skipTrivia [.blank] rfl rfl).bind (Takes.cursor.bind list)
  simpa [tokens] using taken

end Declaration

/-- A declaration is translated clause by clause, with semicolons between the clauses: they declare the names in their order, a name
with a value on its own and with the translation of the value alone, and bare names in runs that are as long as they can be. There
is nothing to report, and wherever the declaration stands the cursor is left behind its semicolon. -/
theorem convertTokens_declaration (s : Declaration) :
    IsGrouping s.declarators s.clauses ∧
    (∀ ledger, ∃ ledger', convertTokens (tokenize (sourceText s.tokens)) ledger = (.ok s.lua, ledger') ∧
      ledger'.diagnostics = ledger.diagnostics ∧ ledger'.labels = ledger.labels) ∧
    (∀ x a, .value x a ∈ s.clauses → ∀ ledger, ∃ ledger',
      convertTokens (tokenize (sourceText a.tokens)) ledger = (.ok a.lua, ledger') ∧
        ledger'.diagnostics = ledger.diagnostics ∧ ledger'.labels = ledger.labels) ∧
    ∀ d before rest out loops, s.tokens.length ≤ d → (rest.headD .eof).isPunct [","] = false →
      ∃ written, Buffer.text written = s.lua ∧
        Takes (Rules.within (d + 1)).statement ⟨before, s.tokens ++ rest, out, loops⟩ ()
          ⟨s.tokens.reverse ++ before, rest, out ++ written, loops⟩ := by
  refine ⟨Clause.isGrouping_group s.declarators, fun ledger => ?_, fun x a _ => a.convertTokens_argument,
    fun d before rest out loops enough single => ⟨_, s.text_written, s.takes_statement enough single⟩⟩
  have enough : s.tokens.length ≤ 2 * textSize (s.tokens ++ [Token.eof]) + 1 := by
    have size := length_le_textSize (s.legible false)
    rw [textSize_append]
    omega
  have run : Statements (Rules.within (2 * textSize (s.tokens ++ [Token.eof]) + 2))
      ⟨[], s.tokens ++ [Token.eof], [], ledger.labels, []⟩ ⟨_, [Token.eof], _, ledger.labels, []⟩ :=
    .step s.tokens rfl rfl (s.takes_statement enough rfl) rfl rfl (List.cons_ne_nil _ _) .done
  have converted := run.convertTokens_readBack (.of_legible s.legible)
  rwa [List.nil_append, s.text_written] at converted

/-- Bare names on both sides of a name with a value. -/
theorem convertTokens_declaration_mixed :
    ∃ ledger', convertTokens (tokenize "let a, b, c = d ? 1 : 2, e;") {} =
      (.ok "local a, b; local c = (function() if d then return 1 else return 2 end end)(); local e", ledger') ∧
      ledger'.diagnostics = [] := by
  obtain ⟨ledger', converted, reported, -⟩ := (convertTokens_declaration
    { word := "let"
      known := by decide
      first := ⟨⟨"a", by decide, by decide⟩, none⟩
      others := [⟨⟨"b", by decide, by decide⟩, none⟩,
        ⟨⟨"c", by decide, by decide⟩, some (.value (.choice (.operand (.name ⟨"d", by decide, by decide⟩))
          (.plain (.number ⟨"1", by decide, by decide⟩)) (.plain (.number ⟨"2", by decide, by decide⟩))))⟩,
        ⟨⟨"e", by decide, by decide⟩, none⟩] }).2.1 {}
  exact ⟨ledger', converted, reported⟩

end NoteScript

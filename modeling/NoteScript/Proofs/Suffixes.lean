import NoteScript.Proofs.Expression
import NoteScript.Proofs.Units

/-!
# The course of units with rules inside

What a unit does that takes back an operand, or works on tokens of its own: members and method calls,
indices, conditionals and arrow functions. Each lemma asks for what the rules inside do and says nothing
about how they do it.
-/

namespace NoteScript

open Edit Buffer Token

/-- The rule that takes the calls of a method with one argument. -/
def UnaryMethod.method : UnaryMethod → Method
  | .push => .push
  | .join => .join
  | .includes => .includes
  | .startsWith => .startsWith
  | .endsWith => .endsWith

namespace Rules

variable {r : Rules} {s' : Spot} {before before' rest rest' : List Token} {out out' : Buffer} {loops loops' : LoopState}
variable {operand name : String} {left : Buffer}

/-! ### Members -/

/-- A member does the same behind the name of a map and elsewhere, unless it asks for the size. -/
theorem takes_afterMapName {α : Type} {f : Bool → Edit α} {s : Spot} {x : α} (either : ∀ found, Takes (f found) s x s') :
    Takes (afterMapName >>= f) s x s' := by
  intro d start journal
  have looked : afterMapName (d.put s start journal) = (.ok (d.mapNames.contains s.out.lastWritten), d.put s start journal) := rfl
  obtain ⟨start', journal', run⟩ := either _ d start journal
  exact ⟨start', journal', by rw [bind_ok looked, run]⟩

/-- A unit that starts with a point is the member behind it. -/
theorem takes_point (taken : Takes r.member ⟨.sign "." :: before, rest, out, loops⟩ () s') :
    Takes r.unit ⟨before, .sign "." :: rest, out, loops⟩ () s' :=
  Takes.cursor.bind (Takes.cursor.bind (Takes.cursor.bind ((Takes.skip_one _).bind taken)))

theorem takes_length (taken : out.takeOperand true = (operand, left)) :
    Takes r.unit ⟨before, .sign "." :: .word "length" :: rest, out, loops⟩ ()
      ⟨.word "length" :: .sign "." :: before, rest, left ++ [Expr.lengthText operand], loops⟩ := by
  refine takes_point ((Takes.skipTrivia [] rfl rfl).bind (Takes.cursor.bind ?_))
  exact (Takes.skip_one _).bind ((Takes.takeOperand taken).bind (.emit _))

/-- What a member does, the length and the size of something apart. -/
def memberCall (r : Rules) (name : String) (called : Bool) : Edit Unit := match if called then Method.ofName? name else none with
  | some method => do
    skip 1
    skipTrivia
    r.call method name
  | none => do
    skip 1
    emit ("." ++ name)

theorem takes_member (other : name ∉ ["length", "size"]) (taken : Takes (r.memberCall name ((following rest).isPunct ["("]))
      ⟨.sign "." :: before, .word name :: rest, out, loops⟩ () s') :
    Takes r.unit ⟨before, .sign "." :: .word name :: rest, out, loops⟩ () s' := by
  simp only [List.mem_cons, List.not_mem_nil, or_false, not_or] at other
  refine takes_point ((Takes.skipTrivia [] rfl rfl).bind (Takes.cursor.bind ?_))
  change Takes (if !true then _ else if name == "length" then _ else afterMapName >>= fun found =>
    if name == "size" && found then _ else r.memberCall name ((following rest).isPunct ["("])) _ () s'
  rw [if_neg (by simp), if_neg (by simp [other.1])]
  refine takes_afterMapName fun found => ?_
  rw [if_neg (by simp [other.2])]
  exact taken

/-- A member that no rule knows, or that is not called, is written as it is. -/
theorem takes_field (other : name ∉ ["length", "size"])
    (plain : Method.ofName? name = none ∨ (following rest).isPunct ["("] = false) :
    Takes r.unit ⟨before, .sign "." :: .word name :: rest, out, loops⟩ ()
      ⟨.word name :: .sign "." :: before, rest, out ++ ["." ++ name], loops⟩ := by
  refine takes_member other ?_
  have noMethod : (if (following rest).isPunct ["("] = true then Method.ofName? name else none) = none := by
    rcases plain with unknown | apart
    · rw [unknown, ite_self]
    · rw [apart]
      rfl
  rw [memberCall, noMethod]
  exact (Takes.skip_one _).bind (.emit _)

/-- The call of a method is left to the rule for it. -/
theorem takes_method (method : Method) (other : name ∉ ["length", "size"]) (known : Method.ofName? name = some method)
    (taken : Takes (r.call method name) ⟨.word name :: .sign "." :: before, .mark "(" :: rest, out, loops⟩ () s') :
    Takes r.unit ⟨before, .sign "." :: .word name :: .mark "(" :: rest, out, loops⟩ () s' := by
  have called : (following (.mark "(" :: rest)).isPunct ["("] = true := rfl
  refine takes_member other ?_
  rw [memberCall, called, if_pos rfl, known]
  exact (Takes.skip_one _).bind ((Takes.skipTrivia [] rfl rfl).bind taken)

/-! ### Method calls -/

/-- The methods of query collections keep their arguments in place. -/
theorem takes_link (m : Link) : Takes r.unit ⟨before, .sign "." :: .word m.name :: .mark "(" :: rest, out, loops⟩ ()
      ⟨.word m.name :: .sign "." :: before, .mark "(" :: rest, out ++ [":" ++ m.lua], loops⟩ := by
  have other : ∀ name ∈ "filter" :: Method.chained, name ∉ ["length", "size"] := by decide
  by_cases filter : m.name = "filter"
  · have spelled : ":" ++ m.lua = ":where" := by
      rw [Link.lua, if_pos filter]
      rfl
    rw [spelled]
    exact takes_method .filter (other m.name m.known) (by rw [filter]; decide) (.emit ":where")
  · have chained : ∀ name ∈ Method.chained, Method.ofName? name = some .chain := by decide
    have mem : m.name ∈ Method.chained := (List.mem_cons.mp m.known).resolve_left filter
    have spelled : m.lua = m.name := if_neg filter
    rw [spelled]
    exact takes_method .chain (other m.name m.known) (chained m.name mem) (.emit _)

/-- A call with one argument takes the receiver back and is written around it. -/
theorem takes_unaryCall (m : UnaryMethod) {inside : List Token} {value : String}
    (closed : Cursor.Closed "(" ")" inside) (single : splitOn "," inside = [inside]) (content : hasContent inside = true)
    (valued : ∀ before rest out, Takes (r.value inside) ⟨before, rest, out, loops⟩ value ⟨before, rest, out, loops⟩)
    (nonempty : value ≠ "") (taken : out.takeOperand true = (operand, left)) :
    Takes r.unit ⟨before, .sign "." :: .word m.name :: .mark "(" :: (inside ++ Token.mark ")" :: rest), out, loops⟩ ()
      ⟨.mark ")" :: (inside.reverse ++ Token.mark "(" :: .word m.name :: .sign "." :: before), rest,
        left ++ [m.lua operand value], loops⟩ := by
  have given : value.isEmpty = false := by simpa using nonempty
  have argument : ∀ before, Takes r.argument ⟨before, .mark "(" :: (inside ++ Token.mark ")" :: rest), out, loops⟩ value
      ⟨.mark ")" :: (inside.reverse ++ Token.mark "(" :: before), rest, out, loops⟩ :=
    fun before => (Takes.arguments closed).bind (valued _ _ _)
  refine takes_method m.method (by cases m <;> decide) (by cases m <;> decide) ?_
  cases m with
  | push =>
    refine (Takes.takeOperand taken).bind ((Takes.arguments closed).bind ?_)
    rw [single, List.filter_cons_of_pos content, List.filter_nil]
    have listed : ∀ before rest out, Takes (r.valueList [inside]) ⟨before, rest, out, loops⟩ [value] ⟨before, rest, out, loops⟩ :=
      fun _ _ _ => (valued _ _ _).bind ((Takes.pure []).bind (.pure _))
    exact (listed _ _ _).bind (.emit _)
  | join =>
    refine (argument _).bind ?_
    dsimp only
    rw [given]
    exact (Takes.takeOperand taken).bind (.emit _)
  | includes | startsWith | endsWith => exact (argument _).bind ((Takes.takeOperand taken).bind (.emit _))

theorem takes_toText (taken : out.takeOperand true = (operand, left)) :
    Takes r.unit ⟨before, .sign "." :: .word "toString" :: .mark "(" :: .mark ")" :: rest, out, loops⟩ ()
      ⟨.mark ")" :: .mark "(" :: .word "toString" :: .sign "." :: before, rest,
        left ++ ["tostring(" ++ operand ++ ")"], loops⟩ := by
  have nothing : Cursor.Closed "(" ")" [] := .flat (by simp)
  refine takes_method .toString (by decide) (by decide) ?_
  exact (Takes.arguments nothing).bind ((Takes.takeOperand taken).bind (.emit _))

/-! ### Brackets -/

/-- A round bracket is written as it is, if no arrow follows the group. -/
theorem takes_open {inside : List Token} (closed : Cursor.Closed "(" ")" inside)
    (noArrow : (following rest).isOperator ["=>"] = false) :
    Takes r.unit ⟨before, .mark "(" :: (inside ++ Token.mark ")" :: rest), out, loops⟩ ()
      ⟨.mark "(" :: before, inside ++ Token.mark ")" :: rest, out ++ ["("], loops⟩ := by
  have found : Cursor.groupFrom "(" ")" 0 (inside ++ Token.mark ")" :: rest) = some inside :=
    closed.groupFrom_eq (by decide) (by decide) rest
  have behind : (inside ++ Token.mark ")" :: rest).drop (inside.length + 1) = rest := by simp
  exact takes_mark (by decide) (arrow?_open found (by rwa [behind]))

/-- A square bracket behind an operand opens an index. -/
theorem takes_index (behind : Cursor.operandIn false before = true) :
    Takes r.unit ⟨before, .mark "[" :: rest, out, loops⟩ () ⟨.mark "[" :: before, rest, out ++ ["["], loops⟩ := by
  refine takes_mark_of_unit (arrow?_mark (by decide)) (Takes.cursor.bind (Takes.cursor.bind ?_))
  exact (Takes.skip_one _).bind (.ite_pos behind (.emit "["))

/-! ### Conditionals -/

/-- A conditional takes its condition back and captures its branches. -/
theorem takes_conditional {test : String} {yes no : Buffer} {before₁ rest₁ : List Token}
    (taken : out.takeOperand false = (test, left)) (single : (rest.headD .eof).isPunct ["?"] = false)
    (first : Walk r endsThenBranch 0 ⟨.mark "?" :: before, rest, [], loops⟩ 0 ⟨before₁, .mark ":" :: rest₁, yes, loops⟩)
    (second : Walk r endsElseBranch 0 ⟨.mark ":" :: before₁, rest₁, [], loops⟩ 0 ⟨before', rest', no, loops⟩)
    (ended : (Spot.mk before' rest' no loops).cursor.atEnd = true ∨
      endsElseBranch (Spot.mk before' rest' no loops).cursor = true) :
    Takes r.unit ⟨before, .mark "?" :: rest, out, loops⟩ ()
      ⟨before', rest', left ++ [Expr.choiceText test (Text.strip yes.text) (Text.strip no.text)], loops⟩ := by
  refine takes_mark_of_unit (arrow?_mark (by decide)) (Takes.cursor.bind (.ite_neg ?_ ?_))
  · cases rest <;> exact Bool.eq_false_iff.mp single
  have branch : Takes r.thenBranch ⟨.mark "?" :: before, rest, left, loops⟩ (Text.strip yes.text)
      ⟨.mark ":" :: before₁, rest₁, left, loops⟩ :=
    (Takes.capture ((first.takes_units (.inr rfl)).bind (.skipPunct_pos rfl))).bind (.pure _)
  have branch' : Takes r.elseBranch ⟨.mark ":" :: before₁, rest₁, left, loops⟩ (Text.strip no.text)
      ⟨before', rest', left, loops⟩ :=
    (Takes.capture (second.takes_units ended)).bind (.pure _)
  exact (Takes.skip_one _).bind ((Takes.takeOperand taken).bind (branch.bind (branch'.bind (.emit _))))

/-! ### Arrow functions -/

theorem paramList_names (xs : List String) : Cursor.paramList (names xs) = String.intercalate ", " xs := by
  have texts : ((names xs).filter (·.isIdentifier)).map (·.text) = xs := by
    induction xs with
    | nil => rfl
    | cons x xs ih =>
      cases xs with
      | nil => rfl
      | cons y ys => exact congrArg (x :: ·) ih
  rw [Cursor.paramList, texts]

theorem paramList_listTokens (xs : List Identifier) :
    Cursor.paramList (Identifier.listTokens xs) = String.intercalate ", " (xs.map (·.text)) := by
  rw [Identifier.listTokens_eq, paramList_names]

/-- Parameters with an arrow behind them are the head of an arrow function. -/
theorem arrow?_parameters (params : Parameters) (before rest : List Token) :
    (Cursor.mk before (params.tokens ++ Token.blank :: .sign "=>" :: rest) 0).arrow? =
      some ⟨params.lua, params.tokens.length + 2⟩ := by
  cases params with
  | single x => rfl
  | several xs =>
    have tokens : (Parameters.several xs).tokens ++ Token.blank :: .sign "=>" :: rest =
        .mark "(" :: (Identifier.listTokens xs ++ Token.mark ")" :: .blank :: .sign "=>" :: rest) := by
      simp [Parameters.tokens]
    have closed : Cursor.groupFrom "(" ")" 0 (Identifier.listTokens xs ++ Token.mark ")" :: .blank :: .sign "=>" :: rest) =
        some (Identifier.listTokens xs) :=
      ((Identifier.grouped_listTokens xs).closed (by decide)).groupFrom_eq (by decide) (by decide) _
    rw [tokens]
    generalize all : Token.mark "(" :: (Identifier.listTokens xs ++ Token.mark ")" :: .blank :: .sign "=>" :: rest) = ts
    have behind : (Cursor.mk before ts 0).ahead ((Identifier.listTokens xs).length + 2) =
        (.sign "=>", (Identifier.listTokens xs).length + 3) := by
      have left : ts.drop ((Identifier.listTokens xs).length + 2) = .blank :: .sign "=>" :: rest := by simp [← all]
      rw [Cursor.ahead, left]
      rfl
    have name : (Cursor.mk before ts 0).current.isIdentifier = false := by rw [← all]; rfl
    have opens : (Cursor.mk before ts 0).atPunct ["("] = true := by rw [← all]; rfl
    have inside : Cursor.groupFrom "(" ")" 0 (Cursor.mk before ts 0).advance.rest = some (Identifier.listTokens xs) := by
      rw [← all]
      exact closed
    have arrow : (Token.sign "=>").isOperator ["=>"] = true := rfl
    have size : (Parameters.several xs).tokens.length = (Identifier.listTokens xs).length + 2 := by simp [Parameters.tokens]
    simp only [Cursor.arrow?, name, opens, inside, behind, arrow, Bool.false_eq_true, if_false, if_true]
    rw [paramList_listTokens, size]
    rfl

theorem takes_arrow (params : Parameters) {t : Token} (solid : t.isTrivia = false) (noBlock : t.isPunct ["\x7b"] = false)
    (body : Takes r.rightSide
      ⟨.blank :: .sign "=>" :: .blank :: (params.tokens.reverse ++ before), t :: rest,
        out ++ ["function(" ++ params.lua ++ ") return "], loops⟩ () ⟨before', rest', out', loops⟩) :
    Takes r.unit ⟨before, params.tokens ++ Token.blank :: .sign "=>" :: .blank :: t :: rest, out, loops⟩ ()
      ⟨before', rest', out' ++ [" end"], loops⟩ := by
  have arrow := arrow?_parameters params before (.blank :: t :: rest)
  have compound : Takes r.compoundUnit ⟨before, params.tokens ++ Token.blank :: .sign "=>" :: .blank :: t :: rest, out, loops⟩ ()
      ⟨before', rest', out' ++ [" end"], loops⟩ := by
    refine Takes.cursor.bind ?_
    simp only [Spot.cursor, arrow]
    have head : Takes (skip (params.tokens.length + 2))
        ⟨before, params.tokens ++ Token.blank :: .sign "=>" :: .blank :: t :: rest, out, loops⟩ ()
        ⟨.sign "=>" :: .blank :: (params.tokens.reverse ++ before), [Token.blank] ++ t :: rest, out, loops⟩ := by
      have passed : Takes (skip (params.tokens ++ [Token.blank, .sign "=>"]).length)
          ⟨before, (params.tokens ++ [Token.blank, .sign "=>"]) ++ ([Token.blank] ++ t :: rest), out, loops⟩ () _ := .skip _
      simpa using passed
    refine head.bind ((Takes.skipTrivia [.blank] (by simp [solid]) rfl).bind (Takes.cursor.bind ?_))
    exact .ite_neg (Bool.eq_false_iff.mp noBlock) ((Takes.emit _).bind (body.bind (.emit " end")))
  cases params with
  | single x | several xs => exact Takes.cursor.bind compound

end Rules

end NoteScript

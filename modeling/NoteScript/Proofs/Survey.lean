import Mathlib.Tactic.Common
import NoteScript.Tree.Support

/-!
# What the search for unsupported constructs finds

The search keeps a stack of loop counts, one count for each function it is in, and picks what to do by
tables and by names. What it finds can be said without either:

* `Tree.visited`: the nodes that are searched, depth first in the order of the fields, each with whether
  a supported loop of its own function encloses it.
* `Tree.nodeIssues`: what there is to report about one node, by its type.
* `Survey.visit_eq`: a visit adds the issues of the tree and gives the stack back as it was.
* `issues_eq_readings`: so a whole search reports the issues of the visited nodes in order, and ends with
  the stack it began with.
-/

namespace NoteScript

namespace Tree

/-! ### The nodes that are visited -/

/-- Is the type of a node one of these? -/
def hasType (types : List String) (t : Tree) : Bool := (t.textField? "type").any types.contains

/-- A loop in which `continue` is supported. -/
def opensLoop : Tree → Bool := hasType ["ForOfStatement", "ForInStatement", "WhileStatement", "DoWhileStatement", "loop"]

/-- A function. -/
def opensFunction : Tree → Bool := hasType ["FunctionDeclaration", "FunctionExpression", "ArrowFunctionExpression", "function"]

/-- A node whose fields are not visited. -/
def isClosed : Tree → Bool := hasType ["ForStatement", "SwitchStatement", "TryStatement", "ClassDeclaration", "ClassExpression",
    "ObjectPattern", "ArrayPattern", "Literal", "ContinueStatement"]

/-- Does a supported loop of the current function enclose the fields of a node, given whether one encloses
the node? -/
def loopInside (t : Tree) (inLoop : Bool) : Bool := t.opensLoop || (!t.opensFunction && inLoop)

mutual

/-- The nodes of a tree that are visited, in order, each with whether a supported loop of the current
function encloses it. -/
def visited (inLoop : Bool) : Tree → List (Bool × Tree)
  | .list items => visitedItems inLoop items
  | .node fields =>
    let t := Tree.node fields
    (inLoop, t) :: if t.isClosed then [] else visitedFields (t.loopInside inLoop) fields
  | _ => []

/-- The visited nodes of the items of a list. -/
def visitedItems (inLoop : Bool) : List Tree → List (Bool × Tree)
  | [] => []
  | item :: rest => visited inLoop item ++ visitedItems inLoop rest

/-- The visited nodes of the fields of a node. -/
def visitedFields (inLoop : Bool) : List (String × Tree) → List (Bool × Tree)
  | [] => []
  | (key, value) :: rest =>
    (if key ∈ ["loc", "range", "comments", "errors"] then [] else visited inLoop value)
      ++ visitedFields inLoop rest

end

/-! ### What there is to report about a node -/

/-- The issues of one node. -/
def nodeIssues (inLoop : Bool) (t : Tree) : List SupportIssue := match t.textField? "type" with
  | some "ContinueStatement" => if inLoop then [] else [⟨.continueOutsideLoop, t.position⟩]
  | some "ForStatement" => [⟨.countingLoop, t.position⟩]
  | some "SwitchStatement" => [⟨.statement "switch", t.position⟩]
  | some "TryStatement" => [⟨.statement "try", t.position⟩]
  | some "ClassDeclaration" | some "ClassExpression" => [⟨.statement "class", t.position⟩]
  | some "ObjectPattern" | some "ArrayPattern" => [⟨.destructuring, t.position⟩]
  | some "Literal" => t.rejectedRegex?.toList.map fun literal => ⟨.regex literal, t.position⟩
  | some "CallExpression" => ((t.field? "callee").filter isEval).toList.map fun callee => ⟨.eval, callee.position⟩
  | _ => []

/-- The issues of the visited nodes, in order. -/
def readings (nodes : List (Bool × Tree)) : List SupportIssue := nodes.flatMap fun visit => visit.2.nodeIssues visit.1

@[simp] theorem readings_nil : readings [] = [] := rfl

@[simp] theorem readings_cons (inLoop : Bool) (t : Tree) (nodes : List (Bool × Tree)) :
    readings ((inLoop, t) :: nodes) = t.nodeIssues inLoop ++ readings nodes := rfl

@[simp] theorem readings_append (nodes others : List (Bool × Tree)) :
    readings (nodes ++ others) = readings nodes ++ readings others := List.flatMap_append

/-! ### Tables and names against types -/

/-- The types that are told apart. -/
def knownTypes : List String :=
  ["ForOfStatement", "ForInStatement", "WhileStatement", "DoWhileStatement", "loop", "FunctionDeclaration",
   "FunctionExpression", "ArrowFunctionExpression", "function", "ForStatement", "SwitchStatement", "TryStatement",
   "ClassDeclaration", "ClassExpression", "ObjectPattern", "ArrayPattern", "Literal", "ContinueStatement",
   "CallExpression"]

theorem roleOf_unknown {type : String} (unknown : type ∉ knownTypes) : roleOf type = .plain := by
  simp only [knownTypes, List.mem_cons, List.not_mem_nil, or_false, not_or] at unknown
  have notSkipped : skippedTypes.lookup type = none := List.lookup_eq_none_iff.mpr (by simp [skippedTypes, unknown])
  simp [roleOf, loopTypes, functionTypes, notSkipped, namedRole?, unknown]

/-- What the role of a node says about its issues and its fields. -/
theorem nodeIssues_of_role (t : Tree) (inLoop : Bool) : match t.role with
    | .loop => t.nodeIssues inLoop = [] ∧ t.isClosed = false ∧ t.loopInside inLoop = true
    | .function => t.nodeIssues inLoop = [] ∧ t.isClosed = false ∧ t.loopInside inLoop = false
    | .reported what => t.nodeIssues inLoop = [⟨what, t.position⟩] ∧ t.isClosed = true
    | .continue => t.nodeIssues inLoop = (if inLoop then [] else [⟨.continueOutsideLoop, t.position⟩]) ∧ t.isClosed = true
    | .literal =>
      t.nodeIssues inLoop = (t.rejectedRegex?.toList.map fun literal => ⟨.regex literal, t.position⟩) ∧ t.isClosed = true
    | .call =>
      t.nodeIssues inLoop = (((t.field? "callee").filter isEval).toList.map fun callee => ⟨.eval, callee.position⟩)
        ∧ t.isClosed = false ∧ t.loopInside inLoop = inLoop
    | .plain => t.nodeIssues inLoop = [] ∧ t.isClosed = false ∧ t.loopInside inLoop = inLoop := by
  unfold role nodeIssues loopInside isClosed opensLoop opensFunction hasType
  rcases t.textField? "type" with _ | type
  · simp
  by_cases known : type ∈ knownTypes
  · simp only [knownTypes, List.mem_cons, List.not_mem_nil, or_false] at known
    rcases known with rfl | rfl | rfl | rfl | rfl | rfl | rfl | rfl | rfl | rfl | rfl | rfl | rfl | rfl | rfl | rfl |
      rfl | rfl | rfl <;> simp [roleOf, loopTypes, functionTypes, skippedTypes, namedRole?, List.lookup_cons]
  · rw [Option.map_some, Option.getD_some, roleOf_unknown known]
    simp only [knownTypes, List.mem_cons, List.not_mem_nil, or_false, not_or] at known
    simp [known]

end Tree

namespace Survey

/-! ### One visit -/

/-- The search after some more issues, with the stack as it was. -/
def adding (s : Survey) (issues : List SupportIssue) : Survey := { s with issues := s.issues ++ issues }

@[simp] theorem adding_nil (s : Survey) : s.adding [] = s := by simp [adding]

@[simp] theorem adding_adding (s : Survey) (issues others : List SupportIssue) :
    (s.adding issues).adding others = s.adding (issues ++ others) := by simp [adding]

/-- Coming out of a loop takes back the count of going in. -/
theorem leaveLoop_adding_enterLoop (s : Survey) (issues : List SupportIssue) :
    (s.enterLoop.adding issues).leaveLoop = s.adding issues := by
  obtain ⟨found, depths⟩ := s
  cases depths <;> simp [enterLoop, leaveLoop, adding]

theorem leaveFunction_adding_enterFunction (s : Survey) (issues : List SupportIssue) :
    (s.enterFunction.adding issues).leaveFunction = s.adding issues := rfl

theorem visitContinue_eq {s : Survey} {count : Nat} {outer : List Nat} (stack : s.depths = count :: outer) (t : Tree) :
    s.visitContinue t = s.adding (if decide (0 < count) then [] else [⟨.continueOutsideLoop, t.position⟩]) := by
  rcases count with _ | count
  · simp [visitContinue, stack, report, adding]
  · simp [visitContinue, stack]

theorem visitLiteral_eq (s : Survey) (t : Tree) :
    s.visitLiteral t = s.adding (t.rejectedRegex?.toList.map fun literal => ⟨.regex literal, t.position⟩) := by
  unfold visitLiteral
  rcases t.rejectedRegex? with _ | literal
  · simp
  · rfl

theorem visitCallee_eq (s : Survey) (t : Tree) : s.visitCallee t =
      s.adding (((t.field? "callee").filter Tree.isEval).toList.map fun callee => ⟨.eval, callee.position⟩) := by
  unfold visitCallee
  rcases t.field? "callee" with _ | callee
  · simp
  · by_cases named : callee.isEval = true
    · simp [Option.filter, named, report, adding]
    · simp [Option.filter, named]

mutual

/-- A visit adds the issues of the visited nodes and gives the stack back as it was. Only whether the count of
the innermost function is zero matters to what is added. -/
theorem visit_eq {s : Survey} {count : Nat} {outer : List Nat} (stack : s.depths = count :: outer) (t : Tree) :
    s.visit t = s.adding (Tree.readings (t.visited (0 < count))) := by
  cases t with
  | null | bool | int | text | fault => simp [visit, Tree.visited]
  | list items => rw [visit, Tree.visited, visitList_eq stack items]
  | node fields =>
    have reading := Tree.nodeIssues_of_role (.node fields) (0 < count)
    rw [visit, Tree.visited, Tree.readings_cons]
    split <;> rename_i role <;> rw [role] at reading
    · obtain ⟨issues, opened, inside⟩ := reading
      have deeper : s.enterLoop.depths = (count + 1) :: outer := by simp [enterLoop, stack]
      rw [visitFields_eq deeper fields, leaveLoop_adding_enterLoop, issues, opened, inside]
      simp
    · obtain ⟨issues, opened, inside⟩ := reading
      have afresh : s.enterFunction.depths = 0 :: s.depths := rfl
      rw [visitFields_eq afresh fields, leaveFunction_adding_enterFunction, issues, opened, inside]
      simp
    · obtain ⟨issues, closed⟩ := reading
      rw [issues, closed]
      rfl
    · obtain ⟨issues, closed⟩ := reading
      rw [visitContinue_eq stack, issues, closed]
      simp
    · obtain ⟨issues, closed⟩ := reading
      rw [visitLiteral_eq, issues, closed]
      simp
    · obtain ⟨issues, opened, inside⟩ := reading
      have same (issues : List SupportIssue) : (s.adding issues).depths = count :: outer := stack
      rw [visitCallee_eq, visitFields_eq (same _) fields, adding_adding, issues, opened, inside]
      simp
    · obtain ⟨issues, opened, inside⟩ := reading
      rw [visitFields_eq stack fields, issues, opened, inside]
      simp

theorem visitList_eq {s : Survey} {count : Nat} {outer : List Nat} (stack : s.depths = count :: outer)
    (items : List Tree) : s.visitList items = s.adding (Tree.readings (Tree.visitedItems (0 < count) items)) := by
  cases items with
  | nil => simp [visitList, Tree.visitedItems]
  | cons item rest =>
    have same (issues : List SupportIssue) : (s.adding issues).depths = count :: outer := stack
    rw [visitList, Tree.visitedItems, visit_eq stack item, visitList_eq (same _) rest, adding_adding, Tree.readings_append]

theorem visitFields_eq {s : Survey} {count : Nat} {outer : List Nat} (stack : s.depths = count :: outer)
    (fields : List (String × Tree)) :
    s.visitFields fields = s.adding (Tree.readings (Tree.visitedFields (0 < count) fields)) := by
  cases fields with
  | nil => simp [visitFields, Tree.visitedFields]
  | cons field rest =>
    obtain ⟨key, value⟩ := field
    rw [visitFields, Tree.visitedFields, Tree.readings_append]
    by_cases aside : key ∈ ["loc", "range", "comments", "errors"]
    · have skipped : Tree.isAside key = true := List.contains_iff_mem.mpr aside
      rw [if_pos skipped, if_pos aside, visitFields_eq stack rest]
      rfl
    · have searched : ¬ Tree.isAside key = true := fun skipped => aside (List.contains_iff_mem.mp skipped)
      have same (issues : List SupportIssue) : (s.adding issues).depths = count :: outer := stack
      rw [if_neg searched, if_neg aside, visit_eq stack value, visitFields_eq (same _) rest, adding_adding]

end

end Survey

/-- A search reports the issues of the visited nodes, depth first in the order of the fields, and ends with the
stack of counts that it began with. -/
theorem issues_eq_readings (t : Tree) :
    t.issues = ((t.visited false).flatMap fun visit => visit.2.nodeIssues visit.1) ∧
      (Survey.ofTree t).depths = [0] := by
  have started : ({} : Survey).depths = [0] := rfl
  have whole : Survey.ofTree t = Survey.adding {} (Tree.readings (t.visited false)) := Survey.visit_eq started t
  rw [Tree.issues, whole]
  exact ⟨rfl, rfl⟩

end NoteScript

import Mathlib
import Lox.Expr.Evaluation

/-!
# Evaluation on a stack

`Expr.nodes` lists the nodes of a tree in the order in which they are evaluated: operands before
their operator and the left one first. `Expr.program` is the row of their instructions for a machine
with a stack of values, and `Program.run` goes through a program until an instruction fails. The
machine comes to what evaluation comes to: to the value, alone on the stack, or to the diagnostic of
the first instruction that fails, which is that of the earliest node that cannot be evaluated
(`evaluate_iff_run_program`). What follows that instruction in the program is never looked at.
-/

set_option autoImplicit false
set_option relaxedAutoImplicit false

namespace Lox

/-! ### The machine -/

/-- An operator takes its operands from the stack, the right one from the top, and leaves its
value. -/
inductive Instruction
  | push (value : Value)
  | unary (operator : Token)
  | binary (operator : Token)
  | refuse (name : Token)

/-- Why a machine stops before the end of its program. -/
inductive Halt
  | fault (diagnostic : Diagnostic)
  /-- There are fewer values on the stack than an operator takes. -/
  | missingOperand

/-- The stack after an instruction. -/
def Instruction.execute : Instruction → List Value → Except Halt (List Value)
  | push value, stack => .ok (value :: stack)
  | unary operator, operand :: stack =>
    match operator.applyUnary operand with
    | .ok value => .ok (value :: stack)
    | .error diagnostic => .error (.fault diagnostic)
  | binary operator, right :: left :: stack =>
    match operator.applyBinary left right with
    | .ok value => .ok (value :: stack)
    | .error diagnostic => .error (.fault diagnostic)
  | refuse name, _ => .error (.fault (.unsupported name "Assignment is not supported."))
  | unary _, [] | binary _, [] | binary _, [_] => .error .missingOperand

abbrev Program := List Instruction

namespace Program

/-- The stack after a program, unless one of its instructions fails. -/
def run (program : Program) (stack : List Value) : Except Halt (List Value) :=
  program.foldlM (fun stack instruction ↦ instruction.execute stack) stack

theorem run_append (first second : Program) (stack : List Value) :
    run (first ++ second) stack = run first stack >>= second.run :=
  List.foldlM_append

theorem run_append_of_ok {first : Program} {stack next : List Value}
    (hfirst : run first stack = .ok next) (second : Program) :
    run (first ++ second) stack = second.run next := by
  rw [run_append, hfirst]
  rfl

theorem run_append_of_error {first : Program} {stack : List Value} {halt : Halt}
    (hfirst : run first stack = .error halt) (second : Program) :
    run (first ++ second) stack = .error halt := by
  rw [run_append, hfirst]
  rfl

theorem run_singleton (instruction : Instruction) (stack : List Value) :
    run [instruction] stack = instruction.execute stack := by
  rw [run, List.foldlM_cons]
  cases instruction.execute stack <;> rfl

/-- What is behind an instruction that fails does not matter. -/
theorem run_of_execute_error {before : Program} {stack waiting : List Value}
    {failing : Instruction} {halt : Halt} (hbefore : run before stack = .ok waiting)
    (hfailing : failing.execute waiting = .error halt) (after : Program) :
    run (before ++ [failing] ++ after) stack = .error halt := by
  rw [List.append_assoc, run_append_of_ok hbefore]
  exact run_append_of_error ((run_singleton failing waiting).trans hfailing) after

end Program

namespace Expr

/-! ### Programs of trees -/

/-- The nodes of a tree, in the order in which they are evaluated. What would be assigned is not. -/
def nodes : Expr → List Expr
  | literal value => [literal value]
  | group inner => inner.nodes ++ [group inner]
  | unary operator operand => operand.nodes ++ [unary operator operand]
  | binary operator left right => left.nodes ++ right.nodes ++ [binary operator left right]
  | assign name assigned => [assign name assigned]

/-- The instruction of a node, given that its operands have been evaluated. A group has none. -/
def instruction? : Expr → Option Instruction
  | literal value => some (.push value)
  | group _ => none
  | unary operator _ => some (.unary operator)
  | binary operator _ _ => some (.binary operator)
  | assign name _ => some (.refuse name)

def programOf (nodes : List Expr) : Program :=
  nodes.filterMap instruction?

def program (expression : Expr) : Program :=
  programOf expression.nodes

theorem programOf_append (first second : List Expr) :
    programOf (first ++ second) = programOf first ++ programOf second :=
  List.filterMap_append

theorem programOf_concat {node : Expr} {instruction : Instruction}
    (hinstruction : node.instruction? = some instruction) (before : List Expr) :
    programOf (before ++ [node]) = programOf before ++ [instruction] := by
  simp [programOf, hinstruction]

theorem program_group (inner : Expr) : (group inner).program = inner.program := by
  simp [program, nodes, programOf, instruction?]

theorem program_unary (operator : Token) (operand : Expr) :
    (unary operator operand).program = operand.program ++ [.unary operator] :=
  programOf_concat rfl operand.nodes

theorem program_binary (operator : Token) (left right : Expr) :
    (binary operator left right).program =
      left.program ++ right.program ++ [.binary operator] := by
  rw [program, nodes, programOf_concat rfl, programOf_append]
  rfl

/-! ### Trees that evaluate -/

/-- The program of a tree leaves its value on top of what was on the stack before. -/
theorem run_program_of_ok {expression : Expr} {value : Value}
    (hvalue : expression.evaluate = .ok value) (stack : List Value) :
    expression.program.run stack = .ok (value :: stack) := by
  induction expression generalizing value stack with
  | literal literalValue =>
    cases hvalue
    rfl
  | group inner ih =>
    rw [program_group]
    exact ih hvalue stack
  | unary operator operand ih =>
    obtain ⟨operandValue, hoperand, happly⟩ := exists_evaluate_unary hvalue
    rw [program_unary, Program.run_append_of_ok (ih hoperand stack), Program.run_singleton,
      Instruction.execute, happly]
  | binary operator left right ihleft ihright =>
    obtain ⟨leftValue, rightValue, hleft, hright, happly⟩ := exists_evaluate_binary hvalue
    rw [program_binary, List.append_assoc, Program.run_append_of_ok (ihleft hleft stack),
      Program.run_append_of_ok (ihright hright _), Program.run_singleton, Instruction.execute,
      happly]
  | assign name assigned _ => cases hvalue

/-- If a tree evaluates, so does every node of it that is evaluated. -/
theorem exists_evaluate_of_mem_nodes {expression node : Expr} {value : Value}
    (hvalue : expression.evaluate = .ok value) (hmem : node ∈ expression.nodes) :
    ∃ nodeValue, node.evaluate = .ok nodeValue := by
  induction expression generalizing value with
  | literal literalValue =>
    rw [List.mem_singleton.mp hmem]
    exact ⟨value, hvalue⟩
  | group inner ih =>
    rcases List.mem_append.mp hmem with hinner | hself
    · exact ih hvalue hinner
    · rw [List.mem_singleton.mp hself]
      exact ⟨value, hvalue⟩
  | unary operator operand ih =>
    obtain ⟨operandValue, hoperand, _⟩ := exists_evaluate_unary hvalue
    rcases List.mem_append.mp hmem with hinner | hself
    · exact ih hoperand hinner
    · rw [List.mem_singleton.mp hself]
      exact ⟨value, hvalue⟩
  | binary operator left right ihleft ihright =>
    obtain ⟨leftValue, rightValue, hleft, hright, _⟩ := exists_evaluate_binary hvalue
    rcases List.mem_append.mp hmem with hinner | hself
    · rcases List.mem_append.mp hinner with hinner | hinner
      · exact ihleft hleft hinner
      · exact ihright hright hinner
    · rw [List.mem_singleton.mp hself]
      exact ⟨value, hvalue⟩
  | assign name assigned _ => cases hvalue

/-! ### The first failure -/

/-- In the order of evaluation, the first node that cannot be evaluated: the nodes before it
evaluate, and on the stack that they leave its instruction gives the diagnostic. -/
structure IsFirstFailure (before : List Expr) (node : Expr) (failing : Instruction)
    (stack : List Value) (diagnostic : Diagnostic) : Prop where
  evaluate_before : ∀ earlier ∈ before, ∃ value, earlier.evaluate = .ok value
  evaluate_node : node.evaluate = .error diagnostic
  instruction_eq : node.instruction? = some failing
  exists_waiting : ∃ waiting, (programOf before).run stack = .ok waiting ∧
    failing.execute waiting = .error (.fault diagnostic)

/-- Among the given nodes there is a first failure. -/
def HasFirstFailure (nodes : List Expr) (stack : List Value) (diagnostic : Diagnostic) : Prop :=
  ∃ before node after failing, nodes = before ++ node :: after ∧
    IsFirstFailure before node failing stack diagnostic

namespace HasFirstFailure

variable {nodes : List Expr} {stack : List Value} {diagnostic : Diagnostic}

theorem singleton {node : Expr} {failing : Instruction}
    (hfault : node.evaluate = .error diagnostic) (hinstruction : node.instruction? = some failing)
    (hfailing : failing.execute stack = .error (.fault diagnostic)) :
    HasFirstFailure [node] stack diagnostic :=
  ⟨[], node, [], failing, rfl, by simp, hfault, hinstruction, stack, rfl, hfailing⟩

/-- Later nodes make no difference. -/
theorem append_right (hfirst : HasFirstFailure nodes stack diagnostic) (later : List Expr) :
    HasFirstFailure (nodes ++ later) stack diagnostic := by
  obtain ⟨before, node, after, failing, rfl, hnode⟩ := hfirst
  exact ⟨before, node, after ++ later, failing, List.append_assoc _ _ _, hnode⟩

/-- An operand that evaluates leaves its value to the nodes behind it. -/
theorem append_left {expression : Expr} {value : Value} (hvalue : expression.evaluate = .ok value)
    (hfirst : HasFirstFailure nodes (value :: stack) diagnostic) :
    HasFirstFailure (expression.nodes ++ nodes) stack diagnostic := by
  obtain ⟨before, node, after, failing, rfl, hbefore, hfault, hinstruction, hwaiting⟩ := hfirst
  refine ⟨expression.nodes ++ before, node, after, failing, (List.append_assoc _ _ _).symm, ?_,
    hfault, hinstruction, ?_⟩
  · intro earlier hmem
    rcases List.mem_append.mp hmem with hmem | hmem
    · exact exists_evaluate_of_mem_nodes hvalue hmem
    · exact hbefore earlier hmem
  · rw [programOf_append, ← program, Program.run_append_of_ok (run_program_of_ok hvalue stack)]
    exact hwaiting

end HasFirstFailure

/-- A tree that does not evaluate has a first failure. -/
theorem hasFirstFailure_nodes {expression : Expr} {diagnostic : Diagnostic}
    (hfault : expression.evaluate = .error diagnostic) (stack : List Value) :
    HasFirstFailure expression.nodes stack diagnostic := by
  induction expression generalizing diagnostic stack with
  | literal value => cases hfault
  | group inner ih => exact (ih hfault stack).append_right _
  | unary operator operand ih =>
    cases hoperand : operand.evaluate with
    | error inner =>
      rw [evaluate_unary_of_error hoperand] at hfault
      cases hfault
      exact (ih hoperand stack).append_right _
    | ok value =>
      have hfailing : (Instruction.unary operator).execute (value :: stack) =
          .error (.fault diagnostic) := by
        rw [Instruction.execute, ← evaluate_unary_of_ok hoperand, hfault]
      exact (HasFirstFailure.singleton hfault rfl hfailing).append_left hoperand
  | binary operator left right ihleft ihright =>
    rw [nodes, List.append_assoc]
    cases hleft : left.evaluate with
    | error inner =>
      rw [evaluate_binary_of_left_error hleft] at hfault
      cases hfault
      exact (ihleft hleft stack).append_right _
    | ok leftValue =>
      cases hright : right.evaluate with
      | error inner =>
        rw [evaluate_binary_of_right_error hleft hright] at hfault
        cases hfault
        exact ((ihright hright _).append_right _).append_left hleft
      | ok rightValue =>
        have hfailing : (Instruction.binary operator).execute (rightValue :: leftValue :: stack) =
            .error (.fault diagnostic) := by
          rw [Instruction.execute, ← evaluate_binary_of_ok hleft hright, hfault]
        exact ((HasFirstFailure.singleton hfault rfl hfailing).append_left hright).append_left hleft
  | assign name assigned _ =>
    cases hfault
    exact .singleton rfl rfl rfl

/-- No program that begins with the instructions up to a failing one goes any further. -/
theorem IsFirstFailure.run_of_leads {before : List Expr} {node : Expr} {failing : Instruction}
    {stack : List Value} {diagnostic : Diagnostic}
    (hfirst : IsFirstFailure before node failing stack diagnostic) {program : Program}
    (hleads : programOf (before ++ [node]) <+: program) :
    program.run stack = .error (.fault diagnostic) := by
  obtain ⟨after, rfl⟩ := hleads
  obtain ⟨waiting, hbefore, hfailing⟩ := hfirst.exists_waiting
  rw [programOf_concat hfirst.instruction_eq]
  exact Program.run_of_execute_error hbefore hfailing after

theorem run_program_of_error {expression : Expr} {diagnostic : Diagnostic}
    (hfault : expression.evaluate = .error diagnostic) (stack : List Value) :
    expression.program.run stack = .error (.fault diagnostic) := by
  obtain ⟨before, node, after, failing, hnodes, hfirst⟩ := hasFirstFailure_nodes hfault stack
  refine hfirst.run_of_leads ⟨programOf after, ?_⟩
  rw [program, hnodes, ← programOf_append, List.append_assoc, List.singleton_append]

/-! ### The machine agrees with evaluation -/

theorem evaluate_eq_ok_iff_run (expression : Expr) (value : Value) :
    expression.evaluate = .ok value ↔ expression.program.run [] = .ok [value] := by
  refine ⟨fun hvalue ↦ run_program_of_ok hvalue [], fun hrun ↦ ?_⟩
  cases hevaluate : expression.evaluate with
  | error diagnostic =>
    rw [run_program_of_error hevaluate] at hrun
    cases hrun
  | ok other =>
    rw [run_program_of_ok hevaluate] at hrun
    cases hrun
    rfl

theorem evaluate_eq_error_iff_run (expression : Expr) (diagnostic : Diagnostic) :
    expression.evaluate = .error diagnostic ↔
      expression.program.run [] = .error (.fault diagnostic) := by
  refine ⟨fun hfault ↦ run_program_of_error hfault [], fun hrun ↦ ?_⟩
  cases hevaluate : expression.evaluate with
  | error other =>
    rw [run_program_of_error hevaluate] at hrun
    cases hrun
    rfl
  | ok value =>
    rw [run_program_of_ok hevaluate] at hrun
    cases hrun

/-- A tree evaluates to a value exactly if its program, run on an empty stack, leaves that value
alone, and fails exactly as its program fails. It fails at the earliest node that cannot be
evaluated, and so does every other tree whose program is the same up to there. -/
theorem evaluate_iff_run_program (expression : Expr) :
    (∀ value, expression.evaluate = .ok value ↔ expression.program.run [] = .ok [value]) ∧
    (∀ diagnostic, expression.evaluate = .error diagnostic ↔
      expression.program.run [] = .error (.fault diagnostic)) ∧
    ∀ diagnostic, expression.evaluate = .error diagnostic →
      ∃ before node after failing, expression.nodes = before ++ node :: after ∧
        IsFirstFailure before node failing [] diagnostic ∧
        ∀ other : Expr, programOf (before ++ [node]) <+: other.program →
          other.evaluate = .error diagnostic := by
  refine ⟨expression.evaluate_eq_ok_iff_run, expression.evaluate_eq_error_iff_run, ?_⟩
  intro diagnostic hfault
  obtain ⟨before, node, after, failing, hnodes, hfirst⟩ := hasFirstFailure_nodes hfault []
  refine ⟨before, node, after, failing, hnodes, hfirst, fun other hleads ↦ ?_⟩
  exact (other.evaluate_eq_error_iff_run diagnostic).mpr (hfirst.run_of_leads hleads)

/-- The tree of `-nil + right`. -/
def negatedNilPlus (right : Expr) : Expr :=
  binary ⟨.symbol .plus, "+", 1⟩ (unary ⟨.symbol .minus, "-", 1⟩ (literal .nil)) right

/-- What is wrong with a right operand is never found out if the left one fails. -/
theorem evaluate_negatedNilPlus_assign :
    let expression := negatedNilPlus (assign ⟨.identifier, "name", 1⟩ (literal .nil))
    let diagnostic := Diagnostic.operandNotNumber ⟨.symbol .minus, "-", 1⟩
    expression.evaluate = .error diagnostic ∧
      expression.program.run [] = .error (.fault diagnostic) ∧
      ∃ before node after failing, expression.nodes = before ++ node :: after ∧
        IsFirstFailure before node failing [] diagnostic ∧
        ∀ other : Expr, programOf (before ++ [node]) <+: other.program →
          other.evaluate = .error diagnostic :=
  have hfault : (negatedNilPlus (assign ⟨.identifier, "name", 1⟩ (literal .nil))).evaluate =
      .error (.operandNotNumber ⟨.symbol .minus, "-", 1⟩) := rfl
  have hmachine := evaluate_iff_run_program
    (negatedNilPlus (assign ⟨.identifier, "name", 1⟩ (literal .nil)))
  ⟨hfault, (hmachine.2.1 _).mp hfault, hmachine.2.2 _ hfault⟩

end Expr

end Lox

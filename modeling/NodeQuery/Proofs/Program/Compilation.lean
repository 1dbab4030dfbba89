import NodeQuery.Expr.Eval
import NodeQuery.Program.Run
import NodeQuery.Proofs.Evaluation

/-!
# Compiled expressions

The program of an expression does what the expression says.  The statement that goes through by
induction speaks of the program with any instructions behind it and any values below it on the
stack: it runs the instructions behind on the value of the expression, put on top of those values.

Two clauses need more than their parts.  A call takes as many values as it has arguments, so the
number of values that arguments leave has to be known; and `and` and `or` jump over the code of their
second operand, so a jump has to land where that code ends.
-/

namespace NodeQuery

open Evaluation NodeQuery.Expr Program

variable {σ : Type} (forest : Forest) (context : Context σ)

/-- Passing over as many instructions as a code has leads behind that code. -/
theorem Program.runFrom_append (focus : Focus) (passed code : List Instr) (skip : Nat)
    (stack : Stack) :
    runFrom forest context focus (passed ++ code) (passed.length + skip) stack =
      runFrom forest context focus code skip stack := by
  induction passed with
  | nil => rw [List.nil_append, List.length_nil, Nat.zero_add]
  | cons instr passed ih =>
      rw [List.cons_append, List.length_cons, Nat.add_right_comm, runFrom, ih]

/-- Running one instruction and then the others. -/
theorem Program.runFrom_cons (focus : Focus) (instr : Instr) (code : List Instr) (stack : Stack) :
    runFrom forest context focus (instr :: code) 0 stack = (do
      let reached ← execute forest context focus (keptBy forest context instr) instr stack
      runFrom forest context focus code reached.1 reached.2) := by
  rw [runFrom]

/-- Arguments leave as many values as there are of them. -/
theorem Expr.evalAll_length (focus : Focus) (arguments : List Expr) :
    Keeps (fun _ => True) (fun values => values.length = arguments.length)
      (evalAll forest context focus arguments) := by
  induction arguments with
  | nil => rw [evalAll]; exact .pure rfl
  | cons first others ih =>
      rw [evalAll]
      apply (Keeps.any _).bind
      intro value _
      apply ih.bind
      intro values length
      exact .pure (congrArg (· + 1) length)

/-- The values of arguments, put on a stack one by one, are the arguments a call takes. -/
theorem Program.popArguments_reverse_append (values : List Value) (stack : Stack) :
    (popArguments values.length (values.reverse ++ stack) : Evaluation σ _) =
      pure (values, stack) := by
  have enough : ¬ (values.reverse ++ stack).length < values.length := by
    rw [List.length_append, List.length_reverse]
    omega
  rw [popArguments, if_neg enough, ← List.length_reverse, List.take_left, List.drop_left,
    List.reverse_reverse]

/-- With a truth on top of the stack, the jump of a connective is taken exactly if that truth decides
the whole. -/
theorem Connective.runFrom_jump (operator : Connective) (focus : Focus) (skip : Nat) (truth : Bool)
    (code : List Instr) (stack : Stack) :
    runFrom forest context focus (operator.jump skip :: code) 0 (.boolean truth :: stack) =
      runFrom forest context focus code (if operator.decidedBy truth then skip else 0)
        (.boolean truth :: stack) := by
  cases operator <;> cases truth <;> rfl

mutual

/-- The code of an expression puts its value on the stack and goes on with what is behind it. -/
theorem Program.runFrom_code (focus : Focus) (expression : Expr) (rest : List Instr)
    (stack : Stack) :
    runFrom forest context focus (expression.code ++ rest) 0 stack = (do
      let value ← evalAt forest context focus expression
      runFrom forest context focus rest 0 (value :: stack)) := by
  cases expression with
  | number amount =>
      rw [Expr.code, evalAt, pure_bind, List.singleton_append, runFrom_cons, execute, pure_bind]
  | string text =>
      rw [Expr.code, evalAt, pure_bind, List.singleton_append, runFrom_cons, execute, pure_bind]
  | var name =>
      rw [Expr.code, evalAt, List.singleton_append, runFrom_cons, execute, bind_assoc]
      rfl
  | focus =>
      rw [Expr.code, evalAt, pure_bind, List.singleton_append, runFrom_cons, execute, pure_bind]
  | call function arguments =>
      rw [Expr.code, evalAt, List.append_assoc, runFrom_codeOfAll, bind_assoc]
      apply (evalAll_length forest context focus arguments).bind_congr
      intro values length
      rw [List.singleton_append, runFrom_cons, execute, ← length, popArguments_reverse_append,
        pure_bind, bind_assoc]
      rfl
  | arithmetic operator left right =>
      rw [Expr.code, evalAt, List.append_assoc, List.append_assoc, runFrom_code, bind_assoc]
      refine bind_congr fun first => ?_
      rw [runFrom_code, bind_assoc]
      exact bind_congr fun _ => rfl
  | connective operator left right =>
      rw [Expr.code, evalAt, bind_assoc]
      simp only [List.append_assoc, List.cons_append, List.nil_append]
      rw [runFrom_code]
      refine bind_congr fun first => ?_
      rw [runFrom_cons, execute]
      simp only [pop, pure_bind]
      rw [operator.runFrom_jump]
      cases operator.decidedBy first.toBoolean with
      | true =>
          -- The jump passes over the code of the second operand and an instruction at either end.
          have landing := runFrom_append forest context focus
            (.pop :: right.code ++ [.toBoolean]) rest 0 (.boolean first.toBoolean :: stack)
          simpa only [List.length_append, List.length_cons, List.length_nil, Nat.add_zero,
            Nat.zero_add, List.append_assoc, List.cons_append, List.nil_append, if_true,
            pure_bind] using landing
      | false =>
          rw [if_neg Bool.false_ne_true, if_neg Bool.false_ne_true, runFrom_cons, execute]
          simp only [pop, pure_bind]
          rw [runFrom_code, bind_assoc]
          exact bind_congr fun _ => rfl
  | comparison operator left right =>
      rw [Expr.code, evalAt, List.append_assoc, List.append_assoc, runFrom_code, bind_assoc]
      refine bind_congr fun first => ?_
      rw [runFrom_code, bind_assoc]
      exact bind_congr fun _ => rfl
  | negate operand =>
      rw [Expr.code, evalAt, List.append_assoc, runFrom_code, bind_assoc]
      exact bind_congr fun _ => rfl
  | union left right =>
      rw [Expr.code, evalAt, List.append_assoc, List.append_assoc, runFrom_code, bind_assoc]
      refine bind_congr fun first => ?_
      rw [runFrom_code, bind_assoc]
      refine bind_congr fun second => ?_
      rw [List.singleton_append, runFrom_cons, execute]
      simp only [pop, pure_bind, unionOf, bind_assoc]
  | rootPath steps =>
      rw [Expr.code, evalAt, List.append_assoc, List.cons_append, List.singleton_append, runFrom_cons,
        execute, pure_bind, runFrom_cons, execute]
      simp only [pop, pure_bind, bind_assoc]
      refine bind_congr fun start => ?_
      rw [runFrom_codeOfSteps]
  | focusPath steps =>
      rw [Expr.code, evalAt, List.cons_append, runFrom_cons, execute, pure_bind]
      exact runFrom_codeOfSteps focus steps rest (focusValue forest focus) stack
  | exprPath start steps =>
      rw [Expr.code, evalAt, List.append_assoc, runFrom_code, bind_assoc]
      refine bind_congr fun value => ?_
      rw [runFrom_codeOfSteps]
  | filter primary predicates =>
      rw [Expr.code, evalAt, List.append_assoc, runFrom_code, bind_assoc]
      refine bind_congr fun value => ?_
      rw [List.singleton_append, runFrom_cons, execute]
      simp only [pop, pure_bind, bind_assoc, keptBy, survivors_compilePredicates]

/-- The code of several expressions puts their values on the stack, the last one uppermost. -/
theorem Program.runFrom_codeOfAll (focus : Focus) (expressions : List Expr) (rest : List Instr)
    (stack : Stack) :
    runFrom forest context focus (codeOfAll expressions ++ rest) 0 stack = (do
      let values ← evalAll forest context focus expressions
      runFrom forest context focus rest 0 (values.reverse ++ stack)) := by
  cases expressions with
  | nil => rw [codeOfAll, evalAll, pure_bind]; rfl
  | cons first others =>
      rw [codeOfAll, evalAll, List.append_assoc, runFrom_code, bind_assoc]
      refine bind_congr fun value => ?_
      rw [runFrom_codeOfAll, bind_assoc]
      refine bind_congr fun values => ?_
      rw [pure_bind, List.reverse_cons, List.append_assoc, List.singleton_append]

/-- The code of steps takes the value they start from off the stack. -/
theorem Program.runFrom_codeOfSteps (focus : Focus) (steps : List Step) (rest : List Instr)
    (value : Value) (stack : Stack) :
    runFrom forest context focus (codeOfSteps steps ++ rest) 0 (value :: stack) = (do
      let reached ← follow forest context steps value
      runFrom forest context focus rest 0 (reached :: stack)) := by
  match steps with
  | [] => rw [codeOfSteps, follow, pure_bind, List.nil_append]
  | .mk axis test predicates :: steps =>
      rw [codeOfSteps, follow, List.cons_append, runFrom_cons, execute]
      simp only [pop, pure_bind, bind_assoc, keptBy, survivors_compilePredicates]
      refine bind_congr fun nodes => ?_
      refine bind_congr fun found => ?_
      rw [runFrom_codeOfSteps]

/-- The programs of predicates keep the nodes that the predicates keep. -/
theorem Program.survivors_compilePredicates (predicates : List Expr) (nodes : List NodeId) :
    survivors forest context (compilePredicates predicates) nodes =
      Expr.keptBy forest context predicates nodes := by
  cases predicates with
  | nil => rw [compilePredicates, survivors, Expr.keptBy]
  | cons first others =>
      have single (focus : Focus) :
          runFrom forest context focus first.code 0 [] = evalAt forest context focus first := by
        have whole := runFrom_code focus first [] []
        rw [List.append_nil] at whole
        rw [whole]
        simp only [runFrom, pop, pure_bind, bind_pure]
      rw [compilePredicates, survivors, Expr.keptBy]
      simp only [single, survivors_compilePredicates]

end

/-- Run from an empty stack to its end, the code of an expression gives the value of the
expression. -/
theorem Program.runFrom_code_nil (focus : Focus) (expression : Expr) :
    runFrom forest context focus expression.code 0 [] = evalAt forest context focus expression := by
  have whole := runFrom_code forest context focus expression [] []
  rw [List.append_nil] at whole
  rw [whole]
  simp only [runFrom, pop, pure_bind, bind_pure]

theorem Program.run_eq_eval (expression : Expr) (text : String) :
    run ⟨expression.code, text⟩ forest context = expression.eval forest context := by
  rw [run, Expr.eval, runFrom_code_nil]

/-- A compiled expression runs to the value or the error of the expression and leaves its handler in
the same state.  With a handler that writes its calls down, these are the same calls, with the same
arguments and in the same order. -/
theorem Program.run_code (expression : Expr) (text : String) :
    run ⟨expression.code, text⟩ forest context = expression.eval forest context ∧
      ∀ state, run ⟨expression.code, text⟩ forest context.recording (state, []) =
        expression.eval forest context.recording (state, []) := by
  refine ⟨run_eq_eval forest context expression text, fun state => ?_⟩
  rw [run_eq_eval]

end NodeQuery

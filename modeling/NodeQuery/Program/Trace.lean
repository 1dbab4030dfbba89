import NodeQuery.Program.Run

/-!
# Watching a run

A run can be watched: before every instruction, and at the end, the watcher is shown how far the run
has come.  What is shown includes the programs of predicates, which start with a stack of their own
each time a node is tested.  A run that nobody watches is the plain run, and a trace is a run whose
watcher writes everything down.
-/

namespace NodeQuery

namespace Program

open Evaluation

variable {σ : Type}

/-- How far a run has come: the focus it runs at, the instructions ahead, how many of them are still
to be passed over, and the stack.  A run that keeps to its code ends with none to be passed over. -/
structure Moment where
  focus : Focus
  code : List Instr
  skip : Nat
  stack : Stack

section
variable (watch : Moment → Evaluation σ Unit)

mutual

/-- Run as `runFrom` does and show every moment to the watcher. -/
def watchFrom (forest : Forest) (context : Context σ) (focus : Focus) :
    List Instr → Nat → Stack → Evaluation σ Value
  | [], skip, stack => do
    watch ⟨focus, [], skip, stack⟩
    let (value, _) ← pop stack
    pure value
  | _ :: code, skip + 1, stack => watchFrom forest context focus code skip stack
  | instr :: code, 0, stack => do
    watch ⟨focus, instr :: code, 0, stack⟩
    let (skip, stack) ← execute forest context focus (watchKept forest context instr) instr stack
    watchFrom forest context focus code skip stack

/-- The nodes that pass the predicates of an instruction, found under watch. -/
def watchKept (forest : Forest) (context : Context σ) :
    Instr → List NodeId → Evaluation σ (List NodeId)
  | .step _ _ predicates, nodes => watchSurvivors forest context predicates nodes
  | .filter predicates, nodes => watchSurvivors forest context predicates nodes
  | _, nodes => pure nodes

/-- The nodes that pass all predicates, found under watch. -/
def watchSurvivors (forest : Forest) (context : Context σ) :
    List Predicate → List NodeId → Evaluation σ (List NodeId)
  | [], nodes => pure nodes
  | .mk code calledFunction :: predicates, nodes => do
    let kept ← keepWhere (fun focus => do
      let result ← watchFrom forest context focus code 0 []
      pure (keeps context calledFunction result focus.position)) nodes.length 1 nodes
    watchSurvivors forest context predicates kept

end

end

/-- Write a moment down beside the state. -/
def note (moment : Moment) : Evaluation (σ × List Moment) Unit :=
  fun (state, moments) => (.ok (), (state, moment :: moments))

def trace (program : Program) (forest : Forest) (context : Context σ) :
    Evaluation (σ × List Moment) Value := do
  let value ← watchFrom note forest (context.beside (List Moment)) context.focus program.code 0 []
  pure (value.decorate forest (context.document? forest))

end Program

end NodeQuery

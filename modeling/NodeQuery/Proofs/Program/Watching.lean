import NodeQuery.Program.Trace
import NodeQuery.Proofs.Evaluation

/-!
# What watching leaves alone

A run under watch carries more in its state than the run it shows: the moments seen, and the calls
written down.  Seen through the part of the state that the plain run has, the two are the same run.
-/

namespace NodeQuery

variable {σ τ α β : Type}

namespace Evaluation

/-- A step over a larger state does what a step over the part of it does that `seen` shows. -/
def Mirrors (seen : τ → σ) (wide : Evaluation τ α) (plain : Evaluation σ α) : Prop :=
  ∀ state, (wide state).1 = (plain (seen state)).1 ∧ seen (wide state).2 = (plain (seen state)).2

variable {seen : τ → σ}

theorem mirrors_iff_coupled {wide : Evaluation τ α} {plain : Evaluation σ α} :
    Mirrors seen wide plain ↔ Coupled (fun state shown => seen state = shown) wide plain := by
  constructor
  · rintro mirrors state _ rfl
    exact mirrors state
  · exact fun coupled state => coupled state _ rfl

theorem mirrors_congruence (seen : τ → σ) :
    Congruence fun {α} (wide : Evaluation τ α) (plain : Evaluation σ α) => Mirrors seen wide plain := by
  simp only [mirrors_iff_coupled]
  exact coupled_congruence _

theorem Mirrors.pure (value : α) :
    Mirrors seen (Pure.pure value : Evaluation τ α) (Pure.pure value) :=
  (mirrors_congruence seen).pure value

theorem Mirrors.throw (error : Error) :
    Mirrors seen (throw error : Evaluation τ α) (throw error) :=
  (mirrors_congruence seen).throw error

theorem Mirrors.bind {wide : Evaluation τ α} {plain : Evaluation σ α}
    {wideNext : α → Evaluation τ β} {plainNext : α → Evaluation σ β} (first : Mirrors seen wide plain)
    (rest : ∀ value, Mirrors seen (wideNext value) (plainNext value)) :
    Mirrors seen (wide >>= wideNext) (plain >>= plainNext) :=
  (mirrors_congruence seen).bind first rest

/-- A silent step in front, over the larger state only, goes unseen. -/
theorem Mirrors.after {silent : Evaluation τ Unit} {wide : Evaluation τ α} {plain : Evaluation σ α}
    (unseen : Mirrors seen silent (Pure.pure ())) (rest : Mirrors seen wide plain) :
    Mirrors seen (do silent; wide) plain := by
  have both := unseen.bind fun _ : Unit => rest
  rwa [pure_bind] at both

end Evaluation

open Evaluation

/-- A handler over a larger state answers like one over the part that `seen` shows. -/
structure Handler.Mirrors (seen : τ → σ) (wide : Handler τ) (plain : Handler σ) : Prop where
  respondsTo : ∀ name state, wide.respondsTo name state = plain.respondsTo name (seen state)
  call : ∀ name arguments state,
    (wide.call name arguments state).1 = (plain.call name arguments (seen state)).1 ∧
      seen (wide.call name arguments state).2 = (plain.call name arguments (seen state)).2

theorem Handler.mirrors_beside (handler : Handler σ) :
    (handler.beside τ).Mirrors Prod.fst handler :=
  ⟨fun _ _ => rfl, fun _ _ _ => ⟨rfl, rfl⟩⟩

theorem Handler.mirrors_recording (handler : Handler σ) : handler.recording.Mirrors Prod.fst handler :=
  ⟨fun _ _ => rfl, fun _ _ _ => ⟨rfl, rfl⟩⟩

/-- A context over a larger state differs from one over a part of it in the handler alone, which
answers like the other's. -/
inductive Context.Mirrors (seen : τ → σ) (wide : Context τ) (plain : Context σ) : Prop where
  | handled (wideHandler : Handler τ) (handler : Handler σ) (answers : wideHandler.Mirrors seen handler)
      (held : plain.handler = some handler) (same : wide = plain.withHandler (some wideHandler))
  | unhandled (held : plain.handler = none) (same : wide = plain.withHandler none)

theorem Context.mirrors_map {wrap : Handler σ → Handler τ} {seen : τ → σ}
    (answers : ∀ handler, (wrap handler).Mirrors seen handler) (context : Context σ) :
    (context.withHandler (context.handler.map wrap)).Mirrors seen context := by
  cases held : context.handler with
  | none => exact .unhandled held (by rw [Option.map_none])
  | some handler => exact .handled _ handler (answers handler) held (by rw [Option.map_some])

section
variable {seen : τ → σ} {wide : Context τ} {plain : Context σ} (mirrors : wide.Mirrors seen plain)
include mirrors

theorem Context.Mirrors.exists_handler : ∃ handler, wide = plain.withHandler handler := by
  cases mirrors with
  | handled wideHandler _ _ _ same => exact ⟨_, same⟩
  | unhandled _ same => exact ⟨_, same⟩

theorem Context.Mirrors.rest :
    wide.node = plain.node ∧ wide.bindings = plain.bindings ∧ wide.functions = plain.functions := by
  rcases mirrors.exists_handler with ⟨handler, rfl⟩
  exact ⟨rfl, rfl, rfl⟩

theorem Context.Mirrors.document? (forest : Forest) :
    wide.document? forest = plain.document? forest := by
  rw [Context.document?, Context.document?, mirrors.rest.1]

theorem Handler.mirrors_invoke (forest : Forest) (function : String) (arguments : List Value)
    (document : Option DocumentId) :
    Evaluation.Mirrors seen (invoke forest wide.handler function arguments document)
      (invoke forest plain.handler function arguments document) := by
  cases mirrors with
  | unhandled held same =>
      rw [same, held]
      exact Evaluation.Mirrors.throw _
  | handled wideHandler handler answers held same =>
      rw [same, held]
      intro state
      rcases answers.call function (arguments.map (argument forest document)) state with
        ⟨sameAnswer, sameState⟩
      rw [Context.withHandler, invoke_some, invoke_some, answers.respondsTo]
      split
      · refine ⟨?_, sameState⟩
        dsimp only
        rw [sameAnswer]
      · exact ⟨rfl, rfl⟩

theorem Evaluation.mirrors_call (forest : Forest) (focus : Focus) (function : String)
    (arguments : List Value) :
    Mirrors seen (call forest wide focus function arguments)
      (call forest plain focus function arguments) := by
  have invoked := Handler.mirrors_invoke mirrors forest function arguments
  rcases mirrors.exists_handler with ⟨handler, rfl⟩
  exact (mirrors_congruence seen).call (plain.alongside_withHandler forest handler plain.handler) focus
    arguments fun _ => invoked

theorem Evaluation.mirrors_variableValue (name : String) :
    Mirrors seen (variableValue wide name) (variableValue plain name) := by
  rcases mirrors.exists_handler with ⟨handler, rfl⟩
  exact (mirrors_congruence seen).variableValue
    (plain.alongside_withHandler {} handler plain.handler) name

end

theorem Program.mirrors_pop (seen : τ → σ) (stack : Stack) :
    Evaluation.Mirrors seen (pop stack) (pop stack) := by
  cases stack with
  | nil => exact Mirrors.throw _
  | cons value rest => exact Mirrors.pure _

theorem Program.mirrors_popArguments (seen : τ → σ) (count : Nat) (stack : Stack) :
    Evaluation.Mirrors seen (popArguments count stack) (popArguments count stack) := by
  rw [popArguments, popArguments]
  split
  · exact Mirrors.throw _
  · exact Mirrors.pure _

section
variable {seen : τ → σ} {wide : Context τ} {plain : Context σ} (mirrors : wide.Mirrors seen plain)
include mirrors

/-- One instruction: whatever it asks of the handler and of its predicates is mirrored. -/
theorem Program.mirrors_execute (forest : Forest) (focus : Focus)
    {wideKept : List NodeId → Evaluation τ (List NodeId)}
    {plainKept : List NodeId → Evaluation σ (List NodeId)}
    (kept : ∀ nodes, Evaluation.Mirrors seen (wideKept nodes) (plainKept nodes)) (instr : Instr)
    (stack : Stack) :
    Evaluation.Mirrors seen (execute forest wide focus wideKept instr stack)
      (execute forest plain focus plainKept instr stack) := by
  cases instr with
  | number amount => exact Mirrors.pure _
  | string text => exact Mirrors.pure _
  | focus => exact Mirrors.pure _
  | jumpIfFalse skip => exact Mirrors.pure _
  | jumpIfTrue skip => exact Mirrors.pure _
  | var name => exact (mirrors_variableValue mirrors name).bind fun _ => Mirrors.pure _
  | pop => exact (mirrors_pop seen stack).bind fun _ => Mirrors.pure _
  | negate => exact (mirrors_pop seen stack).bind fun _ => Mirrors.pure _
  | toBoolean => exact (mirrors_pop seen stack).bind fun _ => Mirrors.pure _
  | arithmetic operator =>
      apply (mirrors_pop seen stack).bind
      intro right
      exact (mirrors_pop seen right.2).bind fun _ => Mirrors.pure _
  | comparison operator =>
      apply (mirrors_pop seen stack).bind
      intro right
      exact (mirrors_pop seen right.2).bind fun _ => Mirrors.pure _
  | root =>
      apply (mirrors_pop seen stack).bind
      intro top
      apply Mirrors.bind
      · exact ((mirrors_congruence seen).requireNodes .root top.1).bind fun _ => Mirrors.pure _
      · exact fun _ => Mirrors.pure _
  | step axis test predicates =>
      apply (mirrors_pop seen stack).bind
      intro top
      apply ((mirrors_congruence seen).requireNodes .step top.1).bind
      intro nodes
      exact ((mirrors_congruence seen).collect (fun id => kept _) nodes).bind fun _ => Mirrors.pure _
  | filter predicates =>
      apply (mirrors_pop seen stack).bind
      intro top
      apply ((mirrors_congruence seen).requireNodes .predicate top.1).bind
      intro nodes
      exact (kept nodes).bind fun _ => Mirrors.pure _
  | union =>
      apply (mirrors_pop seen stack).bind
      intro right
      apply ((mirrors_congruence seen).requireNodes .union right.1).bind
      intro second
      apply (mirrors_pop seen right.2).bind
      intro left
      exact ((mirrors_congruence seen).requireNodes .union left.1).bind fun _ => Mirrors.pure _
  | call function count =>
      apply (mirrors_popArguments seen count stack).bind
      intro arguments
      exact (mirrors_call mirrors forest focus function arguments.1).bind fun _ => Mirrors.pure _

end

namespace Program

section
variable {seen : τ → σ} {wide : Context τ} {plain : Context σ} (mirrors : wide.Mirrors seen plain)
variable {watch : Moment → Evaluation τ Unit}
variable (unseen : ∀ moment, Evaluation.Mirrors seen (watch moment) (Pure.pure ()))
variable (forest : Forest)
include mirrors unseen

set_option linter.unusedSectionVars false in
mutual

/-- A run under a watch that goes unseen is the plain run. -/
theorem mirrors_watchFrom (focus : Focus) (code : List Instr) (skip : Nat) (stack : Stack) :
    Evaluation.Mirrors seen (watchFrom watch forest wide focus code skip stack)
      (runFrom forest plain focus code skip stack) := by
  cases code with
  | nil =>
      rw [watchFrom, runFrom]
      apply Mirrors.after (unseen _)
      exact (mirrors_pop seen stack).bind fun _ => Mirrors.pure _
  | cons instr code =>
      cases skip with
      | succ skip =>
          rw [watchFrom, runFrom]
          exact mirrors_watchFrom focus code skip stack
      | zero =>
          rw [watchFrom, runFrom]
          apply Mirrors.after (unseen _)
          apply (mirrors_execute mirrors forest focus (mirrors_watchKept instr) instr stack).bind
          intro reached
          exact mirrors_watchFrom focus code reached.1 reached.2

theorem mirrors_watchKept (instr : Instr) (nodes : List NodeId) :
    Evaluation.Mirrors seen (watchKept watch forest wide instr nodes)
      (keptBy forest plain instr nodes) := by
  cases instr with
  | step axis test predicates =>
      rw [watchKept, keptBy]
      exact mirrors_watchSurvivors predicates nodes
  | filter predicates =>
      rw [watchKept, keptBy]
      exact mirrors_watchSurvivors predicates nodes
  | _ => exact Mirrors.pure _

theorem mirrors_watchSurvivors (predicates : List Predicate) (nodes : List NodeId) :
    Evaluation.Mirrors seen (watchSurvivors watch forest wide predicates nodes)
      (survivors forest plain predicates nodes) := by
  match predicates with
  | [] =>
      rw [watchSurvivors, survivors]
      exact Mirrors.pure _
  | .mk code calledFunction :: predicates =>
      rw [watchSurvivors, survivors]
      apply Evaluation.Mirrors.bind
      · apply (mirrors_congruence seen).keepWhere
        intro focus
        apply (mirrors_watchFrom focus code 0 []).bind
        intro result
        have counted : keeps wide calledFunction result focus.position =
            keeps plain calledFunction result focus.position := by
          unfold keeps
          rw [mirrors.rest.2.2]
        rw [counted]
        exact Mirrors.pure _
      · exact fun kept => mirrors_watchSurvivors predicates kept

end

end

/-- Nobody watching, the watched run is the plain run. -/
theorem watchFrom_silent (forest : Forest) (context : Context σ) (focus : Focus) (code : List Instr)
    (skip : Nat) (stack : Stack) :
    watchFrom (fun _ => pure ()) forest context focus code skip stack =
      runFrom forest context focus code skip stack := by
  have mirrors : context.Mirrors id context := by
    cases held : context.handler with
    | none => exact .unhandled held (by rw [← held]; rfl)
    | some handler =>
        exact .handled handler handler ⟨fun _ _ => rfl, fun _ _ _ => ⟨rfl, rfl⟩⟩ held
          (by rw [← held]; rfl)
  funext state
  have same := mirrors_watchFrom mirrors (fun _ => Mirrors.pure ()) forest focus code skip stack state
  exact Prod.ext same.1 same.2

/-- A trace tells of the run it is a trace of: the outcome and the state of the handler are those of
the plain run. -/
theorem trace_mirrors_run (program : Program) (forest : Forest) (context : Context σ) :
    Evaluation.Mirrors Prod.fst (program.trace forest context) (program.run forest context) := by
  have mirrors : (context.beside (List Moment)).Mirrors Prod.fst context :=
    Context.mirrors_map (Handler.mirrors_beside) context
  apply Evaluation.Mirrors.bind
  · exact mirrors_watchFrom mirrors (fun _ _ => ⟨rfl, rfl⟩) forest context.focus program.code 0 []
  · exact fun _ => Mirrors.pure _

/-- A run over a larger state does what the run over the part of it does that `seen` shows. -/
theorem mirrors_run {seen : τ → σ} {wide : Context τ} {plain : Context σ}
    (mirrors : wide.Mirrors seen plain) (program : Program) (forest : Forest) :
    Evaluation.Mirrors seen (program.run forest wide) (program.run forest plain) := by
  rw [run, run, Context.focus, mirrors.rest.1, mirrors.document? forest]
  apply Evaluation.Mirrors.bind
  · rw [← watchFrom_silent]
    exact mirrors_watchFrom mirrors (fun _ => Mirrors.pure ()) forest _ program.code 0 []
  · exact fun _ => Mirrors.pure _

/-- Writing calls down changes neither the outcome of a run nor the state of the handler. -/
theorem recording_mirrors_run (program : Program) (forest : Forest) (context : Context σ) :
    Evaluation.Mirrors Prod.fst (program.run forest context.recording)
      (program.run forest context) :=
  mirrors_run (Context.mirrors_map Handler.mirrors_recording context) program forest

end Program

end NodeQuery

import NodeQuery.Proofs.Expr.SideBySide
import NodeQuery.Proofs.Program.Order

/-!
# Requests to a handler

A request is a call that an evaluation makes to its handler, with the state in which it finds the
handler.  An evaluation only requests functions that are not registered and that the handler has at
that moment, and only with arguments that are values of expressions.  Registered functions are never
requested, not even with a number of arguments that no registration accepts.
-/

namespace NodeQuery

variable {σ τ : Type}

namespace Handler

/-- A call of a handler together with the state it is made in. -/
structure Request (σ : Type) where
  function : String
  arguments : List HostValue
  state : σ

/-- A request without its state is what a recording handler writes down. -/
def Request.call (request : Request σ) : Call := (request.function, request.arguments)

/-- The handler that also notes every request made to it, the latest first. -/
def noting (handler : Handler σ) : Handler (σ × List (Request σ)) where
  respondsTo name state := handler.respondsTo name state.1
  call name arguments state :=
    let (outcome, inner) := handler.call name arguments state.1
    (outcome, (inner, ⟨name, arguments, state.1⟩ :: state.2))

/-- A request that an evaluation with these registered functions may make: the function is none of
them, the handler has it at that moment, and the arguments are of the kinds that values have. -/
structure Permits (handler : Handler σ) (functions : Registry) (request : Request σ) : Prop where
  unregistered : functions.contains request.function = false
  available : handler.respondsTo request.function request.state = true
  arguments : ∀ argument ∈ request.arguments,
    argument.kind ∈ [HostKind.boolean, .float, .text, .nodeSet]

end Handler

/-- The context whose handler also notes every request made to it, the latest first. -/
def Context.noting (context : Context σ) : Context (σ × List (Handler.Request σ)) :=
  context.withHandler (context.handler.map Handler.noting)

theorem Handler.mirrors_noting (handler : Handler σ) : handler.noting.Mirrors Prod.fst handler :=
  ⟨fun _ _ => rfl, fun _ _ _ => ⟨rfl, rfl⟩⟩

/-- Without their states the requests are the recorded calls. -/
theorem Handler.noting_mirrors_recording (handler : Handler σ) :
    handler.noting.Mirrors (Prod.map id (List.map Request.call)) handler.recording :=
  ⟨fun _ _ => rfl, fun _ _ _ => ⟨rfl, rfl⟩⟩

theorem Context.noting_mirrors_recording (context : Context σ) :
    context.noting.Mirrors (Prod.map id (List.map Handler.Request.call)) context.recording := by
  cases held : context.handler with
  | none =>
      apply Context.Mirrors.unhandled
      · rw [recording, held]; rfl
      · rw [noting, recording, held]; rfl
  | some handler =>
      apply Context.Mirrors.handled _ _ handler.noting_mirrors_recording
      · rw [recording, held]; rfl
      · rw [noting, recording, held]; rfl

namespace Program

/-- Noting requests changes neither the outcome of a run nor the state of the handler. -/
theorem noting_mirrors_run (program : Program) (forest : Forest) (context : Context σ) :
    Evaluation.Mirrors Prod.fst (program.run forest context.noting) (program.run forest context) :=
  mirrors_run (Context.mirrors_map Handler.mirrors_noting context) program forest

/-- The requests of a run are its recorded calls, each with the state it was made in. -/
theorem calls_of_requests (program : Program) (forest : Forest) (context : Context σ) (state : σ) :
    (program.run forest context.noting (state, [])).2.2.map Handler.Request.call =
      (program.run forest context.recording (state, [])).2.2 :=
  congrArg Prod.snd
    (mirrors_run context.noting_mirrors_recording program forest (state, [])).2

end Program

theorem HostValue.kind_ofValue (value : Value) :
    (ofValue value).kind ∈ [HostKind.boolean, .float, .text, .nodeSet] := by
  cases value with
  | boolean truth => exact List.mem_cons_self
  | number amount => exact List.mem_cons_of_mem _ List.mem_cons_self
  | string text => exact List.mem_cons_of_mem _ (List.mem_cons_of_mem _ List.mem_cons_self)
  | nodeSet set =>
      exact List.mem_cons_of_mem _ (List.mem_cons_of_mem _
        (List.mem_cons_of_mem _ List.mem_cons_self))

/-- The requests noted so far are such as an evaluation in this context may make. -/
def Context.PermittedSoFar (context : Context σ) (noted : σ × List (Handler.Request σ)) : Prop :=
  ∀ request ∈ noted.2,
    ∃ handler, context.handler = some handler ∧ handler.Permits context.functions request

/-- A call of an unregistered function adds a permitted request or none. -/
theorem Context.invoke_permitted (forest : Forest) (context : Context σ) {function : String}
    (unregistered : context.functions.contains function = false) (arguments : List Value)
    (document : Option DocumentId) :
    Evaluation.Keeps context.PermittedSoFar (fun _ => True)
      (Handler.invoke forest context.noting.handler function arguments document) := by
  intro noted permitted
  rw [noting, withHandler]
  cases held : context.handler with
  | none => exact ⟨permitted, fun _ _ => trivial⟩
  | some handler =>
      rw [Option.map_some, Handler.invoke_some]
      split
      · rename_i available
        refine ⟨?_, fun _ _ => trivial⟩
        intro request member
        rcases List.mem_cons.mp member with latest | earlier
        · subst latest
          refine ⟨handler, held, unregistered, available, ?_⟩
          intro given listed
          rcases List.mem_map.mp listed with ⟨value, _, rfl⟩
          exact HostValue.kind_ofValue _
        · exact permitted request earlier
      · exact ⟨permitted, fun _ _ => trivial⟩

namespace Program

section
variable (forest : Forest) (context : Context σ) (expression : Expr) (text : String)

/-- What every call of an unregistered function keeps, the whole run keeps. -/
theorem run_keeps {inv : σ → Prop}
    (kept : ∀ call ∈ expression.calls, context.functions.contains call.1 = false →
      ∀ arguments document, Evaluation.Keeps inv (fun _ => True)
        (Handler.invoke forest context.handler call.1 arguments document)) :
    Evaluation.Keeps inv (fun _ => True) (run ⟨expression.code, text⟩ forest context) :=
  (Evaluation.keeps_congruence inv).run forest context context.handler (none : Option (Handler σ))
    expression text kept

/-- If every function that the expression calls is registered, the handler makes no difference. -/
theorem run_registered
    (registered : ∀ call ∈ expression.calls, context.functions.contains call.1 = true) (state : σ) :
    run ⟨expression.code, text⟩ forest context state =
      ((run ⟨expression.code, text⟩ forest (context.withHandler none) state).1, state) := by
  have beside := (Evaluation.coupled_congruence fun first second => first = state ∧ second = state).run
    forest context context.handler none expression text
    fun call member unregistered => by rw [registered call member] at unregistered; cases unregistered
  rcases beside state state ⟨rfl, rfl⟩ with ⟨sameOutcome, sameState, _⟩
  exact Prod.ext sameOutcome sameState

/-- The handler gets permitted requests only, and if every function that the expression calls is
registered it gets none: the run then ends as it does without a handler. -/
theorem requests_permitted (state : σ) :
    (∀ request ∈ (run ⟨expression.code, text⟩ forest context.noting (state, [])).2.2,
      ∃ handler, context.handler = some handler ∧ handler.Permits context.functions request) ∧
    ((∀ call ∈ expression.calls, context.functions.contains call.1 = true) →
      run ⟨expression.code, text⟩ forest context state =
        ((run ⟨expression.code, text⟩ forest (context.withHandler none) state).1, state) ∧
      (run ⟨expression.code, text⟩ forest context.noting (state, [])).2.2 = []) := by
  constructor
  · have permitted := run_keeps forest context.noting expression text
      (fun _ _ unregistered => context.invoke_permitted forest unregistered)
    exact (permitted (state, []) fun _ member => absurd member List.not_mem_nil).1
  · intro registered
    refine ⟨run_registered forest context expression text registered state, ?_⟩
    rw [run_registered forest context.noting expression text registered]

/-- The core functions have a `count`, but none without arguments. -/
theorem requests_permitted_misfit :
    run ⟨(Expr.call "count" []).code, ""⟩ pairDocument.1 pairContext 0 =
        ((run ⟨(Expr.call "count" []).code, ""⟩ pairDocument.1 (pairContext.withHandler none) 0).1,
          0) ∧
      (run ⟨(Expr.call "count" []).code, ""⟩ pairDocument.1 pairContext.noting (0, [])).2.2 = [] :=
  (requests_permitted pairDocument.1 pairContext (.call "count" []) "" 0).2 (by decide)

end

end Program

end NodeQuery

import NodeQuery.Proofs.Expr.SideBySide
import NodeQuery.Proofs.Function.Core

/-!
# What evaluations fail with

An expression that has been read fails for what it asks of values, functions and handlers.  Texts are
no concern of its evaluation, so none of its errors is about the text of an expression or about a
selector; an error of that sort inside a handler is the source of the error that the call fails with.
-/

namespace NodeQuery

variable {σ α β : Type}

/-- The errors that evaluating an expression can end with. -/
def Error.OfEvaluation : Error → Prop
  | .malformedExpression _ | .refusedSelector .. | .type (.selection ..) => False
  | _ => True

theorem Error.OfSteps.ofEvaluation {error : Error} (raised : error.OfSteps) :
    error.OfEvaluation := by
  cases error with
  | malformedExpression _ | refusedSelector _ _ => exact raised
  | type fault =>
      cases fault with
      | selection _ _ => exact raised
      | _ => trivial
  | _ => trivial

/-- A function that fails only with errors of an evaluation. -/
def Function.Fails (function : Function) : Prop :=
  ∀ forest site arguments error, function forest site arguments = .error error → error.OfEvaluation

namespace Function

theorem fails_unary {body : Forest → CallSite → Value → Except Error Value}
    (each : ∀ forest site argument error, body forest site argument = .error error →
      error.OfEvaluation) : (unary body).Fails := by
  intro forest site arguments error failed
  cases arguments with
  | nil =>
      cases failed
      trivial
  | cons argument others => exact each forest site argument error failed

theorem fails_ofTexts (build : List Char → List Char → Value) : (ofTexts build).Fails := by
  intro forest site arguments error failed
  match arguments with
  | [] | [_] =>
      cases failed
      trivial
  | _ :: _ :: _ => cases failed

theorem fails_of_ok (build : Forest → CallSite → List Value → Value) :
    Fails fun forest site arguments => .ok (build forest site arguments) := by
  intro forest site arguments error failed
  cases failed

theorem fails_number : number.Fails := by
  intro forest site arguments error failed
  cases arguments <;> cases failed

theorem fails_substringOf : substringOf.Fails := by
  intro forest site arguments error failed
  match arguments with
  | [] | [_] =>
      cases failed
      trivial
  | _ :: _ :: _ => cases failed

theorem error_of_nodesOf {function : String} {argument : Value} {error : Error}
    (failed : nodesOf function argument = .error error) : error.OfEvaluation := by
  cases argument with
  | nodeSet set => cases failed
  | boolean _ | number _ | string _ =>
      cases failed
      trivial

theorem fails_count : (unary fun _ _ argument =>
    (nodesOf "count" argument).map fun nodes => .number (Float.ofNat nodes.length)).Fails := by
  apply fails_unary
  intro forest site argument error failed
  cases found : nodesOf "count" argument with
  | ok nodes => rw [found] at failed; cases failed
  | error other =>
      rw [found] at failed
      cases failed
      exact error_of_nodesOf found

theorem fails_nodeName (function : String) (part : Forest → NodeId → Option String) :
    (nodeName function part).Fails := by
  intro forest site arguments error failed
  cases arguments with
  | nil => cases failed
  | cons argument others =>
      rw [nodeName, nodeOrFocus] at failed
      cases found : nodesOf function argument with
      | ok nodes => rw [found] at failed; cases failed
      | error other =>
          rw [found] at failed
          cases failed
          exact error_of_nodesOf found

theorem fails_elementsById : elementsById.Fails := by
  apply fails_unary
  intro forest site argument error failed
  dsimp only at failed
  split at failed
  · cases failed
  · cases failed

theorem fails_of_registered {registration : Registration} (member : registration ∈ coreRegistrations) :
    registration.function.Fails := by
  simp only [coreRegistrations, List.mem_cons, List.not_mem_nil, or_false] at member
  rcases member with rfl | rfl | rfl | rfl | rfl | rfl | rfl | rfl | rfl | rfl | rfl | rfl | rfl |
    rfl | rfl | rfl | rfl | rfl
  · exact fails_of_ok _
  · exact fails_of_ok _
  · exact fails_unary fun _ _ _ _ failed => by cases failed
  · exact fails_unary fun _ _ _ _ failed => by cases failed
  · exact fails_number
  · exact fails_of_ok _
  · exact fails_of_ok _
  · exact fails_ofTexts fun whole part => .boolean (Text.occursIn part whole)
  · exact fails_ofTexts fun whole part => .boolean (part.isPrefixOf whole)
  · exact fails_of_ok _
  · exact fails_of_ok _
  · exact fails_substringOf
  · exact fails_count
  · exact fails_of_ok _
  · exact fails_of_ok _
  · exact fails_nodeName _ _
  · exact fails_nodeName _ _
  · exact fails_elementsById

end Function

/-- Core functions fail only with errors of an evaluation. -/
theorem Registry.core_fails {name : String} {count : Nat} {body : Function}
    (resolved : core.resolve name count = .ok body) : body.Fails := by
  rcases resolve_mem resolved with ⟨registration, named, _, rfl⟩
  exact Function.fails_of_registered (List.mem_reverse.mp (List.mem_filter.mp named).1)

namespace Function

section
variable {forest : Forest} {site : CallSite} {arguments : List Value}

theorem unary_ne_error {body : Forest → CallSite → Value → Except Error Value} {error : Error}
    (each : ∀ argument, body forest site argument ≠ .error error) (filled : 1 ≤ arguments.length) :
    unary body forest site arguments ≠ .error error := by
  obtain ⟨argument, others, rfl⟩ := List.exists_cons_of_length_pos filled
  exact each argument

theorem ofTexts_ne_error (build : List Char → List Char → Value) {error : Error}
    (filled : 2 ≤ arguments.length) : ofTexts build forest site arguments ≠ .error error := by
  match arguments with
  | _ :: _ :: _ => exact fun failed => by cases failed

theorem substringOf_ne_error {error : Error} (filled : 2 ≤ arguments.length) :
    substringOf forest site arguments ≠ .error error := by
  match arguments with
  | _ :: _ :: _ => exact fun failed => by cases failed

theorem map_nodesOf_ne_emptyStack {α : Type} (function : String) (argument : Value)
    (build : List NodeId → α) :
    (nodesOf function argument).map build ≠ .error (.type .emptyStack) := by
  intro failed
  cases argument <;> cases failed

theorem nodeName_ne_emptyStack (function : String) (part : Forest → NodeId → Option String) :
    nodeName function part forest site arguments ≠ .error (.type .emptyStack) := by
  intro failed
  cases arguments with
  | nil => cases failed
  | cons argument others => cases argument <;> cases failed

/-- No core function misses an argument when it is given a number of them that it accepts. -/
theorem ne_emptyStack_of_accepts {registration : Registration}
    (member : registration ∈ coreRegistrations)
    (accepted : registration.accepts arguments.length = true) :
    registration.function forest site arguments ≠ .error (.type .emptyStack) := by
  have least : registration.least ≤ arguments.length := by
    rw [Registration.accepts, Bool.and_eq_true, decide_eq_true_iff] at accepted
    exact accepted.1
  simp only [coreRegistrations, List.mem_cons, List.not_mem_nil, or_false] at member
  rcases member with rfl | rfl | rfl | rfl | rfl | rfl | rfl | rfl | rfl | rfl | rfl | rfl | rfl |
    rfl | rfl | rfl | rfl | rfl
  all_goals dsimp only
  · exact fun failed => by cases failed
  · exact fun failed => by cases failed
  · exact unary_ne_error (fun _ failed => by cases failed) least
  · exact unary_ne_error (fun _ failed => by cases failed) least
  · exact fun failed => by cases arguments <;> cases failed
  · exact fun failed => by cases failed
  · exact fun failed => by cases failed
  · exact ofTexts_ne_error _ least
  · exact ofTexts_ne_error _ least
  · exact fun failed => by cases failed
  · exact fun failed => by cases failed
  · exact substringOf_ne_error least
  · exact unary_ne_error (fun argument => map_nodesOf_ne_emptyStack "count" argument _) least
  · exact fun failed => by cases failed
  · exact fun failed => by cases failed
  · exact nodeName_ne_emptyStack _ _
  · exact nodeName_ne_emptyStack _ _
  · refine unary_ne_error (fun argument failed => ?_) least
    dsimp only at failed
    split at failed
    · cases failed
    · cases failed

end

end Function

/-- A core function that is found for a call misses no argument. -/
theorem Registry.core_ne_emptyStack {name : String} {arguments : List Value} {body : Function}
    (resolved : core.resolve name arguments.length = .ok body) (forest : Forest) (site : CallSite) :
    body forest site arguments ≠ .error (.type .emptyStack) := by
  rcases resolve_mem resolved with ⟨registration, named, accepted, rfl⟩
  exact Function.ne_emptyStack_of_accepts
    (List.mem_reverse.mp (List.mem_filter.mp named).1) accepted

namespace Evaluation

/-- Whatever state it starts from, a step fails only with errors of an evaluation. -/
def Fails (step : Evaluation σ α) : Prop :=
  ∀ state error, (step state).1 = .error error → error.OfEvaluation

/-- Whatever state it starts from, a step fails only with errors of some sort. -/
def FailsWith (known : Error → Prop) (step : Evaluation σ α) : Prop :=
  ∀ state error, (step state).1 = .error error → known error

variable {known : Error → Prop}

theorem FailsWith.throw {error : Error} (raised : known error) :
    FailsWith known (throw error : Evaluation σ α) := by
  intro state other failed
  cases failed
  exact raised

theorem FailsWith.pure (value : α) : FailsWith known (Pure.pure value : Evaluation σ α) := by
  intro state error impossible
  cases impossible

theorem FailsWith.bind {post : α → Prop} {step : Evaluation σ α} {next : α → Evaluation σ β}
    (first : FailsWith known step) (given : Keeps (fun _ => True) post step)
    (rest : ∀ value, post value → FailsWith known (next value)) :
    FailsWith known (step >>= next) := by
  intro state error failed
  have raised := first state
  have holds := (given state trivial).2
  rw [bind_apply] at failed
  rcases outcome : step state with ⟨other | value, reached⟩
  · rw [outcome] at failed raised
    cases failed
    exact raised error rfl
  · rw [outcome] at failed holds
    exact rest value (holds value rfl) reached error failed

theorem failsWith_composes (known : Error → Prop) :
    Composes fun {α β} (alike : α → β → Prop) (left : Evaluation σ α) (_ : Evaluation σ β) =>
      FailsWith known left ∧ Keeps (fun _ => True) (fun value => ∃ other, alike value other) left where
  pure holds := ⟨FailsWith.pure _, Keeps.pure ⟨_, holds⟩⟩
  bind first rest :=
    ⟨first.1.bind first.2 fun value ⟨other, holds⟩ => (rest value other holds).1,
      first.2.bind fun value ⟨other, holds⟩ => (rest value other holds).2⟩

/-- An error of a handler is wrapped in an error of the call. -/
theorem failsWith_invoke (own : ∀ error : Error, error.OfSteps → known error) (forest : Forest)
    (handler : Option (Handler σ)) (function : String) (arguments : List Value)
    (document : Option DocumentId) :
    FailsWith known (Handler.invoke forest handler function arguments document) := by
  intro state error failed
  cases handler with
  | none =>
      cases failed
      exact own _ trivial
  | some handler =>
      rw [Handler.invoke_some] at failed
      split at failed
      · dsimp only at failed
        split at failed
        · cases failed
          exact own _ trivial
        · rename_i returned _
          rw [Handler.result] at failed
          cases converted : returned.toValue forest with
          | ok value => rw [converted] at failed; cases failed
          | error found =>
              rw [converted] at failed
              cases failed
              exact own _ trivial
      · cases failed
        exact own _ trivial

end Evaluation

namespace Expr

open Evaluation

theorem failsWith_evalAt {forest : Forest} {context : Context σ} (focus : Focus) (expression : Expr) :
    FailsWith (context.FailsAt forest) (expression.evalAt forest context focus) := by
  have beside := (correspondence_alongside (failsWith_composes (context.FailsAt forest))
    (fun failing => ⟨FailsWith.throw failing, Keeps.throw _⟩) (context.upholds_true forest)
    (context.alongside_refl forest)).evalAt focus (fun _ _ => trivial) expression
    fun call _ _ arguments _ =>
      ⟨failsWith_invoke (fun _ => Or.inl) forest context.handler call.1 arguments _,
        (Keeps.any _).mono fun value _ => ⟨value, rfl, trivial⟩⟩
  exact beside.1

/-- An expression fails only with errors of an evaluation, if its functions do. -/
theorem fails_eval {forest : Forest} {context : Context σ}
    (functions : ∀ name count body, context.functions.resolve name count = .ok body → body.Fails)
    (expression : Expr) : Fails (expression.eval forest context) := by
  have whole : FailsWith (context.FailsAt forest) (expression.eval forest context) := by
    rw [eval]
    exact (failsWith_evalAt _ expression).bind (Keeps.any _) fun _ _ => FailsWith.pure _
  intro state error failed
  rcases whole state error failed with raised | ⟨name, arguments, body, site, resolved, failed⟩
  · exact raised.ofEvaluation
  · exact functions _ _ body resolved forest site arguments error failed

end Expr

end NodeQuery

import NodeQuery.Proofs.Handler.Requests

/-!
# Requests that end an evaluation

A handler refuses a request if it fails, or if what it returns stands for no value.  No step of an
evaluation looks at an error and goes on from it: an error inside an argument, a predicate, an operand
of a connective or a side of a union is the error of the whole.  A refused request is therefore the
last one of its run, and the run ends with the error that the refusal stands for.
-/

namespace NodeQuery

variable {σ τ : Type}

namespace Handler

/-- The handler refuses a request, which stands for an error with the name of the function: either the
failure of the handler itself, or the kind of what the handler returned. -/
inductive Refuses (forest : Forest) (handler : Handler σ) (request : Request σ) : Error → Prop where
  | failed {failure : HandlerFailure}
      (answer : (handler.call request.function request.arguments request.state).1 = .error failure) :
      Refuses forest handler request (.handlerFailed request.function failure)
  | unrepresentable {returned : HostValue} {found : Unrepresentable}
      (answer : (handler.call request.function request.arguments request.state).1 = .ok returned)
      (noValue : returned.toValue forest = .error found) :
      Refuses forest handler request (.invalidReturn request.function found)

def Grants (forest : Forest) (handler : Handler σ) (request : Request σ) : Prop :=
  ∀ error, ¬ handler.Refuses forest request error

/-- A request is refused with one error. -/
theorem Refuses.unique {forest : Forest} {handler : Handler σ} {request : Request σ}
    {first second : Error} (refuses : handler.Refuses forest request first)
    (again : handler.Refuses forest request second) : first = second := by
  cases refuses with
  | failed answer =>
      cases again with
      | failed other =>
          rw [answer] at other
          cases other
          rfl
      | unrepresentable other _ =>
          rw [answer] at other
          cases other
  | unrepresentable answer noValue =>
      cases again with
      | failed other =>
          rw [answer] at other
          cases other
      | unrepresentable other otherValue =>
          rw [answer] at other
          cases other
          rw [noValue] at otherValue
          cases otherValue
          rfl

def Request.stateAfter (request : Request σ) (handler : Handler σ) : σ :=
  (handler.call request.function request.arguments request.state).2

end Handler

namespace Evaluation

/-- Started when all requests noted so far were granted, a step only makes requests that are granted
too, or else the last request it makes is refused and the step ends with that. -/
def EndsAtRefusal {α : Type} (forest : Forest) (handler : Handler σ)
    (step : Evaluation (σ × List (Handler.Request σ)) α) : Prop :=
  ∀ noted, (∀ request ∈ noted.2, handler.Grants forest request) →
    (∀ request ∈ (step noted).2.2, handler.Grants forest request) ∨
    ∃ last earlier error, step noted = (.error error, (last.stateAfter handler, last :: earlier)) ∧
      handler.Refuses forest last error ∧ ∀ request ∈ earlier, handler.Grants forest request

/-- What a step goes on to do does not undo a refusal. -/
theorem endsAtRefusal_congruence (forest : Forest) (handler : Handler σ) :
    Congruence fun {α} (left : Evaluation (σ × List (Handler.Request σ)) α) (_ : Evaluation τ α) =>
      EndsAtRefusal forest handler left where
  pure _ _ granted := Or.inl granted
  throw _ _ granted := Or.inl granted
  bind := by
    intro _ _ step _ next _ ends rest noted granted
    rw [bind_apply]
    rcases ends noted granted with allGranted | ⟨last, earlier, error, reached, refused⟩
    · rcases outcome : step noted with ⟨error | value, reached⟩
      · rw [outcome] at allGranted
        exact Or.inl allGranted
      · rw [outcome] at allGranted
        exact rest value reached allGranted
    · rw [reached]
      exact Or.inr ⟨last, earlier, error, rfl, refused⟩

end Evaluation

namespace Handler

/-- A call of a handler makes one request or none, and ends with it if it is refused. -/
theorem invoke_endsAtRefusal (forest : Forest) (handler : Handler σ) (function : String)
    (arguments : List Value) (document : Option DocumentId) :
    Evaluation.EndsAtRefusal forest handler
      (invoke forest (some handler.noting) function arguments document) := by
  intro noted granted
  rw [invoke_some]
  split
  · let request : Request σ := ⟨function, arguments.map (argument forest document), noted.1⟩
    have grantedWith (grants : handler.Grants forest request) :
        ∀ other ∈ request :: noted.2, handler.Grants forest other :=
      List.forall_mem_cons.mpr ⟨grants, granted⟩
    change (∀ other ∈ request :: noted.2, _) ∨ _
    rcases answer : (handler.call request.function request.arguments request.state).1 with
      failure | returned
    · refine Or.inr ⟨request, noted.2, _, ?_, .failed answer, granted⟩
      exact Prod.ext (by simp only [noting]; rw [answer]) rfl
    · rcases converted : returned.toValue forest with found | value
      · refine Or.inr ⟨request, noted.2, _, ?_, .unrepresentable answer converted, granted⟩
        refine Prod.ext ?_ rfl
        simp only [noting]
        rw [answer]
        simp only [result, converted, request]
      · refine Or.inl (grantedWith fun error refuses => ?_)
        cases refuses with
        | failed other => rw [answer] at other; cases other
        | unrepresentable other noValue =>
            rw [answer] at other
            cases other
            rw [converted] at noValue
            cases noValue
  · exact Or.inl granted

end Handler

namespace Program

/-- The requests that a run makes to its handler, in the order in which it makes them. -/
def requests (program : Program) (forest : Forest) (context : Context σ) (state : σ) :
    List (Handler.Request σ) :=
  (program.run forest context.noting (state, [])).2.2.reverse

/-- If the handler refuses a request of a run, the request is the last one that the run makes, and the
run ends with the error that the refusal stands for, in the state in which the handler is left. -/
theorem run_ends_at_refusal (forest : Forest) {context : Context σ} {handler : Handler σ}
    (held : context.handler = some handler) (expression : Expr) (text : String) (state : σ) {k : Nat}
    {request : Handler.Request σ} {error : Error}
    (made : (requests ⟨expression.code, text⟩ forest context state)[k]? = some request)
    (refuses : handler.Refuses forest request error) :
    k + 1 = (requests ⟨expression.code, text⟩ forest context state).length ∧
      run ⟨expression.code, text⟩ forest context state =
        (.error error, request.stateAfter handler) := by
  let program : Program := ⟨expression.code, text⟩
  have noting : context.noting = context.withHandler (some handler.noting) := by
    rw [Context.noting, held, Option.map_some]
  have ends : Evaluation.EndsAtRefusal forest handler (program.run forest context.noting) := by
    rw [noting]
    exact (Evaluation.endsAtRefusal_congruence (τ := σ) forest handler).run forest context
      (some handler.noting) none expression text
      fun call _ _ => handler.invoke_endsAtRefusal forest call.1
  have member : request ∈ (program.run forest context.noting (state, [])).2.2 :=
    List.mem_reverse.mp (List.mem_of_getElem? made)
  rcases ends (state, []) (fun _ member => absurd member List.not_mem_nil) with
    granted | ⟨last, earlier, ending, reached, lastRefuses, granted⟩
  · exact absurd refuses (granted request member error)
  · have inOrder : requests program forest context state = earlier.reverse ++ [last] := by
      rw [requests, reached, List.reverse_cons]
    have plain := noting_mirrors_run program forest context (state, [])
    rw [reached] at member plain
    have isLast : request = last := by
      rcases List.mem_cons.mp member with same | before
      · exact same
      · exact absurd refuses (granted request before error)
    subst isLast
    rw [refuses.unique lastRefuses]
    refine ⟨?_, (Prod.ext plain.1 plain.2).symm⟩
    rw [inOrder] at made ⊢
    have bound : k < (earlier.reverse ++ [request]).length :=
      (List.getElem?_eq_some_iff.mp made).1
    rw [List.length_append, List.length_singleton] at bound ⊢
    rcases Nat.lt_or_ge k earlier.reverse.length with before | atEnd
    · -- Before the last place stands an earlier request, which was granted.
      rw [List.getElem?_append_left before] at made
      exact absurd refuses (granted request (List.mem_reverse.mp (List.mem_of_getElem? made)) error)
    · omega

end Program

/-- A handler that says no to its first call and fails from the second on. -/
def tiringHandler : Handler Nat where
  respondsTo _ _ := true
  call _ _ count := (if count = 0 then .ok (.boolean false) else .error (.text "tired"), count + 1)

/-- Every node that one of two calls says yes to, together with the nodes of an unbound variable. -/
def askedTwice : Expr :=
  .union (.rootPath [.descendantOrSelf,
    .mk .child .node [.connective .or (.call "ask" [.focus]) (.call "ask" [.focus])]]) (.var "missing")

/-- The second call fails under a predicate, behind a first operand that leaves the answer open. -/
theorem run_ends_at_refusal_second :
    ∃ request,
      (Program.requests ⟨askedTwice.code, ""⟩ pairDocument.1
        (pairContext.withHandler (some tiringHandler)) 0)[1]? = some request ∧
      tiringHandler.Refuses pairDocument.1 request
        (.handlerFailed request.function (.text "tired")) ∧
      1 + 1 = (Program.requests ⟨askedTwice.code, ""⟩ pairDocument.1
        (pairContext.withHandler (some tiringHandler)) 0).length ∧
      Program.run ⟨askedTwice.code, ""⟩ pairDocument.1
          (pairContext.withHandler (some tiringHandler)) 0 =
        (.error (.handlerFailed request.function (.text "tired")),
          request.stateAfter tiringHandler) := by
  let made := Program.requests ⟨askedTwice.code, ""⟩ pairDocument.1
    (pairContext.withHandler (some tiringHandler)) 0
  have states : made.map (·.state) = [0, 1] := by decide +kernel
  have second : made[1]?.map (·.state) = some 1 := by
    rw [← List.getElem?_map, states]
    rfl
  rcases Option.map_eq_some_iff.mp second with ⟨request, found, asked⟩
  have refuses : tiringHandler.Refuses pairDocument.1 request _ :=
    .failed (if_neg (by rw [asked]; decide))
  exact ⟨request, found, refuses,
    Program.run_ends_at_refusal pairDocument.1 rfl askedTwice "" 0 found refuses⟩

end NodeQuery

import NodeQuery.Proofs.Handler.Requests

/-!
# How a handler arranges the nodes it returns

A handler returns nodes as a node-set or as a list, in any order and with any repetitions.  All of
this is lost when the answer becomes a value: the value lists the nodes in document order and is
decorated anew.  Two handlers that differ in nothing else can therefore not be told apart by an
evaluation, however its calls are nested, since the first call that could differ does not.
-/

namespace NodeQuery

variable {σ ρ α : Type} {forest : Forest} {document : DocumentId}

namespace Evaluation

/-- The first step only adds to what has been noted, and if all that is noted in the end is harmless,
the second step does the same as the first. -/
def AgreesWhile (harmless : ρ → Prop) (first second : Evaluation (σ × List ρ) α) : Prop :=
  ∀ state, state.2 <:+ (first state).2.2 ∧
    ((∀ noted ∈ (first state).2.2, harmless noted) → first state = second state)

theorem agreesWhile_congruence (harmless : ρ → Prop) :
    Congruence fun {α} (first second : Evaluation (σ × List ρ) α) =>
      AgreesWhile harmless first second where
  pure _ _ := ⟨List.suffix_refl _, fun _ => rfl⟩
  throw _ _ := ⟨List.suffix_refl _, fun _ => rfl⟩
  bind := by
    intro _ _ first second next other agrees rest state
    rcases agrees state with ⟨grown, same⟩
    rw [bind_apply, bind_apply]
    rcases outcome : first state with ⟨error | value, reached⟩
    · rw [outcome] at grown same
      refine ⟨grown, fun allHarmless => ?_⟩
      rw [← same allHarmless]
    · rw [outcome] at grown same
      rcases rest value reached with ⟨grownFurther, sameAfter⟩
      refine ⟨grown.trans grownFurther, fun allHarmless => ?_⟩
      rw [← same fun noted member => allHarmless noted (grownFurther.subset member)]
      exact sameAfter allHarmless

end Evaluation

/-- A host value is a collection of the listed nodes: a node-set, decorated or not, or a list. -/
inductive HostValue.Collects : HostValue → List NodeId → Prop where
  | nodeSet (set : NodeSet) : Collects (.nodeSet set) set.nodes
  | list (ids : List NodeId) : Collects (.ofNodes ids) ids

namespace Handler

/-- The value for a collection is the node-set of its nodes in document order, decorated. -/
theorem result_collection {returned : HostValue} {ids : List NodeId}
    (collects : returned.Collects ids) (forest : Forest) (fallback : Option DocumentId)
    (function : String) :
    result forest fallback function returned =
      .ok (.nodeSet ((NodeSet.inDocumentOrder forest ids).decorate forest fallback)) := by
  cases collects with
  | nodeSet set => rfl
  | list =>
      rw [result, HostValue.ofNodes, HostValue.toValue, HostValue.listedNodes_map,
        ← NodeSet.inDocumentOrder_distinct]
      rfl

/-- The outcomes of two calls differ at most in how they arrange nodes of the document. -/
inductive Alike (forest : Forest) (document : DocumentId) :
    Except HandlerFailure HostValue → Except HandlerFailure HostValue → Prop where
  | same (outcome : Except HandlerFailure HostValue) : Alike forest document outcome outcome
  | rearranged {returned other : HostValue} {ids others : List NodeId}
      (collects : returned.Collects ids) (otherCollects : other.Collects others)
      (inside : ∀ id ∈ ids, id ∈ forest.nodesOf document)
      (members : ∀ id, id ∈ ids ↔ id ∈ others) :
      Alike forest document (.ok returned) (.ok other)

/-- To a request, two handlers give answers that differ at most in how they arrange nodes of the
document, and both go on to the same state. -/
structure AnswerAlike (forest : Forest) (document : DocumentId) (left right : Handler σ)
    (request : Request σ) : Prop where
  outcome : Alike forest document
    (left.call request.function request.arguments request.state).1
    (right.call request.function request.arguments request.state).1
  state : (left.call request.function request.arguments request.state).2 =
    (right.call request.function request.arguments request.state).2

/-- What an evaluation goes on with after a call. -/
def received (forest : Forest) (fallback : Option DocumentId) (function : String) :
    Except HandlerFailure HostValue → Except Error Value
  | .error failure => .error (.handlerFailed function failure)
  | .ok returned => result forest fallback function returned

theorem Alike.received_eq {root : NodeId} (tree : forest.IsTree document root)
    {first second : Except HandlerFailure HostValue} (alike : Alike forest document first second)
    (fallback : Option DocumentId) (function : String) :
    received forest fallback function first = received forest fallback function second := by
  cases alike with
  | same => rfl
  | rearranged collects otherCollects inside members =>
      rw [tree.nodesOf_eq] at inside
      rw [received, received, result_collection collects, result_collection otherCollects,
        NodeSet.inDocumentOrder_congr tree inside members]

/-- Two handlers with the same functions are called to the same effect, as long as their answers
differ at most in how they arrange nodes of the document. -/
theorem invoke_agrees {root : NodeId} (tree : forest.IsTree document root) {left right : Handler σ}
    (sameFunctions : ∀ name state, left.respondsTo name state = right.respondsTo name state)
    (function : String) (arguments : List Value) (fallback : Option DocumentId) :
    Evaluation.AgreesWhile (AnswerAlike forest document left right)
      (invoke forest (some left.noting) function arguments fallback)
      (invoke forest (some right.noting) function arguments fallback) := by
  intro noted
  have responds : left.noting.respondsTo function noted = right.noting.respondsTo function noted :=
    sameFunctions function noted.1
  rw [invoke_some, invoke_some, ← responds]
  split
  · refine ⟨List.suffix_cons _ _, fun harmless => ?_⟩
    have answers := harmless _ List.mem_cons_self
    apply Prod.ext
    · exact answers.outcome.received_eq tree fallback function
    · exact Prod.ext answers.state rfl
  · exact ⟨List.suffix_refl _, fun _ => rfl⟩

end Handler

namespace Program

/-- Two handlers with the same functions that answer every request of a run alike, up to how they
arrange nodes of a document, lead to the same result, the same state and the same calls. -/
theorem run_rearranged (fresh : forest.HasFreshDocument document) (context : Context σ)
    (left right : Handler σ)
    (sameFunctions : ∀ name state, left.respondsTo name state = right.respondsTo name state)
    (expression : Expr) (text : String) (state : σ)
    (alike : ∀ request ∈ (run ⟨expression.code, text⟩ forest
      (context.withHandler (some left)).noting (state, [])).2.2,
      Handler.AnswerAlike forest document left right request) :
    run ⟨expression.code, text⟩ forest (context.withHandler (some left)) state =
        run ⟨expression.code, text⟩ forest (context.withHandler (some right)) state ∧
      (run ⟨expression.code, text⟩ forest (context.withHandler (some left)).recording
        (state, [])).2.2 =
      (run ⟨expression.code, text⟩ forest (context.withHandler (some right)).recording
        (state, [])).2.2 := by
  rcases fresh.isTree with ⟨root, tree⟩
  have agrees := (Evaluation.agreesWhile_congruence
    (Handler.AnswerAlike forest document left right)).run forest context (some left.noting)
    (some right.noting) expression text
    fun call _ _ => Handler.invoke_agrees tree sameFunctions call.1
  have noted := (agrees (state, [])).2 alike
  constructor
  · have first := noting_mirrors_run ⟨expression.code, text⟩ forest
      (context.withHandler (some left)) (state, [])
    have second := noting_mirrors_run ⟨expression.code, text⟩ forest
      (context.withHandler (some right)) (state, [])
    apply Prod.ext
    · rw [← first.1, ← second.1]
      exact congrArg Prod.fst noted
    · rw [← first.2, ← second.2]
      exact congrArg (fun reached => reached.2.1) noted
  · rw [← calls_of_requests, ← calls_of_requests]
    exact congrArg (fun reached => reached.2.2.map Handler.Request.call) noted

end Program

/-- The handler that gives one answer to every call and counts its calls. -/
def constantHandler (answer : HostValue) : Handler Nat where
  respondsTo _ _ := true
  call _ _ count := (.ok answer, count + 1)

/-- The nodes of the pair as a decorated node-set. -/
def pairAsSet : Handler Nat :=
  constantHandler (.nodeSet
    { nodes := pairDocument.1.nodesOf pairDocument.2, decorations := some [] })

/-- The nodes of the pair in a list that has all of them twice and begins with the last. -/
def pairAsList : Handler Nat :=
  let all := pairDocument.1.nodesOf pairDocument.2
  constantHandler (.ofNodes (all.reverse ++ all))

/-- A call on what another call has found and a third has kept. -/
def nestedCalls : Program :=
  ⟨(Expr.call "name" [.filter (.call "all" [.focus]) [.call "keep" [.focus, .call "all" []]]]).code, ""⟩

theorem run_rearranged_pair :
    nestedCalls.run pairDocument.1 (pairContext.withHandler (some pairAsSet)) 0 =
        nestedCalls.run pairDocument.1 (pairContext.withHandler (some pairAsList)) 0 ∧
      (nestedCalls.run pairDocument.1 (pairContext.withHandler (some pairAsSet)).recording
        (0, [])).2.2 =
      (nestedCalls.run pairDocument.1 (pairContext.withHandler (some pairAsList)).recording
        (0, [])).2.2 := by
  refine Program.run_rearranged pairDocument_fresh pairContext pairAsSet pairAsList
    (fun _ _ => rfl) _ "" 0 ?_
  intro request _
  refine ⟨.rearranged (.nodeSet _) (.list _) (fun _ member => member) ?_, rfl⟩
  intro id
  rw [List.mem_append, List.mem_reverse, or_self]

end NodeQuery

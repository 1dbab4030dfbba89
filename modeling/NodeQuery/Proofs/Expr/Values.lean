import NodeQuery.Proofs.Handler.Requests

/-!
# Properties of the values of an evaluation

A value enters an evaluation as a literal, as the value of a variable, as the result of a function or
as the answer of a handler; everything else is made of the nodes, numbers, strings and truth values of
those, and comes without decorations.  A property of values that none of these ways gives up is had by
every value of the evaluation, by every argument of a request and by the result.
-/

namespace NodeQuery

variable {σ : Type}

/-- Putting a value in document order takes its decorations away. -/
theorem Value.bare_inDocumentOrder (forest : Forest) (value : Value) :
    (value.inDocumentOrder forest).Bare := by
  cases value with
  | nodeSet set => exact rfl
  | boolean truth => trivial
  | number amount => trivial
  | string text => trivial

/-- Every argument of the requests noted so far is a value with the property, decorated. -/
def Handler.GivenSoFar (forest : Forest) (document : Option DocumentId) (holds : Value → Prop)
    (noted : σ × List (Handler.Request σ)) : Prop :=
  ∀ request ∈ noted.2, ∀ argument ∈ request.arguments,
    ∃ value, holds value ∧ argument = Handler.argument forest document value

namespace Value.Decorable

variable {forest : Forest} {document : Option DocumentId} {holds : Value → Prop}

/-- What a handler has returned becomes a value with the property. -/
theorem result (decorable : Decorable forest document holds) {function : String}
    {returned : HostValue} {value : Value}
    (given : Handler.result forest document function returned = .ok value) : holds value := by
  rw [Handler.result] at given
  cases converted : returned.toValue forest with
  | error found => rw [converted] at given; cases given
  | ok value =>
      rw [converted] at given
      cases given
      exact decorable.decorated _ (decorable.bare _ (value.bare_inDocumentOrder forest))

/-- A call of a handler adds a request whose arguments come from values with the property, or none,
and what it gives has the property. -/
theorem invoke (decorable : Decorable forest document holds) (handler : Option (Handler σ))
    (function : String) {arguments : List Value} (given : ∀ argument ∈ arguments, holds argument) :
    Evaluation.Keeps (Handler.GivenSoFar forest document holds) holds
      (Handler.invoke forest (handler.map Handler.noting) function arguments document) := by
  intro noted before
  cases handler with
  | none => exact ⟨before, fun _ impossible => by cases impossible⟩
  | some handler =>
      rw [Option.map_some, Handler.invoke_some]
      split
      · constructor
        · refine List.forall_mem_cons.mpr ⟨?_, before⟩
          intro argument member
          rcases List.mem_map.mp member with ⟨value, listed, rfl⟩
          exact ⟨value, given value listed, rfl⟩
        · intro value answer
          dsimp only at answer
          split at answer
          · cases answer
          · exact decorable.result answer
      · exact ⟨before, fun _ impossible => by cases impossible⟩

end Value.Decorable

namespace Context.Upholds

variable {forest : Forest} {context : Context σ} {holds : Value → Prop}

section
open Evaluation
variable {inv : σ → Prop} (upholds : context.Upholds forest holds)
  (answered : ∀ function arguments, context.functions.contains function = false →
    (∀ argument ∈ arguments, holds argument) →
    Keeps inv holds (Handler.invoke forest context.handler function arguments
      (context.document? forest)))
include upholds answered

/-- The value of an expression has the property: evaluated beside itself, the expression has a value that
is the same, with the property. -/
theorem evalAt (focus : Focus) (expression : Expr) :
    Keeps inv holds (expression.evalAt forest context focus) := by
  have beside := (correspondence_alongside (keeps_composes inv) (fun _ => Keeps.throw _) upholds
    (context.alongside_refl forest)).evalAt focus (fun _ _ => trivial) expression
    fun call _ unregistered arguments given =>
      (answered call.1 arguments unregistered given).mono fun value holds => ⟨value, rfl, holds⟩
  exact beside.mono fun value ⟨_, same, _⟩ => same.2

/-- The result of a run is a value with the property, decorated. -/
theorem run (expression : Expr) (text : String) :
    Keeps inv
      (fun result => ∃ value, holds value ∧
        result = value.decorate forest (context.document? forest))
      (Program.run ⟨expression.code, text⟩ forest context) := by
  rw [Program.run_eq_eval]
  apply (upholds.evalAt answered context.focus expression).bind
  exact fun value given => Keeps.pure ⟨value, given, rfl⟩

end

/-- All that a run hands out, to its handler as arguments and at its end as the result, are values
with the property, decorated. -/
theorem handed (upholds : context.Upholds forest holds) (expression : Expr) (text : String) :
    Evaluation.Keeps (Handler.GivenSoFar forest (context.document? forest) holds)
      (fun result => ∃ value, holds value ∧
        result = value.decorate forest (context.document? forest))
      (Program.run ⟨expression.code, text⟩ forest context.noting) := by
  have noting : context.noting.Upholds forest holds :=
    ⟨upholds.toDecorable, upholds.bound, upholds.computed⟩
  exact noting.run (fun function _ _ given => upholds.invoke context.handler function given)
    expression text

end Context.Upholds

end NodeQuery

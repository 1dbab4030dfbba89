import NodeQuery.Proofs.Expr.Calls
import NodeQuery.Proofs.Expr.Correspondence
import NodeQuery.Proofs.Program.Compilation

/-!
# Evaluating with two handlers

An evaluation asks its handler for nothing but the functions that its expression calls and that no
registration names.  Under any relation that steps can be put together with, an expression evaluated
with two handlers is therefore related to itself as soon as the answers of the two handlers to those
calls are.
-/

namespace NodeQuery

variable {σ τ ρ : Type}

/-- A value that is no decorated node-set. -/
def Value.Bare : Value → Prop
  | .nodeSet set => set.decorations = none
  | _ => True

theorem Value.bare_of_scalar {value : Value} (scalar : ∀ set, value ≠ .nodeSet set) : value.Bare := by
  cases value with
  | nodeSet set => exact absurd rfl (scalar set)
  | boolean _ | number _ | string _ => trivial

/-- A property of values that all of them have before they are decorated, and that decorating them
keeps. -/
structure Value.Decorable (forest : Forest) (document : Option DocumentId) (holds : Value → Prop) :
    Prop where
  bare : ∀ value : Value, value.Bare → holds value
  decorated : ∀ value, holds value → holds (value.decorate forest document)

/-- A property that the values of every evaluation in a context have: it is one of values on their
way to be decorated, the values of variables have it, and functions keep it. -/
structure Context.Upholds (context : Context σ) (forest : Forest) (holds : Value → Prop) : Prop
    extends Value.Decorable forest (context.document? forest) holds where
  bound : ∀ name value, context.binding? name = some value → holds value
  computed : ∀ name count body, context.functions.resolve name count = .ok body →
    ∀ site arguments value, (∀ argument ∈ arguments, holds argument) →
      body forest site arguments = .ok value → holds value

theorem Context.upholds_true (context : Context σ) (forest : Forest) :
    context.Upholds forest fun _ => True :=
  ⟨⟨fun _ _ => trivial, fun _ _ => trivial⟩, fun _ _ _ => trivial, fun _ _ _ _ _ _ _ _ _ => trivial⟩

/-- The errors that an evaluation raises itself, whatever its functions fail with. -/
def Error.OfSteps : Error → Prop
  | .malformedExpression _ | .refusedSelector .. => False
  | .type (.operand ..) => True
  | .type _ => False
  | _ => True

/-- The errors that evaluations with a context can end with: those they raise themselves, and those
that a registered function fails with, given arguments of a number that it accepts. -/
def Context.FailsAt (context : Context σ) (forest : Forest) (error : Error) : Prop :=
  error.OfSteps ∨ ∃ name arguments body site,
    context.functions.resolve name arguments.length = .ok body ∧
      body forest site arguments = .error error

/-- The class of the expressions all of whose calls are of some sort. -/
def Expr.Scope.calling (answered : String × List Expr → Prop) : Scope where
  expr expression := ∀ call ∈ expression.calls, answered call
  all expressions := ∀ call ∈ callsOfAll expressions, answered call
  steps path := ∀ call ∈ callsOfSteps path, answered call
  settled _ := True
  call admitted := by
    rw [calls] at admitted
    exact (List.forall_mem_cons.mp admitted).2
  arithmetic admitted := by
    rw [calls, List.forall_mem_append] at admitted
    exact ⟨⟨trivial, admitted.1⟩, trivial, admitted.2⟩
  connective admitted := by rwa [calls, List.forall_mem_append] at admitted
  comparison admitted := by rwa [calls, List.forall_mem_append] at admitted
  negate admitted := by
    rw [calls] at admitted
    exact ⟨trivial, admitted⟩
  union admitted := by rwa [calls, List.forall_mem_append] at admitted
  rootPath admitted := by rwa [calls] at admitted
  focusPath admitted := by rwa [calls] at admitted
  exprPath admitted := by
    rw [calls, List.forall_mem_append] at admitted
    exact ⟨fun _ => trivial, admitted⟩
  filter admitted := by
    rw [calls, List.forall_mem_append] at admitted
    exact ⟨⟨trivial, admitted.1⟩, admitted.2⟩
  cons admitted := by rwa [callsOfAll, List.forall_mem_append] at admitted
  step admitted := by rwa [callsOfSteps, List.forall_mem_append] at admitted

theorem Expr.Scope.of_calling {answered : String × List Expr → Prop} {function : String}
    {arguments : List Expr} (admitted : (Scope.calling answered).expr (.call function arguments)) :
    answered (function, arguments) := by
  change ∀ call ∈ calls _, answered call at admitted
  rw [calls] at admitted
  exact admitted _ List.mem_cons_self

namespace Evaluation

/-- Two values are the same, and have a property. -/
def SameWith (holds : Value → Prop) (first second : Value) : Prop :=
  first = second ∧ holds first

theorem SameWith.eq_of_forall₂ {holds : Value → Prop} {values others : List Value}
    (same : List.Forall₂ (SameWith holds) values others) :
    values = others ∧ ∀ value ∈ values, holds value := by
  induction same with
  | nil => exact ⟨rfl, List.forall_mem_nil _⟩
  | cons first _ ih =>
      rw [first.1, ih.1]
      exact ⟨rfl, List.forall_mem_cons.mpr ⟨first.1 ▸ first.2, ih.1 ▸ ih.2⟩⟩

variable {forest : Forest} {one : Context σ} {other : Context τ} {holds : Value → Prop}

theorem sameWith_sorted (upholds : one.Upholds forest holds) (ids : List NodeId) :
    SameWith holds (.nodeSet (NodeSet.inDocumentOrder forest ids))
      (.nodeSet (NodeSet.inDocumentOrder forest ids)) :=
  ⟨rfl, upholds.bare _ rfl⟩

/-- The handlers of two contexts give related answers to a call of a function that no registration names,
given arguments with a property. -/
def Answered (related : ∀ {α β : Type}, (α → β → Prop) → Evaluation σ α → Evaluation τ β → Prop)
    (forest : Forest) (one : Context σ) (other : Context τ) (holds : Value → Prop)
    (call : String × List Expr) : Prop :=
  one.functions.contains call.1 = false → ∀ arguments, (∀ argument ∈ arguments, holds argument) →
    related (SameWith holds)
      (Handler.invoke forest one.handler call.1 arguments (one.document? forest))
      (Handler.invoke forest other.handler call.1 arguments (one.document? forest))

section
variable {related : ∀ {α β : Type}, (α → β → Prop) → Evaluation σ α → Evaluation τ β → Prop}
variable (composes : Composes related)
  (throws : ∀ {α β : Type} {alike : α → β → Prop} {error : Error}, one.FailsAt forest error →
    related alike (throw error) (throw error))
include composes throws

theorem requireNodes_sameWith (place : NodeSetPlace) {first second : Value}
    (same : SameWith holds first second) :
    related (SameWithin fun _ => True) (requireNodes place first) (requireNodes place second) := by
  obtain ⟨rfl, _⟩ := same
  cases first with
  | nodeSet set => exact composes.pure ⟨rfl, fun _ _ => trivial⟩
  | boolean _ | number _ | string _ => exact throws (Or.inl trivial)

theorem rootsOf_sameWith (upholds : one.Upholds forest holds) (focus : Focus) :
    related (SameWith holds) (rootsOf forest (focusValue forest focus))
      (rootsOf forest (focusValue forest focus)) := by
  have start : SameWith holds (focusValue forest focus) (focusValue forest focus) :=
    ⟨rfl, upholds.bare _ rfl⟩
  apply composes.bind (requireNodes_sameWith composes throws .root start)
  rintro nodes _ ⟨rfl, _⟩
  exact composes.pure ⟨rfl, upholds.bare _ rfl⟩

theorem call_sameWith (upholds : one.Upholds forest holds) (alongside : one.Alongside forest other)
    {focus : Focus} {function : String} {arguments : List Expr} {values others : List Value}
    (answered : Answered related forest one other holds (function, arguments))
    (same : List.Forall₂ (SameWith holds) values others) :
    related (SameWith holds) (Evaluation.call forest one focus function values)
      (Evaluation.call forest other focus function others) := by
  obtain ⟨rfl, given⟩ := SameWith.eq_of_forall₂ same
  simp only [call, ← alongside.functions, ← alongside.document]
  split
  · rename_i body resolved
    split
    · rename_i value computed
      exact composes.pure ⟨rfl, upholds.computed _ _ body resolved _ values value given computed⟩
    · rename_i error failed
      exact throws (Or.inr ⟨function, values, body, _, resolved, failed⟩)
  · exact throws (Or.inl trivial)
  · exact throws (Or.inl trivial)
  · rename_i unresolved
    exact answered (Registry.contains_of_unknown unresolved) values given

/-- In two contexts that differ in their handlers alone, evaluations correspond, and all of their values
have a property that the contexts uphold. -/
theorem correspondence_alongside (upholds : one.Upholds forest holds)
    (alongside : one.Alongside forest other) :
    Correspondence (.calling (Answered related forest one other holds)) forest forest one other related
      (fun _ => True) (SameWith holds) (SameWith holds) where
  toComposes := composes
  scalar scalar := ⟨rfl, upholds.bare _ (Value.bare_of_scalar scalar)⟩
  like_of_same same := same
  toBoolean_eq same := by rw [same.1]
  toNumber_eq same := by rw [same.1]
  holds_eq left right := by rw [left.1, right.1]
  keeps_eq same := by rw [same.1, alongside.keeps_eq]
  inFocus _ := ⟨rfl, upholds.bare _ rfl⟩
  sorted {ids} _ := sameWith_sorted upholds ids
  candidates _ _ := ⟨rfl, fun _ _ => trivial⟩
  bound _ := by
    simp only [variableValue, Context.binding?, ← alongside.bindings]
    split
    · exact throws (Or.inl trivial)
    · rename_i value found
      have same : SameWith holds value value := ⟨rfl, upholds.bound _ value found⟩
      exact composes.pure ⟨same, fun _ => same⟩
  called admitted _ same _ :=
    call_sameWith composes throws upholds alongside (Expr.Scope.of_calling admitted) same
  rooted _ _ := rootsOf_sameWith composes throws upholds _
  united :=
    composes.unionOf (requireNodes_sameWith composes throws) fun {ids} _ => sameWith_sorted upholds ids
  filtered := requireNodes_sameWith composes throws .predicate
  stepped _ start finds :=
    composes.step (requireNodes_sameWith composes throws) (fun {ids} _ => sameWith_sorted upholds ids)
      start finds

end

end Evaluation

/-- Two handlers give related answers to those of the listed calls whose functions no registration
names, whatever the arguments turn out to be. -/
abbrev Handler.Answer (related : ∀ {α : Type}, Evaluation σ α → Evaluation τ α → Prop)
    (forest : Forest) (functions : Registry) (left : Option (Handler σ))
    (right : Option (Handler τ)) (calls : List (String × List Expr)) : Prop :=
  ∀ call ∈ calls, functions.contains call.1 = false → ∀ arguments document,
    related (invoke forest left call.1 arguments document)
      (invoke forest right call.1 arguments document)

/-- Calls of registered functions ask for no answers. -/
theorem Handler.answer_of_registered {related : ∀ {α : Type}, Evaluation σ α → Evaluation τ α → Prop}
    {forest : Forest} {functions : Registry} {calls : List (String × List Expr)}
    (registered : ∀ call ∈ calls, functions.contains call.1 = true) (left : Option (Handler σ))
    (right : Option (Handler τ)) : Answer related forest functions left right calls := by
  intro call member unregistered
  rw [registered call member] at unregistered
  cases unregistered

namespace Evaluation.Congruence

variable {related : ∀ {α : Type}, Evaluation σ α → Evaluation τ α → Prop}

/-- What is related when any related steps come after it, be it with values that are alike. -/
def Continued (related : ∀ {α : Type}, Evaluation σ α → Evaluation τ α → Prop) {α β : Type}
    (alike : α → β → Prop) (left : Evaluation σ α) (right : Evaluation τ β) : Prop :=
  ∀ (γ : Type) (next : α → Evaluation σ γ) (other : β → Evaluation τ γ),
    (∀ first second, alike first second → related (next first) (other second)) →
      related (left >>= next) (right >>= other)

theorem continued_composes : Composes (Continued (σ := σ) (τ := τ) related) where
  pure holds := by
    intro _ next other rest
    rw [pure_bind, pure_bind]
    exact rest _ _ holds
  bind given after := by
    intro _ next other rest
    rw [bind_assoc, bind_assoc]
    exact given _ _ _ fun first second holds => after first second holds _ next other rest

variable (congruence : Congruence related)
include congruence

theorem continued_throw {α β : Type} {alike : α → β → Prop} (error : Error) :
    Continued related alike (MonadExcept.throw error) (MonadExcept.throw error) :=
  fun _ _ _ _ => congruence.throw error

theorem continued_iff {α : Type} {alike : α → α → Prop}
    (same : ∀ first second, alike first second ↔ first = second) {left : Evaluation σ α}
    {right : Evaluation τ α} :
    Continued related alike left right ↔ related left right := by
  constructor
  · intro continued
    have whole := continued _ Pure.pure Pure.pure fun first second holds => by
      rw [(same first second).mp holds]
      exact congruence.pure second
    rwa [bind_pure, bind_pure] at whole
  · intro given γ next other rest
    exact congruence.bind given fun value => rest value value ((same value value).mpr rfl)

section
variable {forest : Forest} {one : Context σ} {other : Context τ} (alongside : one.Alongside forest other)
include alongside

theorem correspondence :
    Correspondence (.calling (Answered (Continued related) forest one other fun _ => True)) forest forest
      one other (Continued related) (fun _ => True) (SameWith fun _ => True) (SameWith fun _ => True) :=
  correspondence_alongside continued_composes (fun _ => congruence.continued_throw _)
    (one.upholds_true forest) alongside

omit alongside in
theorem answered {calls : List (String × List Expr)}
    (answer : Handler.Answer related forest one.functions one.handler other.handler calls) :
    ∀ call ∈ calls, Answered (Continued related) forest one other (fun _ => True) call :=
  fun call member unregistered arguments _ =>
    (congruence.continued_iff fun _ _ => and_iff_left trivial).mpr
      (answer call member unregistered arguments _)

/-- An expression is related to itself, evaluated in two contexts whose handlers give related answers to
the calls in it. -/
theorem evalAt (focus : Focus) (expression : Expr)
    (answer : Handler.Answer related forest one.functions one.handler other.handler expression.calls) :
    related (expression.evalAt forest one focus) (expression.evalAt forest other focus) := by
  have continued := (congruence.correspondence alongside).evalAt focus (fun _ _ => trivial)
    expression (congruence.answered answer)
  exact (congruence.continued_iff fun _ _ => by simp [SameWith, Expr.Scope.calling]).mp continued

theorem follow (steps : List Step)
    (answer : Handler.Answer related forest one.functions one.handler other.handler
      (Expr.callsOfSteps steps)) (value : Value) :
    related (Expr.follow forest one steps value) (Expr.follow forest other steps value) := by
  have continued := (congruence.correspondence alongside).follow steps (congruence.answered answer)
    (show SameWith _ value value from ⟨rfl, trivial⟩) fun _ => ⟨rfl, trivial⟩
  exact (congruence.continued_iff fun _ _ => and_iff_left trivial).mp continued

theorem keptBy (predicates : List Expr)
    (answer : Handler.Answer related forest one.functions one.handler other.handler
      (Expr.callsOfAll predicates)) (nodes : List NodeId) :
    related (Expr.keptBy forest one predicates nodes) (Expr.keptBy forest other predicates nodes) := by
  have continued := (congruence.correspondence alongside).keptBy predicates (congruence.answered answer)
    fun id (_ : id ∈ nodes) => trivial
  exact (congruence.continued_iff fun _ _ => by simp [SameWithin]).mp continued

end

section
variable (forest : Forest) (context : Context ρ) {left : Option (Handler σ)}
variable {right : Option (Handler τ)}

/-- A whole expression is related to itself, evaluated with two handlers that give related answers to
the calls in it. -/
theorem eval (expression : Expr)
    (answer : Handler.Answer related forest context.functions left right expression.calls) :
    related (expression.eval forest (context.withHandler left))
      (expression.eval forest (context.withHandler right)) :=
  congruence.bind
    (congruence.evalAt (context.alongside_withHandler forest left right) context.focus expression answer)
    fun _ => congruence.pure _

variable (left right) in
/-- What relates an expression to itself relates its program to itself. -/
theorem run (expression : Expr) (text : String)
    (answer : Handler.Answer related forest context.functions left right expression.calls) :
    related (Program.run ⟨expression.code, text⟩ forest (context.withHandler left))
      (Program.run ⟨expression.code, text⟩ forest (context.withHandler right)) := by
  rw [Program.run_eq_eval, Program.run_eq_eval]
  exact congruence.eval forest context expression answer

end

end Evaluation.Congruence

/-- Equality is a relation that steps can be put together with. -/
theorem Evaluation.eq_congruence :
    Congruence fun {α} (left right : Evaluation σ α) => left = right where
  pure _ := rfl
  throw _ := rfl
  bind same rest := by rw [same, funext rest]

namespace Context.Alongside

variable {forest : Forest} {context other : Context σ} (alongside : context.Alongside forest other)
variable (sameHandler : context.handler = other.handler)
include alongside sameHandler

/-- An expression has the same outcome in two contexts with the same handler. -/
theorem evalAt_eq (focus : Focus) (expression : Expr) :
    expression.evalAt forest context focus = expression.evalAt forest other focus :=
  Evaluation.eq_congruence.evalAt alongside focus expression fun _ _ _ _ _ => by rw [sameHandler]

/-- Steps lead to the same place in two contexts with the same handler. -/
theorem follow_eq (steps : List Step) (value : Value) :
    Expr.follow forest context steps value = Expr.follow forest other steps value :=
  Evaluation.eq_congruence.follow alongside steps (fun _ _ _ _ _ => by rw [sameHandler]) value

end Context.Alongside

end NodeQuery

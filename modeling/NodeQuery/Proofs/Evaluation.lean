import NodeQuery.Evaluation
import NodeQuery.Proofs.Function.Registry

/-!
# Reasoning about evaluation steps

An evaluation step starts from a state of the handler, ends in one, and gives a value or an error.
What is proved of a whole evaluation is put together from its steps: a property of states that every
step keeps, and a property of values that every step gives.  The two are proved together, since what
a handler returns can depend on its state and what it is given depends on the values so far.

Two evaluations are compared step by step too.  A relation that steps can be put together with holds
between the parts that all evaluations share as soon as it holds between the calls of handlers.
-/

namespace NodeQuery

variable {σ τ ρ α β : Type}

/-- Two contexts with the same variables, functions and document; their handlers and the nodes they
start from may differ. -/
structure Context.Alongside (forest : Forest) (first : Context σ) (second : Context τ) : Prop where
  bindings : first.bindings = second.bindings
  functions : first.functions = second.functions
  document : first.document? forest = second.document? forest

theorem Context.alongside_refl (context : Context σ) (forest : Forest) :
    context.Alongside forest context :=
  ⟨rfl, rfl, rfl⟩

/-- Handlers apart, a context stays what it is. -/
theorem Context.alongside_withHandler (forest : Forest) (context : Context ρ)
    (left : Option (Handler σ)) (right : Option (Handler τ)) :
    (context.withHandler left).Alongside forest (context.withHandler right) :=
  ⟨rfl, rfl, rfl⟩

theorem Context.Alongside.keeps_eq {forest : Forest} {first : Context σ} {second : Context τ}
    (alongside : first.Alongside forest second) (calledFunction : Option String) (result : Value)
    (position : Nat) :
    Evaluation.keeps first calledFunction result position =
      Evaluation.keeps second calledFunction result position := by
  unfold Evaluation.keeps
  rw [alongside.functions]

namespace Evaluation

theorem bind_apply (step : Evaluation σ α) (next : α → Evaluation σ β) (state : σ) :
    (step >>= next) state =
      match step state with
      | (.ok value, rest) => next value rest
      | (.error error, rest) => (.error error, rest) := by
  simp only [bind, ExceptT.bind, ExceptT.mk, StateT.bind]
  rcases step state with ⟨_ | value, rest⟩ <;> rfl

/-- Started from a state with `inv`, a step ends in one, and a value it gives satisfies `post`.  An
error ends the evaluation, so nothing is asked of it. -/
def Keeps (inv : σ → Prop) (post : α → Prop) (step : Evaluation σ α) : Prop :=
  ∀ state, inv state →
    inv (step state).2 ∧ ∀ value, (step state).1 = .ok value → post value

variable {inv : σ → Prop} {post : α → Prop}

theorem Keeps.pure {value : α} (holds : post value) :
    Keeps inv post (Pure.pure value : Evaluation σ α) := by
  intro state kept
  refine ⟨kept, ?_⟩
  intro given equal
  cases equal
  exact holds

theorem Keeps.throw (error : Error) : Keeps inv post (throw error : Evaluation σ α) := by
  intro state kept
  refine ⟨kept, ?_⟩
  intro given impossible
  cases impossible

theorem Keeps.bind {middle : α → Prop} {last : β → Prop} {step : Evaluation σ α}
    {next : α → Evaluation σ β} (first : Keeps inv middle step)
    (rest : ∀ value, middle value → Keeps inv last (next value)) :
    Keeps inv last (step >>= next) := by
  intro state kept
  obtain ⟨after, given⟩ := first state kept
  rw [bind_apply]
  rcases outcome : step state with ⟨error | value, reached⟩
  · rw [outcome] at after
    exact ⟨after, fun _ impossible => by cases impossible⟩
  · rw [outcome] at after given
    exact rest value (given value rfl) reached after

theorem Keeps.mono {weaker : α → Prop} {step : Evaluation σ α} (keeps : Keeps inv post step)
    (implies : ∀ value, post value → weaker value) : Keeps inv weaker step := by
  intro state kept
  obtain ⟨after, given⟩ := keeps state kept
  exact ⟨after, fun value equal => implies value (given value equal)⟩

/-- Of a step on its own nothing is known but that it is a step. -/
theorem Keeps.any (step : Evaluation σ α) : Keeps (fun _ => True) (fun _ => True) step :=
  fun _ _ => ⟨trivial, fun _ _ => trivial⟩

/-- Two continuations that agree on what a step can give make the same evaluation. -/
theorem Keeps.bind_congr {step : Evaluation σ α} {first second : α → Evaluation σ β}
    (keeps : Keeps (fun _ => True) post step)
    (agree : ∀ value, post value → first value = second value) :
    step >>= first = step >>= second := by
  funext state
  have given := (keeps state trivial).2
  rw [bind_apply, bind_apply]
  rcases outcome : step state with ⟨error | value, reached⟩
  · rfl
  · rw [outcome] at given
    simp only [agree value (given value rfl)]

/-- Started from a state with `inv`, a step gives this very value and ends in such a state. -/
def Gives (inv : σ → Prop) (value : α) (step : Evaluation σ α) : Prop :=
  ∀ state, inv state → ∃ after, step state = (.ok value, after) ∧ inv after

theorem Gives.pure (value : α) : Gives inv value (Pure.pure value : Evaluation σ α) :=
  fun state kept => ⟨state, rfl, kept⟩

theorem Gives.bind {first : α} {last : β} {step : Evaluation σ α} {next : α → Evaluation σ β}
    (given : Gives inv first step) (rest : Gives inv last (next first)) :
    Gives inv last (step >>= next) := by
  intro state kept
  rcases given state kept with ⟨middle, outcome, keptMiddle⟩
  rw [bind_apply, outcome]
  exact rest middle keptMiddle

/-- From one state only: the step gives the value and leaves the state as it is. -/
theorem gives_at_iff {value : α} {step : Evaluation σ α} {state : σ} :
    Gives (· = state) value step ↔ step state = (.ok value, state) := by
  constructor
  · intro given
    rcases given state rfl with ⟨_, outcome, rfl⟩
    exact outcome
  · rintro outcome _ rfl
    exact ⟨_, outcome, rfl⟩

/-- Nodes are kept if a test, wherever they stand among the others, answers so. -/
theorem Gives.keepWhere {test : Focus → Evaluation σ Bool} {holds : NodeId → Bool}
    {position last : Nat} {ids : List NodeId} (bound : position + ids.length ≤ last + 1)
    (each : ∀ id ∈ ids, ∀ place, position ≤ place → place ≤ last →
      Gives inv (holds id) (test ⟨some id, place, last⟩)) :
    Gives inv (ids.filter holds) (Evaluation.keepWhere test last position ids) := by
  induction ids generalizing position with
  | nil => exact Gives.pure _
  | cons id ids ih =>
      rw [List.length_cons] at bound
      have shorter : position + 1 + ids.length ≤ last + 1 := by omega
      have later := ih shorter fun other member place least =>
        each other (List.mem_cons_of_mem id member) place (Nat.le_of_succ_le least)
      rw [Evaluation.keepWhere, List.filter_cons]
      exact (each id List.mem_cons_self position (Nat.le_refl _) (by omega)).bind
        (later.bind (Gives.pure _))

theorem Gives.collect {find : NodeId → Evaluation σ (List NodeId)} {found : NodeId → List NodeId}
    {ids : List NodeId} (each : ∀ id ∈ ids, Gives inv (found id) (find id)) :
    Gives inv (ids.flatMap found) (Evaluation.collect find ids) := by
  induction ids with
  | nil => exact Gives.pure _
  | cons id ids ih =>
      have later := ih fun other member => each other (List.mem_cons_of_mem id member)
      rw [Evaluation.collect, List.flatMap_cons]
      exact (each id List.mem_cons_self).bind (later.bind (Gives.pure _))

/-- A relation between steps over two kinds of states that holds where both give the same value or
both end with the same error, and that is kept when steps are put one after the other.  An evaluation
is then related to another of the same shape as soon as their calls of handlers are. -/
structure Congruence (related : ∀ {α : Type}, Evaluation σ α → Evaluation τ α → Prop) : Prop where
  pure : ∀ {α : Type} (value : α), related (Pure.pure value) (Pure.pure value)
  throw : ∀ {α : Type} (error : Error), related (α := α) (throw error) (throw error)
  bind : ∀ {α β : Type} {first : Evaluation σ α} {second : Evaluation τ α}
    {next : α → Evaluation σ β} {other : α → Evaluation τ β},
    related first second → (∀ value, related (next value) (other value)) →
      related (first >>= next) (second >>= other)

/-- Keeping a property of states asks nothing of what is put beside a step. -/
theorem keeps_congruence (inv : σ → Prop) :
    Congruence fun {α} (left : Evaluation σ α) (_ : Evaluation τ α) =>
      Keeps inv (fun _ => True) left where
  pure _ := Keeps.pure trivial
  throw := Keeps.throw
  bind first rest := first.bind fun value _ => rest value

/-- Started from two states that belong together, two steps have the same outcome and end in states
that belong together. -/
def Coupled (together : σ → τ → Prop) (left : Evaluation σ α) (right : Evaluation τ α) : Prop :=
  ∀ first second, together first second →
    (left first).1 = (right second).1 ∧ together (left first).2 (right second).2

theorem coupled_congruence (together : σ → τ → Prop) : Congruence (Coupled together) where
  pure _ _ _ start := ⟨rfl, start⟩
  throw _ _ _ start := ⟨rfl, start⟩
  bind := by
    intro _ _ left right next other coupled rest first second start
    rcases coupled first second start with ⟨sameOutcome, reached⟩
    rw [bind_apply, bind_apply]
    rcases leftStep : left first with ⟨given, leftReached⟩
    rcases rightStep : right second with ⟨rightGiven, rightReached⟩
    rw [leftStep, rightStep] at sameOutcome reached
    dsimp only at sameOutcome reached
    subst sameOutcome
    cases given with
    | error error => exact ⟨rfl, reached⟩
    | ok value => exact rest value leftReached rightReached reached

namespace Congruence

variable {related : ∀ {α : Type}, Evaluation σ α → Evaluation τ α → Prop}
variable (congruence : Congruence related)
include congruence

theorem requireNodes (place : NodeSetPlace) (value : Value) :
    related (Evaluation.requireNodes place value) (Evaluation.requireNodes place value) := by
  cases value with
  | nodeSet set => exact congruence.pure _
  | boolean truth => exact congruence.throw _
  | number amount => exact congruence.throw _
  | string text => exact congruence.throw _

theorem rootsOf (forest : Forest) (value : Value) :
    related (Evaluation.rootsOf forest value) (Evaluation.rootsOf forest value) :=
  congruence.bind (congruence.requireNodes .root value) fun _ => congruence.pure _

theorem unionOf (forest : Forest) (left right : Value) :
    related (Evaluation.unionOf forest left right) (Evaluation.unionOf forest left right) :=
  congruence.bind (congruence.requireNodes .union right) fun _ =>
    congruence.bind (congruence.requireNodes .union left) fun _ => congruence.pure _

theorem keepWhere {first : Focus → Evaluation σ Bool} {second : Focus → Evaluation τ Bool}
    (tests : ∀ focus, related (first focus) (second focus)) (last position : Nat)
    (ids : List NodeId) :
    related (Evaluation.keepWhere first last position ids)
      (Evaluation.keepWhere second last position ids) := by
  induction ids generalizing position with
  | nil => exact congruence.pure _
  | cons id ids ih =>
      rw [Evaluation.keepWhere, Evaluation.keepWhere]
      apply congruence.bind (tests _)
      intro kept
      exact congruence.bind (ih (position + 1)) fun _ => congruence.pure _

theorem collect {first : NodeId → Evaluation σ (List NodeId)}
    {second : NodeId → Evaluation τ (List NodeId)}
    (finds : ∀ id, related (first id) (second id)) (ids : List NodeId) :
    related (Evaluation.collect first ids) (Evaluation.collect second ids) := by
  induction ids with
  | nil => exact congruence.pure _
  | cons id ids ih =>
      rw [Evaluation.collect, Evaluation.collect]
      apply congruence.bind (finds id)
      intro found
      exact congruence.bind ih fun _ => congruence.pure _

section
variable {forest : Forest} {first : Context σ} {second : Context τ}
variable (alongside : first.Alongside forest second)
include alongside

theorem variableValue (name : String) :
    related (Evaluation.variableValue first name) (Evaluation.variableValue second name) := by
  simp only [Evaluation.variableValue, Context.binding?, alongside.bindings]
  split
  · exact congruence.throw _
  · exact congruence.pure _

theorem call (focus : Focus) {function : String} (arguments : List Value)
    (answer : first.functions.contains function = false → ∀ document,
      related (Handler.invoke forest first.handler function arguments document)
        (Handler.invoke forest second.handler function arguments document)) :
    related (Evaluation.call forest first focus function arguments)
      (Evaluation.call forest second focus function arguments) := by
  simp only [Evaluation.call, ← alongside.functions, ← alongside.document]
  split
  · split
    · exact congruence.pure _
    · exact congruence.throw _
  · exact congruence.throw _
  · exact congruence.throw _
  · rename_i unresolved
    exact answer (Registry.contains_of_unknown unresolved) _

end

end Congruence

/-- Both steps leave the state as it is, and either they give values that are alike or both fail,
though maybe for different reasons. -/
def Alike (alike : α → β → Prop) (left : Evaluation σ α) (right : Evaluation σ β) : Prop :=
  ∀ state,
    (∃ first second, left state = (.error first, state) ∧ right state = (.error second, state)) ∨
    ∃ first second, left state = (.ok first, state) ∧ right state = (.ok second, state) ∧
      alike first second

variable {γ δ : Type} {alike : α → β → Prop} {left : Evaluation σ α} {right : Evaluation σ β}

theorem Alike.pure {first : α} {second : β} (holds : alike first second) :
    Alike alike (Pure.pure first : Evaluation σ α) (Pure.pure second) :=
  fun _ => Or.inr ⟨first, second, rfl, rfl, holds⟩

theorem Alike.throw (first second : Error) :
    Alike alike (throw first : Evaluation σ α) (throw second) :=
  fun _ => Or.inl ⟨first, second, rfl, rfl⟩

theorem Alike.bind {last : γ → δ → Prop} {next : α → Evaluation σ γ} {other : β → Evaluation σ δ}
    (both : Alike alike left right)
    (rest : ∀ first second, alike first second → Alike last (next first) (other second)) :
    Alike last (left >>= next) (right >>= other) := by
  intro state
  rw [bind_apply, bind_apply]
  rcases both state with ⟨first, second, leftStep, rightStep⟩ |
    ⟨first, second, leftStep, rightStep, holds⟩
  · rw [leftStep, rightStep]
    exact Or.inl ⟨first, second, rfl, rfl⟩
  · rw [leftStep, rightStep]
    exact rest first second holds state

theorem Alike.mono {weaker : α → β → Prop} (both : Alike alike left right)
    (implies : ∀ first second, alike first second → weaker first second) :
    Alike weaker left right := by
  intro state
  rcases both state with failed | ⟨first, second, leftStep, rightStep, holds⟩
  · exact Or.inl failed
  · exact Or.inr ⟨first, second, leftStep, rightStep, implies first second holds⟩

theorem Alike.trans {further : β → γ → Prop} {last : Evaluation σ γ} (both : Alike alike left right)
    (next : Alike further right last) :
    Alike (fun first third => ∃ second, alike first second ∧ further second third) left last := by
  intro state
  rcases both state with ⟨first, second, leftStep, rightStep⟩ |
    ⟨first, second, leftStep, rightStep, holds⟩
  · rcases next state with ⟨_, third, _, lastStep⟩ | ⟨_, _, impossible, _⟩
    · exact Or.inl ⟨first, third, leftStep, lastStep⟩
    · rw [rightStep] at impossible
      cases impossible
  · rcases next state with ⟨_, _, impossible, _⟩ | ⟨_, third, same, lastStep, furtherHolds⟩
    · rw [rightStep] at impossible
      cases impossible
    · rw [rightStep] at same
      cases same
      exact Or.inr ⟨first, third, leftStep, lastStep, second, holds, furtherHolds⟩

/-- Steps that leave the state as it is may be taken in either order. -/
theorem Alike.swap {alike : γ → δ → Prop} {first : Evaluation σ α} {second : Evaluation σ β}
    (firstIdle : Alike Eq first first) (secondIdle : Alike Eq second second)
    {next : α → β → Evaluation σ γ} {other : β → α → Evaluation σ δ}
    (rest : ∀ value further, Alike alike (next value further) (other further value)) :
    Alike alike (first >>= fun value => second >>= fun further => next value further)
      (second >>= fun further => first >>= fun value => other further value) := by
  intro state
  simp only [bind_apply]
  -- Whichever of the two is tried first, one of them fails or neither does.
  rcases firstIdle state with ⟨_, _, firstFails, _⟩ | ⟨value, _, firstStep, _, _⟩ <;>
    rcases secondIdle state with ⟨_, _, secondFails, _⟩ | ⟨further, _, secondStep, _, _⟩
  · rw [firstFails, secondFails]
    exact Or.inl ⟨_, _, rfl, rfl⟩
  · rw [firstFails, secondStep]
    dsimp only
    rw [firstFails]
    exact Or.inl ⟨_, _, rfl, rfl⟩
  · rw [firstStep, secondFails]
    dsimp only
    rw [secondFails]
    exact Or.inl ⟨_, _, rfl, rfl⟩
  · rw [firstStep, secondStep]
    dsimp only
    rw [firstStep, secondStep]
    exact rest value further state

end Evaluation

/-- The outcome of a call of a handler and the state after it, each in its own right. -/
theorem Handler.invoke_some (forest : Forest) (handler : Handler σ) (function : String)
    (arguments : List Value) (document : Option DocumentId) (state : σ) :
    invoke forest (some handler) function arguments document state =
      if handler.respondsTo function state then
        let answer := handler.call function (arguments.map (argument forest document)) state
        (match answer.1 with
          | .error failure => .error (.handlerFailed function failure)
          | .ok returned => result forest document function returned,
          answer.2)
      else (.error (.undefinedFunction function), state) := by
  rcases called : handler.call function (arguments.map (argument forest document)) state with
    ⟨_ | _, _⟩
  · simp only [invoke, called]
  · simp only [invoke, called]

end NodeQuery
